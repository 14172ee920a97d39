import EventScript.SyntaxError
import EventScript.Text.Blank
import EventScript.Text.Letter

namespace EventScript

-- The number of bytes of a text in UTF-8.
def byteLength (cs : List Char) : Nat := cs.foldl (fun n c => n + c.utf8Size) 0

theorem foldl_utf8Size (n : Nat) (cs : List Char) :
    cs.foldl (fun n c => n + c.utf8Size) n = n + byteLength cs := by
  unfold byteLength
  induction cs generalizing n with
  | nil => rfl
  | cons c cs ih =>
    simp only [List.foldl_cons, Nat.zero_add]
    rw [ih (n + c.utf8Size), ih c.utf8Size, Nat.add_assoc]

@[simp] theorem byteLength_nil : byteLength [] = 0 := rfl

@[simp] theorem byteLength_cons (c : Char) (cs : List Char) :
    byteLength (c :: cs) = c.utf8Size + byteLength cs := by
  rw [← foldl_utf8Size, byteLength, List.foldl_cons, Nat.zero_add]

@[simp] theorem byteLength_append (cs ds : List Char) :
    byteLength (cs ++ ds) = byteLength cs + byteLength ds := by
  induction cs with
  | nil => simp
  | cons c cs ih => simp only [List.cons_append, byteLength_cons, ih, Nat.add_assoc]

namespace Lexer

-- Each scanner gives back what it leaves of the text, behind the lexeme that it has read.

-- White space and comments

-- What is left behind the end of a comment, if it ends.
def closeComment? : List Char → Option (List Char)
  | [] => none
  | '*' :: '/' :: rest => some rest
  | _ :: rest => closeComment? rest

theorem closeComment?_suffix {input rest : List Char} (h : closeComment? input = some rest) :
    rest <:+ input := by
  fun_induction closeComment? input with
  | case1 => cases h
  | case2 tail =>
      obtain rfl := Option.some.inj h
      exact (List.suffix_cons _ _).trans (List.suffix_cons _ _)
  | case3 _ _ _ ih => exact (ih h).trans (List.suffix_cons _ _)

-- Drops blanks and comments. A comment that does not end is kept, so the result starts with the
-- opening of a comment only in that case.
def skipTrivia (input : List Char) : List Char :=
  match input with
  | [] => []
  | '/' :: '/' :: rest => skipTrivia (rest.dropWhile (· ≠ '\n'))
  | '/' :: '*' :: rest =>
    match _h : closeComment? rest with
    | some after => skipTrivia after
    | none => '/' :: '*' :: rest
  | c :: rest => if Text.isBlank c then skipTrivia rest else c :: rest
termination_by input.length
decreasing_by
  · have := (List.dropWhile_suffix (l := rest) (· ≠ '\n')).length_le
    simp only [List.length_cons]
    omega
  · have := (closeComment?_suffix _h).length_le
    simp only [List.length_cons]
    omega
  · simp

theorem skipTrivia_suffix (input : List Char) : skipTrivia input <:+ input := by
  fun_induction skipTrivia input with
  | case1 => exact List.suffix_refl _
  | case2 rest ih =>
      have hline := (List.dropWhile_suffix (· ≠ '\n')).trans (List.suffix_cons '/' rest)
      exact ih.trans (hline.trans (List.suffix_cons _ _))
  | case3 rest after h ih =>
      have hcomment := (closeComment?_suffix h).trans (List.suffix_cons '*' rest)
      exact ih.trans (hcomment.trans (List.suffix_cons _ _))
  | case4 => exact List.suffix_refl _
  | case5 c rest _ _ _ ih => exact ih.trans (List.suffix_cons c rest)
  | case6 => exact List.suffix_refl _

def opensComment : List Char → Bool
  | '/' :: '*' :: _ => true
  | _ => false

-- Words

def startsWord (c : Char) : Bool := Text.isLetter c || c == '_'

def continuesWord (c : Char) : Bool := Text.isLetterOrNumber c || c == '_'

-- The keyword or the identifier spelled that way.
def wordKind (text : String) : TokenKind :=
  match Keyword.ofText? text with
  | some word => .keyword word
  | none => .ident text

def scanWord (input : List Char) : TokenKind × List Char :=
  (wordKind (String.ofList (input.takeWhile continuesWord)), input.dropWhile continuesWord)

-- Numbers

def digitsValue (digits : List Char) : Nat :=
  digits.foldl (fun value c => 10 * value + (c.toNat - '0'.toNat)) 0

-- The digits behind a point. A point that no digit follows is no part of a number.
def scanFraction : List Char → List Char × List Char
  | '.' :: rest =>
    let digits := rest.takeWhile Char.isDigit
    if digits.isEmpty then ([], '.' :: rest) else (digits, rest.dropWhile Char.isDigit)
  | input => ([], input)

-- The sign of an exponent: whether it is negative.
def scanSign : List Char → Bool × List Char
  | '-' :: rest => (true, rest)
  | '+' :: rest => (false, rest)
  | input => (false, input)

-- The exponent, if the letter for it is followed by digits.
def scanExponent : List Char → Option Int × List Char
  | [] => (none, [])
  | c :: rest =>
    if c = 'e' ∨ c = 'E' then
      let (negative, behind) := scanSign rest
      let digits := behind.takeWhile Char.isDigit
      if digits.isEmpty then (none, c :: rest)
      else
        let value : Int := digitsValue digits
        (some (if negative then -value else value), behind.dropWhile Char.isDigit)
    else (none, c :: rest)

def realSuffix? (c : Char) : Option RealSuffix :=
  if c = 'f' ∨ c = 'F' then some .float
  else if c = 'd' ∨ c = 'D' then some .double
  else if c = 'm' ∨ c = 'M' then some .decimal
  else none

def scanRealSuffix : List Char → Option RealSuffix × List Char
  | [] => (none, [])
  | c :: rest =>
    match realSuffix? c with
    | some suffix => (some suffix, rest)
    | none => (none, c :: rest)

-- Drops one letter, whatever its case.
def scanLetter (lower upper : Char) : List Char → Bool × List Char
  | [] => (false, [])
  | c :: rest => if c = lower ∨ c = upper then (true, rest) else (false, c :: rest)

-- The suffix of an integer: `U` and `L` at most once each, in either order.
def scanIntSuffix (input : List Char) : IntSuffix × List Char :=
  match scanLetter 'u' 'U' input with
  | (true, rest) =>
    match scanLetter 'l' 'L' rest with
    | (true, rest) => (.unsignedLong, rest)
    | (false, rest) => (.unsigned, rest)
  | (false, rest) =>
    match scanLetter 'l' 'L' rest with
    | (false, rest) => (.none, rest)
    | (true, rest) =>
      match scanLetter 'u' 'U' rest with
      | (true, rest) => (.unsignedLong, rest)
      | (false, rest) => (.long, rest)

-- A number that a word follows without a gap is malformed.
def endsNumber : List Char → Bool
  | [] => true
  | c :: _ => !continuesWord c

-- An integer or a real number; a fraction, an exponent or a suffix for reals makes it real.
def scanNumber? (input : List Char) : Option (TokenKind × List Char) :=
  let digits := input.takeWhile Char.isDigit
  let (fraction, rest) := scanFraction (input.dropWhile Char.isDigit)
  let (exponent, rest) := scanExponent rest
  let (suffix, rest) := scanRealSuffix rest
  if !fraction.isEmpty || exponent.isSome || suffix.isSome then
    let value := Binary64.ofDecimal (digitsValue (digits ++ fraction))
      (exponent.getD 0 - fraction.length)
    if endsNumber rest then some (.real value (suffix.getD .none), rest) else none
  else
    let value := digitsValue digits
    let (suffix, rest) := scanIntSuffix rest
    if value < Nat.pow 2 64 && endsNumber rest then some (.int value suffix, rest) else none

-- Strings

-- What a backslash and a character stand for; before an unknown one the backslash stays.
def unescape (c : Char) : List Char :=
  if c = '"' then ['"']
  else if c = '\\' then ['\\']
  else if c = 'n' then ['\n']
  else if c = 't' then ['\t']
  else if c = 'r' then ['\r']
  else if c = '0' then [Char.ofNat 0]
  else ['\\', c]

-- The text up to the closing quote. A line break ends the line before the string ends.
def scanString? : List Char → Option (List Char × List Char)
  | [] => none
  | '"' :: rest => some ([], rest)
  | '\n' :: _ => none
  | ['\\'] => none
  | '\\' :: c :: rest => (scanString? rest).map fun (text, after) => (unescape c ++ text, after)
  | c :: rest => (scanString? rest).map fun (text, after) => (c :: text, after)

-- Signs

def pairSymbol? : Char → Char → Option Symbol
  | '=', '=' => some .eqEq
  | '!', '=' => some .notEq
  | '<', '=' => some .ltEq
  | '>', '=' => some .gtEq
  | '&', '&' => some .andAnd
  | '|', '|' => some .orOr
  | _, _ => none

def singleSymbol? : Char → Option Symbol
  | '.' => some .dot
  | ',' => some .comma
  | ';' => some .semicolon
  | '(' => some .lparen
  | ')' => some .rparen
  | '[' => some .lbracket
  | ']' => some .rbracket
  | '?' => some .question
  | '=' => some .assign
  | '+' => some .plus
  | '-' => some .minus
  | '*' => some .star
  | '/' => some .slash
  | '%' => some .percent
  | '!' => some .bang
  | '<' => some .lt
  | '>' => some .gt
  | _ => none

-- The longest sign at the front.
def scanSymbol? : List Char → Option (Symbol × List Char)
  | [] => none
  | [c] => (singleSymbol? c).map (·, [])
  | c :: next :: rest =>
    match pairSymbol? c next with
    | some sign => some (sign, rest)
    | none => (singleSymbol? c).map (·, next :: rest)

-- Tokens

-- The token at the front of a text that starts with no blank or comment.
def scanToken? (input : List Char) : Option (TokenKind × List Char) :=
  match input with
  | [] => none
  | c :: rest =>
    if c.isDigit then scanNumber? input
    else if c = '"' then
      (scanString? rest).map fun (text, after) => (.str (String.ofList text), after)
    else if startsWord c then some (scanWord input)
    else (scanSymbol? input).map fun (sign, after) => (.symbol sign, after)

-- What a scanner leaves is an end of what it was given, and a token takes one character at least,
-- so splitting a text comes to an end.

section

variable {c : Char} {input rest after : List Char}

theorem scanWord_suffix (rest : List Char) (h : startsWord c = true) :
    (scanWord (c :: rest)).2 <:+ rest := by
  have hc : continuesWord c = true := by
    simp only [startsWord, continuesWord, Bool.or_eq_true] at h ⊢
    exact h.imp_left Text.isLetterOrNumber_of_isLetter
  simp only [scanWord, List.dropWhile_cons, hc, ↓reduceIte]
  exact List.dropWhile_suffix _

theorem scanFraction_suffix (input : List Char) : (scanFraction input).2 <:+ input := by
  unfold scanFraction
  split
  · rename_i rest
    dsimp only
    split
    · exact List.suffix_refl _
    · exact (List.dropWhile_suffix _).trans (List.suffix_cons _ _)
  · exact List.suffix_refl _

theorem scanSign_suffix (input : List Char) : (scanSign input).2 <:+ input := by
  unfold scanSign
  split
  · exact List.suffix_cons _ _
  · exact List.suffix_cons _ _
  · exact List.suffix_refl _

theorem scanExponent_suffix (input : List Char) : (scanExponent input).2 <:+ input := by
  unfold scanExponent
  split
  · exact List.suffix_refl _
  · rename_i c rest
    have hsign := (scanSign_suffix rest).trans (List.suffix_cons c rest)
    dsimp only
    split
    · split
      · exact List.suffix_refl _
      · exact (List.dropWhile_suffix _).trans hsign
    · exact List.suffix_refl _

theorem scanRealSuffix_suffix (input : List Char) : (scanRealSuffix input).2 <:+ input := by
  unfold scanRealSuffix
  split
  · exact List.suffix_refl _
  · split
    · exact List.suffix_cons _ _
    · exact List.suffix_refl _

theorem scanLetter_suffix (lower upper : Char) (input : List Char) :
    (scanLetter lower upper input).2 <:+ input := by
  unfold scanLetter
  split
  · exact List.suffix_refl _
  · split
    · exact List.suffix_cons _ _
    · exact List.suffix_refl _

theorem scanIntSuffix_suffix (input : List Char) : (scanIntSuffix input).2 <:+ input := by
  unfold scanIntSuffix
  have hu := scanLetter_suffix 'u' 'U' input
  split
  · rename_i rest hfirst
    rw [hfirst] at hu
    have hl := scanLetter_suffix 'l' 'L' rest
    split <;> rename_i hsecond <;> rw [hsecond] at hl <;> exact hl.trans hu
  · rename_i rest hfirst
    rw [hfirst] at hu
    have hl := scanLetter_suffix 'l' 'L' rest
    split
    · rename_i hsecond
      rw [hsecond] at hl
      exact hl.trans hu
    · rename_i left hsecond
      rw [hsecond] at hl
      have hlast := scanLetter_suffix 'u' 'U' left
      split <;> rename_i hthird <;> rw [hthird] at hlast <;> exact (hlast.trans hl).trans hu

theorem scanNumber?_suffix {kind : TokenKind} (hc : c.isDigit = true)
    (h : scanNumber? (c :: rest) = some (kind, after)) : after <:+ rest := by
  have hdigits : rest.dropWhile Char.isDigit <:+ rest := List.dropWhile_suffix _
  have hfraction := (scanFraction_suffix _).trans hdigits
  have hexponent := (scanExponent_suffix _).trans hfraction
  have hreal := (scanRealSuffix_suffix _).trans hexponent
  have hint := (scanIntSuffix_suffix _).trans hreal
  simp only [scanNumber?, List.dropWhile_cons, hc, ↓reduceIte] at h
  split at h <;> split at h
  · obtain ⟨-, rfl⟩ := Prod.mk.inj (Option.some.inj h)
    exact hreal
  · cases h
  · obtain ⟨-, rfl⟩ := Prod.mk.inj (Option.some.inj h)
    exact hint
  · cases h

theorem scanString?_suffix {scanned : List Char} (h : scanString? input = some (scanned, rest)) :
    rest <:+ input := by
  fun_induction scanString? input generalizing scanned rest with
  | case1 => cases h
  | case2 tail =>
      obtain ⟨-, rfl⟩ := Prod.mk.inj (Option.some.inj h)
      exact List.suffix_cons _ _
  | case3 => cases h
  | case4 => cases h
  | case5 c tail ih =>
      obtain ⟨⟨inner, after⟩, hi, he⟩ := Option.map_eq_some_iff.mp h
      obtain ⟨-, rfl⟩ := Prod.mk.inj he
      exact (ih hi).trans ((List.suffix_cons _ _).trans (List.suffix_cons _ _))
  | case6 c tail _ _ _ _ ih =>
      obtain ⟨⟨inner, after⟩, hi, he⟩ := Option.map_eq_some_iff.mp h
      obtain ⟨-, rfl⟩ := Prod.mk.inj he
      exact (ih hi).trans (List.suffix_cons _ _)

theorem scanSymbol?_suffix {sign : Symbol} (h : scanSymbol? (c :: rest) = some (sign, after)) :
    after <:+ rest := by
  cases rest with
  | nil =>
      obtain ⟨_, _, he⟩ := Option.map_eq_some_iff.mp h
      obtain ⟨-, rfl⟩ := Prod.mk.inj he
      exact List.suffix_refl _
  | cons d rest =>
      rw [scanSymbol?] at h
      split at h
      · obtain ⟨-, rfl⟩ := Prod.mk.inj (Option.some.inj h)
        exact List.suffix_cons _ _
      · obtain ⟨_, _, he⟩ := Option.map_eq_some_iff.mp h
        obtain ⟨-, rfl⟩ := Prod.mk.inj he
        exact List.suffix_refl _

theorem scanToken?_suffix {kind : TokenKind} (h : scanToken? (c :: rest) = some (kind, after)) :
    after <:+ rest := by
  simp only [scanToken?] at h
  split at h
  · rename_i hc
    exact scanNumber?_suffix hc h
  split at h
  · obtain ⟨⟨scanned, left⟩, hs, he⟩ := Option.map_eq_some_iff.mp h
    obtain ⟨-, rfl⟩ := Prod.mk.inj he
    exact scanString?_suffix hs
  split at h
  · rename_i hw
    have hword := scanWord_suffix rest hw
    rwa [Option.some.inj h] at hword
  · obtain ⟨⟨sign, left⟩, hs, he⟩ := Option.map_eq_some_iff.mp h
    obtain ⟨-, rfl⟩ := Prod.mk.inj he
    exact scanSymbol?_suffix hs

end

-- Why no token starts with `c`.
def faultAt (c : Char) : SyntaxFault :=
  if c = '"' then .unterminatedString
  else if c.isDigit then .malformedNumber
  else .unexpectedCharacter c

-- The offset of a rest of a text that is `total` bytes long.
def offsetOf (total : Nat) (rest : List Char) : Nat := total - byteLength rest

-- The tokens of a rest of a text that is `total` bytes long.
def tokensFrom (total : Nat) (input : List Char) : Except SyntaxError (List Token) :=
  match _hs : skipTrivia input with
  | [] => .ok [⟨.eof, ⟨offsetOf total [], offsetOf total []⟩⟩]
  | c :: rest =>
    let start := offsetOf total (c :: rest)
    let faulty := fun fault => Except.error ⟨fault, ⟨start, start + c.utf8Size⟩⟩
    if opensComment (c :: rest) then faulty .unterminatedComment
    else
      match _ht : scanToken? (c :: rest) with
      | none => faulty (faultAt c)
      | some (kind, after) => do
        let tokens ← tokensFrom total after
        .ok (⟨kind, ⟨start, offsetOf total after⟩⟩ :: tokens)
termination_by input.length
decreasing_by
  have hs := (skipTrivia_suffix input).length_le
  have ht := (scanToken?_suffix _ht).length_le
  rw [_hs, List.length_cons] at hs
  omega

end Lexer

-- The tokens of a source. The last one, and no other, marks the end.
def tokenize (source : String) : Except SyntaxError (List Token) :=
  Lexer.tokensFrom (byteLength source.toList) source.toList

end EventScript
