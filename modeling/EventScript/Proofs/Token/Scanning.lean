import EventScript.Expr.Printer
import EventScript.Token.Lexer
import Mathlib.Tactic.SplitIfs

namespace EventScript.Lexer

variable {α : Type} {c : Char} {input rest text after : List Char}

-- What is to be shown of a few characters is shown of their codes, one by one.
theorem of_code (c : Char) {p : Char → Bool} {value : Bool} {codes : List Nat}
    (hmem : c.toNat ∈ codes) (h : ∀ n ∈ codes, p (Char.ofNat n) = value) : p c = value := by
  have hp := h c.toNat hmem
  rwa [Char.ofNat_toNat] at hp

def blankCodes : List Nat :=
  [0x09, 0x0A, 0x0B, 0x0C, 0x0D, 0x20, 0x85, 0xA0, 0x1680, 0x2000, 0x2001, 0x2002, 0x2003, 0x2004,
    0x2005, 0x2006, 0x2007, 0x2008, 0x2009, 0x200A, 0x2028, 0x2029, 0x202F, 0x205F, 0x3000]

theorem toNat_mem_blankCodes (h : Text.isBlank c = true) : c.toNat ∈ blankCodes := by
  simp only [Text.isBlank, Bool.or_eq_true, beq_iff_eq, Bool.and_eq_true, decide_eq_true_eq] at h
  simp only [blankCodes, List.mem_cons, List.not_mem_nil, or_false]
  omega

def digitCodes : List Nat := [48, 49, 50, 51, 52, 53, 54, 55, 56, 57]

theorem toNat_mem_digitCodes (h : c.isDigit = true) : c.toNat ∈ digitCodes := by
  simp only [Char.isDigit, Bool.and_eq_true, decide_eq_true_eq, ge_iff_le,
    UInt32.le_iff_toNat_le] at h
  have hlow : 48 ≤ c.toNat := h.1
  have hhigh : c.toNat ≤ 57 := h.2
  simp only [digitCodes, List.mem_cons, List.not_mem_nil, or_false]
  omega

-- The kernel goes through the ranges of letters as a list much faster than as an array.
theorem startsWord_eq (c : Char) :
    startsWord c = ((if c.toNat < 0x80 then c.isAlpha
      else Text.alphabeticRanges.toList.any fun range =>
        range.1 ≤ c.toNat && c.toNat ≤ range.2) || c == '_') := by
  rw [startsWord, Text.isLetter, Text.inRanges, Array.any_toList]

theorem not_startsWord_of_isBlank (h : Text.isBlank c = true) : startsWord c = false := by
  have hcodes : ∀ n ∈ blankCodes, startsWord (Char.ofNat n) = false := by
    simp only [startsWord_eq]
    decide +kernel
  exact of_code c (toNat_mem_blankCodes h) hcodes

theorem not_startsWord_of_isDigit (h : c.isDigit = true) : startsWord c = false :=
  of_code c (toNat_mem_digitCodes h) (by decide +kernel)

theorem not_isBlank_of_startsWord (h : startsWord c = true) : Text.isBlank c = false := by
  cases hblank : Text.isBlank c with
  | false => rfl
  | true =>
      rw [not_startsWord_of_isBlank hblank] at h
      cases h

theorem not_isDigit_of_startsWord (h : startsWord c = true) : c.isDigit = false := by
  cases hdigit : c.isDigit with
  | false => rfl
  | true =>
      rw [not_startsWord_of_isDigit hdigit] at h
      cases h

theorem continuesWord_of_isDigit (h : c.isDigit = true) : continuesWord c = true :=
  of_code c (toNat_mem_digitCodes h) (by decide +kernel)

theorem not_isBlank_of_isDigit (h : c.isDigit = true) : Text.isBlank c = false :=
  of_code c (toNat_mem_digitCodes h) (by decide +kernel)

-- What may stand behind a word or a number.
def isBreak (c : Char) : Bool :=
  [' ', '\n', '.', ',', ';', '(', ')', '[', ']', '<', '>', '?'].contains c

theorem not_continuesWord_of_isBreak (h : isBreak c = true) : continuesWord c = false := by
  have hall : [' ', '\n', '.', ',', ';', '(', ')', '[', ']', '<', '>', '?'].all
      (fun d => !continuesWord d) = true := by
    decide +kernel
  simpa using List.all_eq_true.mp hall c (List.contains_iff_mem.mp h)

-- Nothing behind a token is taken for a part of it: no letter or digit, no digits behind a point,
-- and no sign that makes another sign of it or a comment.
structure Breaks (rest : List Char) : Prop where
  isBreak : ∀ c tail, rest = c :: tail → isBreak c = true
  point : ∀ c tail, rest = '.' :: c :: tail → c.isDigit = false

theorem breaks_nil : Breaks [] := ⟨nofun, nofun⟩

theorem breaks_cons (h : isBreak c = true) (hpoint : c ≠ '.') : Breaks (c :: rest) := by
  constructor
  · intro d tail he
    rwa [← (List.cons.inj he).1]
  · intro d tail he
    exact absurd (List.cons.inj he).1 hpoint

namespace Breaks

theorem not_continuesWord (h : Breaks (c :: rest)) : continuesWord c = false :=
  not_continuesWord_of_isBreak (h.isBreak c rest rfl)

theorem not_isDigit (h : Breaks (c :: rest)) : c.isDigit = false := by
  cases hdigit : c.isDigit with
  | false => rfl
  | true =>
      have hword := continuesWord_of_isDigit hdigit
      rw [h.not_continuesWord] at hword
      cases hword

theorem ne (h : Breaks (c :: rest)) {d : Char} (hd : Lexer.isBreak d = false) : c ≠ d := by
  rintro rfl
  rw [h.isBreak c rest rfl] at hd
  cases hd

end Breaks

-- A scanner that takes what satisfies a test stops where it stops without the rest.
theorem takeWhile_append_stop {p : Char → Bool} (h : ∀ c tail, rest = c :: tail → p c = false)
    (text : List Char) : (text ++ rest).takeWhile p = text.takeWhile p := by
  induction text with
  | nil =>
      cases rest with
      | nil => rfl
      | cons c tail => simp [h c tail rfl]
  | cons c text ih =>
      by_cases hc : p c = true
      · simp [hc, ih]
      · simp [hc]

theorem dropWhile_append_stop {p : Char → Bool} (h : ∀ c tail, rest = c :: tail → p c = false)
    (text : List Char) : (text ++ rest).dropWhile p = text.dropWhile p ++ rest := by
  induction text with
  | nil =>
      cases rest with
      | nil => rfl
      | cons c tail => simp [h c tail rfl]
  | cons c text ih =>
      by_cases hc : p c = true
      · simp [hc, ih]
      · simp [hc]

-- A run of what satisfies a test is taken as a whole.
theorem takeWhile_run {p : Char → Bool} (hall : ∀ c ∈ text, p c = true)
    (h : ∀ c tail, rest = c :: tail → p c = false) : (text ++ rest).takeWhile p = text := by
  have hnil : rest.takeWhile p = [] := takeWhile_append_stop h []
  rw [List.takeWhile_append_of_pos hall, hnil, List.append_nil]

theorem dropWhile_run {p : Char → Bool} (hall : ∀ c ∈ text, p c = true)
    (h : ∀ c tail, rest = c :: tail → p c = false) : (text ++ rest).dropWhile p = rest := by
  have hrest : rest.dropWhile p = rest := dropWhile_append_stop h []
  rw [List.dropWhile_append_of_pos hall, hrest]

theorem Breaks.stops_digits (h : Breaks rest) :
    ∀ c tail, rest = c :: tail → c.isDigit = false := by
  rintro c tail rfl
  exact h.not_isDigit

theorem Breaks.stops_word (h : Breaks rest) :
    ∀ c tail, rest = c :: tail → continuesWord c = false := by
  rintro c tail rfl
  exact h.not_continuesWord

-- Numbers

theorem scanFraction_append (h : Breaks rest) (text : List Char) :
    scanFraction (text ++ rest) = ((scanFraction text).1, (scanFraction text).2 ++ rest) := by
  cases text with
  | nil =>
      cases rest with
      | nil => rfl
      | cons c tail =>
          by_cases hpoint : c = '.'
          · subst hpoint
            have hdigits : tail.takeWhile Char.isDigit = [] := by
              cases tail with
              | nil => rfl
              | cons d tail => simp [h.point d tail rfl]
            simp [scanFraction, hdigits]
          · rw [List.nil_append, scanFraction]
            · rfl
            · exact fun tail he => hpoint (List.cons.inj he).1
  | cons c text =>
      by_cases hpoint : c = '.'
      · subst hpoint
        simp only [List.cons_append, scanFraction, takeWhile_append_stop h.stops_digits,
          dropWhile_append_stop h.stops_digits]
        split <;> rfl
      · rw [List.cons_append, scanFraction, scanFraction]
        · rfl
        · exact fun tail he => hpoint (List.cons.inj he).1
        · exact fun tail he => hpoint (List.cons.inj he).1

theorem scanSign_append (h : Breaks rest) (text : List Char) :
    scanSign (text ++ rest) = ((scanSign text).1, (scanSign text).2 ++ rest) := by
  cases text with
  | nil =>
      cases rest with
      | nil => rfl
      | cons c tail =>
          rw [List.nil_append, scanSign]
          · rfl
          · exact fun tail he => h.ne rfl (List.cons.inj he).1
          · exact fun tail he => h.ne rfl (List.cons.inj he).1
  | cons c text =>
      by_cases hminus : c = '-'
      · subst hminus
        rfl
      · by_cases hplus : c = '+'
        · subst hplus
          rfl
        · rw [List.cons_append, scanSign, scanSign]
          · rfl
          · exact fun tail he => hminus (List.cons.inj he).1
          · exact fun tail he => hplus (List.cons.inj he).1
          · exact fun tail he => hminus (List.cons.inj he).1
          · exact fun tail he => hplus (List.cons.inj he).1

theorem scanExponent_append (h : Breaks rest) (text : List Char) :
    scanExponent (text ++ rest) = ((scanExponent text).1, (scanExponent text).2 ++ rest) := by
  cases text with
  | nil =>
      cases rest with
      | nil => rfl
      | cons c tail =>
          have hletter : ¬ (c = 'e' ∨ c = 'E') :=
            not_or.mpr ⟨h.ne (by decide), h.ne (by decide)⟩
          simp only [List.nil_append, scanExponent, if_neg hletter]
  | cons c text =>
      simp only [List.cons_append, scanExponent, scanSign_append h,
        takeWhile_append_stop h.stops_digits, dropWhile_append_stop h.stops_digits]
      split_ifs <;> rfl

theorem scanRealSuffix_append (h : Breaks rest) (text : List Char) :
    scanRealSuffix (text ++ rest) = ((scanRealSuffix text).1, (scanRealSuffix text).2 ++ rest) := by
  cases text with
  | nil =>
      cases rest with
      | nil => rfl
      | cons c tail =>
          have hnone : realSuffix? c = none := by
            simp [realSuffix?, h.ne (by decide : isBreak 'f' = false),
              h.ne (by decide : isBreak 'F' = false), h.ne (by decide : isBreak 'd' = false),
              h.ne (by decide : isBreak 'D' = false), h.ne (by decide : isBreak 'm' = false),
              h.ne (by decide : isBreak 'M' = false)]
          simp only [List.nil_append, scanRealSuffix, hnone]
  | cons c text =>
      simp only [List.cons_append, scanRealSuffix]
      split <;> rfl

theorem endsNumber_of_breaks (h : Breaks rest) : endsNumber rest = true := by
  cases rest with
  | nil => rfl
  | cons c tail => simp [endsNumber, h.not_continuesWord]

theorem endsNumber_append (h : Breaks rest) (text : List Char) :
    endsNumber (text ++ rest) = endsNumber text := by
  cases text with
  | nil => exact endsNumber_of_breaks h
  | cons c text => rfl

theorem scanLetter_append (h : Breaks rest) {lower upper : Char}
    (hlower : isBreak lower = false) (hupper : isBreak upper = false) (text : List Char) :
    scanLetter lower upper (text ++ rest) =
      ((scanLetter lower upper text).1, (scanLetter lower upper text).2 ++ rest) := by
  cases text with
  | nil =>
      cases rest with
      | nil => rfl
      | cons c tail =>
          have hletter : ¬ (c = lower ∨ c = upper) := not_or.mpr ⟨h.ne hlower, h.ne hupper⟩
          simp only [List.nil_append, scanLetter, if_neg hletter]
  | cons c text =>
      simp only [List.cons_append, scanLetter]
      split <;> rfl

theorem scanIntSuffix_append (h : Breaks rest) (text : List Char) :
    scanIntSuffix (text ++ rest) = ((scanIntSuffix text).1, (scanIntSuffix text).2 ++ rest) := by
  have hu := scanLetter_append h (by decide : isBreak 'u' = false) (by decide : isBreak 'U' = false)
  have hl := scanLetter_append h (by decide : isBreak 'l' = false) (by decide : isBreak 'L' = false)
  unfold scanIntSuffix
  rw [hu]
  obtain ⟨unsigned, behind⟩ := scanLetter 'u' 'U' text
  cases unsigned with
  | true =>
      dsimp only
      rw [hl]
      obtain ⟨long, left⟩ := scanLetter 'l' 'L' behind
      cases long <;> rfl
  | false =>
      dsimp only
      rw [hl]
      obtain ⟨long, left⟩ := scanLetter 'l' 'L' behind
      cases long with
      | false => rfl
      | true =>
          dsimp only
          rw [hu]
          obtain ⟨unsigned, last⟩ := scanLetter 'u' 'U' left
          cases unsigned <;> rfl

-- A number is read in front of what may follow it as it is read alone.
theorem scanNumber?_append (hb : Breaks rest) (text : List Char) :
    scanNumber? (text ++ rest) =
      (scanNumber? text).map fun found => (found.1, found.2 ++ rest) := by
  simp only [scanNumber?, takeWhile_append_stop hb.stops_digits,
    dropWhile_append_stop hb.stops_digits, scanFraction_append hb, scanExponent_append hb,
    scanRealSuffix_append hb, scanIntSuffix_append hb, endsNumber_append hb]
  split_ifs <;> rfl

theorem digitsValue_toDigits (value : Nat) : digitsValue (Nat.toDigits 10 value) = value := by
  have hvalue := Nat.ofDigitChars_ten_toDigits (n := value)
  rwa [Nat.ofDigitChars_eq_foldl] at hvalue

-- How the suffix of an integer can be written: letters of either case, in either order.
def suffixSpellings : IntSuffix → List String
  | .none => [""]
  | .long => ["l", "L"]
  | .unsigned => ["u", "U"]
  | .unsignedLong => ["ul", "uL", "Ul", "UL", "lu", "lU", "Lu", "LU"]

theorem text_mem_suffixSpellings (suffix : IntSuffix) : suffix.text ∈ suffixSpellings suffix := by
  cases suffix <;> decide

-- The suffix of an integer is neither a digit, nor a fraction, nor an exponent, nor a suffix of a real
-- number.
theorem scan_suffixSpelling {suffix : IntSuffix} {spelled : String}
    (hs : spelled ∈ suffixSpellings suffix) :
    scanIntSuffix spelled.toList = (suffix, []) ∧
      scanFraction spelled.toList = ([], spelled.toList) ∧
      scanExponent spelled.toList = (none, spelled.toList) ∧
      scanRealSuffix spelled.toList = (none, spelled.toList) ∧
      spelled.toList.head?.all (fun c => !c.isDigit) = true := by
  revert spelled
  cases suffix <;> decide +kernel

-- Digits and a suffix are one integer, unless the value is too large.
theorem scanNumber?_integer {digits : List Char} {suffix : IntSuffix} {spelled : String}
    (hdigits : ∀ c ∈ digits, c.isDigit = true) (hs : spelled ∈ suffixSpellings suffix)
    (h : Breaks rest) :
    scanNumber? (digits ++ (spelled.toList ++ rest)) =
      if digitsValue digits < Nat.pow 2 64 then some (.int (digitsValue digits) suffix, rest)
      else none := by
  obtain ⟨hint, hfraction, hexponent, hreal, hfirst⟩ := scan_suffixSpelling hs
  have hstop : ∀ c tail, spelled.toList ++ rest = c :: tail → c.isDigit = false := by
    intro c tail he
    cases hspelled : spelled.toList with
    | nil =>
        rw [hspelled, List.nil_append] at he
        exact h.stops_digits c tail he
    | cons d more =>
        rw [hspelled] at he hfirst
        obtain rfl := (List.cons.inj he).1
        simpa using hfirst
  simp only [scanNumber?, takeWhile_run hdigits hstop, dropWhile_run hdigits hstop,
    scanFraction_append h, hfraction, scanExponent_append h, hexponent, scanRealSuffix_append h,
    hreal, scanIntSuffix_append h, hint, List.nil_append, endsNumber_of_breaks h]
  simp

theorem scanNumber?_int {value : Nat} (hlt : value < Nat.pow 2 64) (suffix : IntSuffix)
    (h : Breaks rest) :
    scanNumber? (Nat.toDigits 10 value ++ (suffix.text.toList ++ rest)) =
      some (.int value suffix, rest) := by
  have hdigits : ∀ c ∈ Nat.toDigits 10 value, c.isDigit = true :=
    fun c hc => Nat.isDigit_of_mem_toDigits (by decide) (by decide) hc
  rw [scanNumber?_integer hdigits (text_mem_suffixSpellings suffix) h, digitsValue_toDigits,
    if_pos hlt]

-- Strings

-- The two clauses for a backslash leave the last one to the characters that stand for themselves.
theorem ne_backslash (hlast : c = '\\' → text = [] → False)
    (hescape : ∀ d tail, c = '\\' → text = d :: tail → False) : c ≠ '\\' := by
  intro hc
  cases text with
  | nil => exact hlast hc rfl
  | cons d tail => exact hescape d tail hc rfl

theorem scanString?_plain (hquote : c ≠ '"') (hslash : c ≠ '\\') (hline : c ≠ '\n') :
    scanString? (c :: rest) =
      (scanString? rest).map fun (text, after) => (c :: text, after) := by
  rw [scanString?]
  · exact hquote
  · exact hline
  · exact fun hc => absurd hc hslash
  · exact fun _ _ hc => absurd hc hslash

theorem scanString?_quoteChar (h : Text.quoteChar c ≠ Text.codePointEscape c) :
    scanString? (Text.quoteChar c ++ rest) =
      (scanString? rest).map fun (text, after) => (c :: text, after) := by
  unfold Text.quoteChar at h ⊢
  split_ifs at h ⊢ with hquote hslash hline htab hreturn hzero hprintable
  · subst hquote
    rfl
  · subst hslash
    rfl
  · subst hline
    rfl
  · subst htab
    rfl
  · subst hreturn
    rfl
  · have hnul : c = Char.ofNat 0 := by rw [← hzero, Char.ofNat_toNat]
    subst hnul
    rfl
  · rw [List.singleton_append, scanString?_plain hquote hslash hline]
  · exact absurd rfl h

theorem scanString?_quoted (h : ∀ c ∈ text, Text.quoteChar c ≠ Text.codePointEscape c) :
    scanString? (text.flatMap Text.quoteChar ++ '"' :: rest) = some (text, rest) := by
  induction text with
  | nil => rfl
  | cons c text ih =>
      have hc := h c List.mem_cons_self
      have htext := ih fun d hd => h d (List.mem_cons_of_mem c hd)
      rw [List.flatMap_cons, List.append_assoc, scanString?_quoteChar hc, htext]
      rfl

theorem scanString?_append {scanned : List Char} (h : scanString? text = some (scanned, after))
    (rest : List Char) : scanString? (text ++ rest) = some (scanned, after ++ rest) := by
  fun_induction scanString? text generalizing scanned after with
  | case1 => cases h
  | case2 tail =>
      cases h
      rfl
  | case3 => cases h
  | case4 => cases h
  | case5 c tail ih =>
      obtain ⟨_, hscan, he⟩ := Option.map_eq_some_iff.mp h
      cases he
      rw [List.cons_append, List.cons_append, scanString?, ih hscan]
      rfl
  | case6 c tail hquote hline hlast hescape ih =>
      obtain ⟨_, hscan, he⟩ := Option.map_eq_some_iff.mp h
      cases he
      have hslash := ne_backslash hlast hescape
      rw [List.cons_append, scanString?_plain hquote hslash hline, ih hscan]
      rfl

-- Signs

def AfterSign (rest : List Char) : Prop :=
  ∀ c tail, rest = c :: tail → c ≠ '=' ∧ c ≠ '/' ∧ c ≠ '*'

theorem Breaks.afterSign (h : Breaks rest) : AfterSign rest := by
  rintro c tail rfl
  exact ⟨h.ne (by decide), h.ne (by decide), h.ne (by decide)⟩

theorem afterSign_cons (hequal : c ≠ '=') (hslash : c ≠ '/') (hstar : c ≠ '*') :
    AfterSign (c :: rest) := by
  intro d tail he
  obtain rfl := (List.cons.inj he).1
  exact ⟨hequal, hslash, hstar⟩

theorem scanSymbol?_single {sign : Symbol} (hsingle : singleSymbol? c = some sign)
    (h : AfterSign rest) : scanSymbol? (c :: rest) = some (sign, rest) := by
  cases rest with
  | nil => simp [scanSymbol?, hsingle]
  | cons d tail =>
      have hequal := (h d tail rfl).1
      have hpair : pairSymbol? c d = none := by
        unfold pairSymbol?
        split <;> first | rfl | contradiction
      simp [scanSymbol?, hpair, hsingle]

theorem scanSymbol?_append {sign : Symbol} (hb : Breaks rest)
    (h : scanSymbol? text = some (sign, after)) :
    scanSymbol? (text ++ rest) = some (sign, after ++ rest) := by
  cases text with
  | nil => cases h
  | cons c text =>
      cases text with
      | nil =>
          obtain ⟨_, hsingle, he⟩ := Option.map_eq_some_iff.mp h
          cases he
          exact scanSymbol?_single hsingle hb.afterSign
      | cons d tail =>
          rw [List.cons_append, List.cons_append]
          rw [scanSymbol?] at h ⊢
          cases hpair : pairSymbol? c d with
          | some pair =>
              rw [hpair] at h
              cases h
              rfl
          | none =>
              rw [hpair] at h
              obtain ⟨_, hsingle, he⟩ := Option.map_eq_some_iff.mp h
              cases he
              rw [hsingle]
              rfl

theorem scanSymbol?_text (sign : Symbol) (h : AfterSign rest) :
    scanSymbol? (sign.text.toList ++ rest) = some (sign, rest) := by
  cases sign with
  | eqEq | notEq | ltEq | gtEq | andAnd | orOr => rfl
  | _ => exact scanSymbol?_single rfl h

-- Words

theorem continuesWord_of_startsWord (h : startsWord c = true) : continuesWord c = true := by
  simp only [startsWord, continuesWord, Bool.or_eq_true] at h ⊢
  exact h.imp_left Text.isLetterOrNumber_of_isLetter

def IsWord : List Char → Prop
  | [] => False
  | c :: text => startsWord c = true ∧ ∀ d ∈ text, continuesWord d = true

theorem IsWord.continuesWord (h : IsWord text) : ∀ c ∈ text, continuesWord c = true := by
  cases text with
  | nil => exact h.elim
  | cons c text =>
      intro d hd
      rcases List.mem_cons.mp hd with rfl | hd
      · exact continuesWord_of_startsWord h.1
      · exact h.2 d hd

theorem scanWord_run (h : IsWord text)
    (hstop : ∀ c tail, rest = c :: tail → Lexer.continuesWord c = false) :
    scanWord (text ++ rest) = (wordKind (String.ofList text), rest) := by
  rw [scanWord, takeWhile_run h.continuesWord hstop, dropWhile_run h.continuesWord hstop]

theorem scanWord_append (hb : Breaks rest) (text : List Char) :
    scanWord (text ++ rest) = ((scanWord text).1, (scanWord text).2 ++ rest) := by
  simp only [scanWord, takeWhile_append_stop hb.stops_word, dropWhile_append_stop hb.stops_word]

-- Tokens

theorem scanToken?_word (h : IsWord text)
    (hstop : ∀ c tail, rest = c :: tail → continuesWord c = false) :
    scanToken? (text ++ rest) = some (wordKind (String.ofList text), rest) := by
  have hscan := scanWord_run h hstop
  cases text with
  | nil => exact h.elim
  | cons c text =>
      have hdigit := not_isDigit_of_startsWord h.1
      have hquote : c ≠ '"' := by
        rintro rfl
        exact absurd h.1 (by decide)
      rw [List.cons_append] at hscan ⊢
      simp [scanToken?, hdigit, hquote, h.1, hscan]

theorem scanToken?_string (h : ∀ c ∈ text, Text.quoteChar c ≠ Text.codePointEscape c) :
    scanToken? ('"' :: (text.flatMap Text.quoteChar ++ '"' :: rest)) =
      some (.str (String.ofList text), rest) := by
  have hdigit : '"'.isDigit = false := rfl
  simp [scanToken?, hdigit, scanString?_quoted h]

theorem scanToken?_sign (sign : Symbol) (h : AfterSign rest) :
    scanToken? (sign.text.toList ++ rest) = some (.symbol sign, rest) := by
  have hscan := scanSymbol?_text sign h
  have hfirst : ∃ c text, sign.text.toList = c :: text ∧ c.isDigit = false ∧ c ≠ '"' ∧
      startsWord c = false := by
    cases sign <;> exact ⟨_, _, rfl, by decide, by decide, by decide⟩
  obtain ⟨c, text, htext, hdigit, hquote, hword⟩ := hfirst
  rw [htext, List.cons_append] at hscan ⊢
  simp [scanToken?, hdigit, hquote, hword, hscan]

theorem scanToken?_int {value : Nat} (hlt : value < Nat.pow 2 64) (suffix : IntSuffix)
    (h : Breaks rest) :
    scanToken? (Nat.toDigits 10 value ++ (suffix.text.toList ++ rest)) =
      some (.int value suffix, rest) := by
  have hscan := scanNumber?_int hlt suffix h
  cases hdigits : Nat.toDigits 10 value with
  | nil => exact absurd hdigits Nat.toDigits_ne_nil
  | cons c text =>
      have hdigit : c.isDigit = true :=
        Nat.isDigit_of_mem_toDigits (by decide) (by decide) (hdigits ▸ List.mem_cons_self)
      rw [hdigits, List.cons_append] at hscan
      rw [List.cons_append]
      simp only [scanToken?, hdigit, ↓reduceIte, hscan]

-- A token is read in front of what may follow it as it is read alone.
theorem scanToken?_append {kind : TokenKind} (hb : Breaks rest)
    (h : scanToken? text = some (kind, after)) :
    scanToken? (text ++ rest) = some (kind, after ++ rest) := by
  cases text with
  | nil => cases h
  | cons c text =>
      simp only [scanToken?] at h
      rw [List.cons_append]
      simp only [scanToken?]
      split_ifs at h ⊢
      · rw [← List.cons_append, scanNumber?_append hb, h]
        rfl
      · obtain ⟨_, hscan, he⟩ := Option.map_eq_some_iff.mp h
        cases he
        rw [scanString?_append hscan]
        rfl
      · rw [← List.cons_append, scanWord_append hb, Option.some.inj h]
      · obtain ⟨_, hscan, he⟩ := Option.map_eq_some_iff.mp h
        cases he
        rw [← List.cons_append, scanSymbol?_append hb hscan]
        rfl

theorem scanToken?_ne_eof {kind : TokenKind} (h : scanToken? input = some (kind, rest)) :
    kind ≠ .eof := by
  rintro rfl
  cases input with
  | nil => cases h
  | cons c input =>
      simp only [scanToken?] at h
      split_ifs at h
      · simp only [scanNumber?] at h
        split_ifs at h <;> cases h
      · obtain ⟨_, _, he⟩ := Option.map_eq_some_iff.mp h
        cases he
      · simp only [scanWord, wordKind] at h
        split at h <;> cases h
      · obtain ⟨_, _, he⟩ := Option.map_eq_some_iff.mp h
        cases he

end EventScript.Lexer
