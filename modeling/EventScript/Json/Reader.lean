import EventScript.Json
import EventScript.Rest

namespace EventScript.Json

-- What may stand between the parts of a text.
def isFiller (c : Char) : Bool := c == ' ' || c == '\n' || c == '\t' || c == '\r'

def skipFiller (input : List Char) : List Char := input.dropWhile isFiller

theorem length_skipFiller_le (input : List Char) : (skipFiller input).length ≤ input.length :=
  (List.dropWhile_suffix isFiller).length_le

theorem length_lt_of_skipFiller {input rest : List Char} {c : Char}
    (h : skipFiller input = c :: rest) : rest.length < input.length := by
  have hs := length_skipFiller_le input
  rw [h, List.length_cons] at hs
  omega

-- Strings

-- The value of a digit to base 16, in either case.
def hexValue? (c : Char) : Option Nat :=
  if c.isDigit then some (c.toNat - '0'.toNat)
  else if 'a' ≤ c ∧ c ≤ 'f' then some (c.toNat - 'a'.toNat + 10)
  else if 'A' ≤ c ∧ c ≤ 'F' then some (c.toNat - 'A'.toNat + 10)
  else none

def hexNumber? (digits : List Char) : Option Nat :=
  digits.foldlM (fun n c => (hexValue? c).map (16 * n + ·)) 0

-- The character that a backslash before `c` stands for.
def escaped? (c : Char) : Option Char :=
  if c = '"' ∨ c = '\\' ∨ c = '/' then some c
  else if c = 'b' then some '\x08'
  else if c = 'f' then some '\x0c'
  else if c = 'n' then some '\n'
  else if c = 'r' then some '\r'
  else if c = 't' then some '\t'
  else none

-- The parts of a string up to its closing quote.
def readUnits? : (input : List Char) → Option (List JsonUnit × Rest Char input.length)
  | [] => none
  | '"' :: rest => some ([], ⟨rest, Nat.lt_succ_self _⟩)
  | '\\' :: 'u' :: a :: b :: c :: d :: rest => do
    let code ← hexNumber? [a, b, c, d]
    let (units, after) ← readUnits? rest
    some (.ofCode code :: units, after.weaken (by simp only [List.length_cons]; omega))
  | '\\' :: e :: rest => do
    let c ← escaped? e
    let (units, after) ← readUnits? rest
    some (.char c :: units, after.weaken (by simp only [List.length_cons]; omega))
  | c :: rest => do
    if c.toNat < 0x20 ∨ c = '\\' then none
    let (units, after) ← readUnits? rest
    some (.char c :: units, after.weaken (Nat.le_succ _))

-- The content of a string behind its opening quote.
def readString? (input : List Char) : Option (List JsonUnit × Rest Char input.length) :=
  (readUnits? input).map fun (units, rest) => (JsonUnit.join units, rest)

-- Numbers

-- The digits at the front, of which there must be one.
def digits? (input : List Char) : Option (List Char × List Char) :=
  match input.takeWhile Char.isDigit with
  | [] => none
  | digits => some (digits, input.dropWhile Char.isDigit)

-- The whole part of a number: a zero is not followed by further digits.
def wholePart? (input : List Char) : Option (List Char × List Char) :=
  match input with
  | '0' :: rest => some (['0'], rest)
  | _ => digits? input

-- A point with digits behind it, if there is a point.
def fraction? (input : List Char) : Option (List Char × List Char) :=
  match input with
  | '.' :: rest => (digits? rest).map fun (digits, after) => ('.' :: digits, after)
  | _ => some ([], input)

def sign (input : List Char) : List Char × List Char :=
  match input with
  | '+' :: rest => (['+'], rest)
  | '-' :: rest => (['-'], rest)
  | _ => ([], input)

-- An exponent, if a letter announces one.
def exponent? (input : List Char) : Option (List Char × List Char) :=
  match input with
  | e :: rest =>
    if e = 'e' ∨ e = 'E' then
      (digits? (sign rest).2).map fun (digits, after) => (e :: ((sign rest).1 ++ digits), after)
    else some ([], input)
  | [] => some ([], [])

def number? (input : List Char) : Option (List Char × List Char) := do
  let (minus, start) := match input with
    | '-' :: rest => (['-'], rest)
    | _ => ([], input)
  let (whole, rest) ← wholePart? start
  let (fraction, rest) ← fraction? rest
  let (exponent, rest) ← exponent? rest
  some (minus ++ whole ++ fraction ++ exponent, rest)

theorem digits?_length {input digits rest : List Char} (h : digits? input = some (digits, rest)) :
    rest.length < input.length := by
  unfold digits? at h
  split at h
  · simp at h
  · rename_i hd
    simp only [Option.some.injEq, Prod.mk.injEq] at h
    have hl := congrArg List.length (List.takeWhile_append_dropWhile (p := Char.isDigit) (l := input))
    rw [← h.2]
    have : (input.takeWhile Char.isDigit).length ≠ 0 := fun h0 => hd (List.eq_nil_of_length_eq_zero h0)
    simp only [List.length_append] at hl
    omega

theorem wholePart?_length {input whole rest : List Char}
    (h : wholePart? input = some (whole, rest)) : rest.length < input.length := by
  unfold wholePart? at h
  split at h
  · simp only [Option.some.injEq, Prod.mk.injEq] at h
    simp [h.2]
  · exact digits?_length h

theorem fraction?_length {input fraction rest : List Char}
    (h : fraction? input = some (fraction, rest)) : rest.length ≤ input.length := by
  unfold fraction? at h
  split at h
  · obtain ⟨⟨digits, after⟩, hd, he⟩ := Option.map_eq_some_iff.mp h
    obtain rfl : after = rest := congrArg Prod.snd he
    have := digits?_length hd
    simp only [List.length_cons]
    omega
  · simp only [Option.some.injEq, Prod.mk.injEq] at h
    simp [h.2]

theorem sign_length (input : List Char) : (sign input).2.length ≤ input.length := by
  unfold sign
  split <;> simp

theorem exponent?_length {input exponent rest : List Char}
    (h : exponent? input = some (exponent, rest)) : rest.length ≤ input.length := by
  unfold exponent? at h
  split at h
  · rename_i e behind
    split at h
    · obtain ⟨⟨digits, after⟩, hd, he⟩ := Option.map_eq_some_iff.mp h
      obtain rfl : after = rest := congrArg Prod.snd he
      have := digits?_length hd
      have := sign_length behind
      simp only [List.length_cons]
      omega
    · simp only [Option.some.injEq, Prod.mk.injEq] at h
      simp [h.2]
  · simp only [Option.some.injEq, Prod.mk.injEq] at h
    simp [h.2]

theorem number?_length {input lexeme rest : List Char}
    (h : number? input = some (lexeme, rest)) : rest.length < input.length := by
  simp only [number?, Option.bind_eq_bind, Option.bind_eq_some_iff, Option.some.injEq,
    Prod.mk.injEq] at h
  obtain ⟨⟨whole, r₁⟩, hw, ⟨fraction, r₂⟩, hf, ⟨exponent, r₃⟩, he, -, rfl⟩ := h
  have hw := wholePart?_length hw
  have hf := fraction?_length hf
  have he := exponent?_length he
  dsimp only at hw hf he
  split at hw <;> simp only [List.length_cons] at * <;> omega

-- Values

-- The value that a word stands for.
def words : List (List Char × Json) :=
  [("null".toList, .null), ("true".toList, .bool true), ("false".toList, .bool false)]

def dropWord? (word input : List Char) : Option (List Char) :=
  if word.isPrefixOf input then some (input.drop word.length) else none

def scalar? (input : List Char) : Option (Json × Rest Char input.length) :=
  match words.findSome? fun (word, value) => (dropWord? word input).map (value, ·) with
  | some (value, rest) => if h : rest.length < input.length then some (value, ⟨rest, h⟩) else none
  | none =>
    match h : number? input with
    | some (lexeme, rest) => some (.number (String.ofList lexeme), ⟨rest, number?_length h⟩)
    | none => none

mutual

-- The value at the front, behind fillers.
def readValue? (input : List Char) : Option (Json × Rest Char input.length) :=
  match _h : skipFiller input with
  | [] => none
  | '"' :: rest => do
    let (units, after) ← readString? rest
    some (.string units, after.weaken (Nat.le_of_lt (length_lt_of_skipFiller _h)))
  | '[' :: rest => do
    have := length_lt_of_skipFiller _h
    let (items, after) ← readItems? rest
    some (.array items, after.weaken (by omega))
  | '\x7b' :: rest => do
    have := length_lt_of_skipFiller _h
    let (members, after) ← readMembers? rest
    some (.object members, after.weaken (by omega))
  | c :: rest => do
    let (value, after) ← scalar? (c :: rest)
    some (value, after.weaken (_h ▸ length_skipFiller_le input))
termination_by (input.length, 0)

-- The items of an array behind its opening bracket.
def readItems? (input : List Char) : Option (List Json × Rest Char input.length) :=
  match _h : skipFiller input with
  | ']' :: rest => some ([], ⟨rest, length_lt_of_skipFiller _h⟩)
  | _ => readItem? input
termination_by (input.length, 2)

-- An item of an array, and those behind it.
def readItem? (input : List Char) : Option (List Json × Rest Char input.length) := do
  let (item, ⟨behind, _hb⟩) ← readValue? input
  match _h : skipFiller behind with
  | ']' :: rest => some ([item], ⟨rest, Nat.lt_trans (length_lt_of_skipFiller _h) _hb⟩)
  | ',' :: rest =>
    have := length_lt_of_skipFiller _h
    let (items, after) ← readItem? rest
    some (item :: items, after.weaken (by omega))
  | _ => none
termination_by (input.length, 1)

-- The members of an object behind its opening brace.
def readMembers? (input : List Char) :
    Option (List (List JsonUnit × Json) × Rest Char input.length) :=
  match _h : skipFiller input with
  | '\x7d' :: rest => some ([], ⟨rest, length_lt_of_skipFiller _h⟩)
  | _ => readMember? input
termination_by (input.length, 2)

-- A member of an object, and those behind it.
def readMember? (input : List Char) :
    Option (List (List JsonUnit × Json) × Rest Char input.length) := do
  match _hq : skipFiller input with
  | '"' :: rest =>
    have := length_lt_of_skipFiller _hq
    let (name, ⟨colon, _hn⟩) ← readString? rest
    match _hc : skipFiller colon with
    | ':' :: rest =>
      have := length_lt_of_skipFiller _hc
      let (value, ⟨behind, _hv⟩) ← readValue? rest
      match _h : skipFiller behind with
      | '\x7d' :: rest =>
        have := length_lt_of_skipFiller _h
        some ([(name, value)], ⟨rest, by omega⟩)
      | ',' :: rest =>
        have := length_lt_of_skipFiller _h
        let (members, after) ← readMember? rest
        some ((name, value) :: members, after.weaken (by omega))
      | _ => none
    | _ => none
  | _ => none
termination_by (input.length, 1)

end

def read? (s : String) : Option Json := do
  let (value, rest) ← readValue? s.toList
  if (skipFiller rest.items).isEmpty then some value else none

end EventScript.Json
