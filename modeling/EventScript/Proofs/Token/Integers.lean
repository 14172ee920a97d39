import EventScript.Binding.Binder
import EventScript.Proofs.Token.Reaching
import Mathlib.Data.Nat.Digits.Defs

namespace EventScript

open Lexer

-- What integers stand for

-- The sum of the digits, each times the power of ten of its place.
def decimalValue (digits : List Char) : Nat :=
  Nat.ofDigits 10 (digits.reverse.map fun c => c.toNat - '0'.toNat)

theorem digitsValue_eq_decimalValue (digits : List Char) :
    digitsValue digits = decimalValue digits := by
  rw [decimalValue, Nat.ofDigits_eq_foldr, List.foldr_map, List.foldr_reverse, digitsValue]
  congr 1
  funext value c
  exact Nat.add_comm _ _

-- The largest value of an integral kind.
def NumericKind.largest? : NumericKind → Option Nat
  | .sbyte => some 127
  | .byte => some 255
  | .int16 => some 32767
  | .uint16 | .char => some 65535
  | .int32 => some 2147483647
  | .uint32 => some 4294967295
  | .int64 => some 9223372036854775807
  | .uint64 => some 18446744073709551615
  | .single | .double | .decimal => none

def NumericKind.holds (kind : NumericKind) (value : Nat) : Bool :=
  kind.largest?.any fun largest => value ≤ largest

-- The kinds that an integer with the suffix can be of, the first choice in front.
def IntSuffix.candidates : IntSuffix → List NumericKind
  | .none => [.int32, .uint32, .int64, .uint64]
  | .unsigned => [.uint32, .uint64]
  | .long => [.int64, .uint64]
  | .unsignedLong => [.uint64]

theorem find?_holds_cons (value : Nat) (kind : NumericKind) (kinds : List NumericKind) :
    (kind :: kinds).find? (·.holds value) =
      if kind.holds value then some kind else kinds.find? (·.holds value) := by
  rw [List.find?_cons]
  cases kind.holds value <;> rfl

theorem find?_candidates {value : Nat} (hlt : value < Nat.pow 2 64) (suffix : IntSuffix) :
    suffix.candidates.find? (·.holds value) = some (Binding.integerKind value suffix) := by
  have hint32 : NumericKind.int32.holds value = true ↔ value < Nat.pow 2 31 :=
    decide_eq_true_iff.trans Nat.lt_succ_iff.symm
  have huint32 : NumericKind.uint32.holds value = true ↔ value < Nat.pow 2 32 :=
    decide_eq_true_iff.trans Nat.lt_succ_iff.symm
  have hint64 : NumericKind.int64.holds value = true ↔ value < Nat.pow 2 63 :=
    decide_eq_true_iff.trans Nat.lt_succ_iff.symm
  have huint64 : NumericKind.uint64.holds value = true := decide_eq_true (Nat.le_of_lt_succ hlt)
  cases suffix <;>
    simp only [IntSuffix.candidates, Binding.integerKind, find?_holds_cons, hint32, huint32, hint64,
      huint64, ↓reduceIte, apply_ite some]

-- How integers are read

section

variable {c : Char} {digits : List Char} {suffix : IntSuffix} {spelled : String}

theorem utf8Size_of_isDigit (h : c.isDigit = true) : c.utf8Size = 1 := by
  have hsize : (c.utf8Size == 1) = true :=
    of_code c (p := fun c => c.utf8Size == 1) (toNat_mem_digitCodes h) (by decide)
  exact beq_iff_eq.mp hsize

theorem scanToken?_integer (hne : digits ≠ []) (hdigits : ∀ c ∈ digits, c.isDigit = true)
    (hs : spelled ∈ suffixSpellings suffix) :
    scanToken? (digits ++ spelled.toList) =
      if decimalValue digits < Nat.pow 2 64 then some (.int (decimalValue digits) suffix, [])
      else none := by
  have hscan := scanNumber?_integer hdigits hs breaks_nil
  rw [List.append_nil, digitsValue_eq_decimalValue] at hscan
  cases digits with
  | nil => exact absurd rfl hne
  | cons c digits =>
      rw [← hscan, List.cons_append, scanToken?, if_pos (hdigits c List.mem_cons_self)]

-- An integer that fits into 64 bits is one token, which keeps the value and the suffix, and its kind
-- is the first of the suffix that holds the value. A larger one is malformed, from its first digit.
theorem tokenize_integer (hne : digits ≠ []) (hdigits : ∀ c ∈ digits, c.isDigit = true)
    (hs : spelled ∈ suffixSpellings suffix) :
    let source := String.ofList digits ++ spelled
    let value := decimalValue digits
    (value < Nat.pow 2 64 →
      tokenize source =
        .ok [⟨.int value suffix, ⟨0, byteLength source.toList⟩⟩, endMark 0 source.toList] ∧
      suffix.candidates.find? (·.holds value) = some (Binding.integerKind value suffix)) ∧
    (Nat.pow 2 64 ≤ value → tokenize source = .error ⟨.malformedNumber, ⟨0, 1⟩⟩) := by
  intro source value
  have hsource : source.toList = digits ++ spelled.toList := by
    rw [String.toList_append, String.toList_ofList]
  have hscan := scanToken?_integer hne hdigits hs
  obtain ⟨c, rest, rfl⟩ := List.exists_cons_of_ne_nil hne
  have hdigit : c.isDigit = true := hdigits c List.mem_cons_self
  have hbare : Bare (c :: rest ++ spelled.toList) := by
    refine bare_cons (not_isBlank_of_isDigit hdigit) ?_
    rintro rfl
    exact absurd hdigit (by decide)
  refine ⟨fun hlt => ⟨tokenize_lexeme ?_, find?_candidates hlt suffix⟩, fun hle => ?_⟩
  · rw [if_pos hlt] at hscan
    rw [hsource]
    exact ⟨List.cons_ne_nil _ _, by rwa [List.append_nil], by rwa [List.append_nil]⟩
  · rw [if_neg (Nat.not_lt.mpr hle)] at hscan
    have hfault : faultAt c = .malformedNumber := by
      have hquote : c ≠ '"' := by
        rintro rfl
        exact absurd hdigit (by decide)
      rw [faultAt, if_neg hquote, if_pos hdigit]
    have hfails := Fails.token hbare.opensComment_eq hscan
    rw [hfault] at hfails
    refine tokenize_eq_error_iff.mpr ⟨[], c, rest ++ spelled.toList, ?_, hfails, ?_⟩
    · rw [hsource]
      exact .here .nil hbare.skipTrivia_eq rfl
    · rw [utf8Size_of_isDigit hdigit]

-- The largest value that fits, behind zeros, and the one after it.
theorem tokenize_integer_widest :
    tokenize "0018446744073709551615Lu" =
        .ok [⟨.int 18446744073709551615 .unsignedLong, ⟨0, 24⟩⟩, ⟨.eof, ⟨24, 24⟩⟩] ∧
      Binding.integerKind 18446744073709551615 .unsignedLong = .uint64 ∧
      tokenize "18446744073709551616" = .error ⟨.malformedNumber, ⟨0, 1⟩⟩ := by
  have hfits : decimalValue "0018446744073709551615".toList = 18446744073709551615 := by
    decide +kernel
  have hlarge : decimalValue "18446744073709551616".toList = Nat.pow 2 64 := by decide +kernel
  obtain ⟨htoken, hkind⟩ := (@tokenize_integer "0018446744073709551615".toList .unsignedLong "Lu"
    (by decide) (List.all_eq_true.mp (by decide +kernel)) (by decide)).1 (by rw [hfits]; decide)
  have hmalformed := (@tokenize_integer "18446744073709551616".toList .none ""
    (by decide) (List.all_eq_true.mp (by decide +kernel)) (by decide)).2 (Nat.le_of_eq hlarge.symm)
  rw [hfits] at htoken hkind
  exact ⟨htoken, (Option.some.inj hkind).symm, hmalformed⟩

end

end EventScript
