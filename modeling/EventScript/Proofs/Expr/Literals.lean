import EventScript.Proofs.Expr.Concrete
import EventScript.Proofs.Token.Spelling

namespace EventScript

open Lexer

-- Literals

-- The written form of a real number is read as that number, and a text is written without escapes
-- by code point, which the lexer does not know.
def Literal.LexesBack : Literal → Prop
  | real value suffix =>
    (tokenize (real value suffix).render).map kinds = .ok [.real value suffix, .eof]
  | str text => ∀ c ∈ text.toList, Text.quoteChar c ≠ Text.codePointEscape c
  | _ => True

def isNumeral (c : Char) : Bool :=
  c.isDigit || ['.', '-', 'e', 'i', 'n', 'f', 'd', 'm'].contains c

theorem isNumeral_of_isDigit {c : Char} (h : c.isDigit = true) : isNumeral c = true := by
  simp [isNumeral, h]

theorem plain_of_isNumeral {c : Char} (h : isNumeral c = true) :
    Text.isBlank c = false ∧ c ≠ '=' ∧ c ≠ '/' ∧ c ≠ '*' := by
  rcases Bool.or_eq_true_iff.mp h with hdigit | hother
  · refine ⟨not_isBlank_of_isDigit hdigit, ?_, ?_, ?_⟩ <;>
      · rintro rfl
        cases hdigit
  · have hall : ['.', '-', 'e', 'i', 'n', 'f', 'd', 'm'].all
        (fun d => Text.isBlank d = false ∧ d ≠ '=' ∧ d ≠ '/' ∧ d ≠ '*') = true := by
      decide
    exact of_decide_eq_true (List.all_eq_true.mp hall c (List.contains_iff_mem.mp hother))

def Numerals (text : List Char) : Prop := ∀ c ∈ text, isNumeral c = true

instance (text : List Char) : Decidable (Numerals text) :=
  List.decidableBAll (fun c => isNumeral c = true) text

@[simp] theorem numerals_append {text more : List Char} :
    Numerals (text ++ more) ↔ Numerals text ∧ Numerals more := List.forall_mem_append

theorem numerals_toDigits (n : Nat) : Numerals (Nat.toDigits 10 n) :=
  fun _ hc => isNumeral_of_isDigit (Nat.isDigit_of_mem_toDigits (by decide) (by decide) hc)

theorem numerals_toString (n : Int) : Numerals (toString n).toList := by
  cases n with
  | ofNat n =>
      show Numerals (Nat.repr n).toList
      rw [Nat.toList_repr]
      exact numerals_toDigits n
  | negSucc n =>
      show Numerals ("-" ++ Nat.repr (n + 1)).toList
      rw [String.toList_append, Nat.toList_repr, numerals_append]
      exact ⟨by decide, numerals_toDigits _⟩

namespace Binary64

theorem numerals_digits (d : Decimal) : Numerals d.digits := by
  intro c hc
  rw [Decimal.digits, List.mem_reverse] at hc
  have hmem := (List.dropWhile_suffix _).subset hc
  exact numerals_toDigits _ c (List.mem_reverse.mp hmem)

theorem numerals_positional {digits : List Char} (h : Numerals digits) (leading : Int) :
    Numerals (positional digits leading).toList := by
  cases leading with
  | ofNat n =>
      simp only [positional, String.toList_ofList, numerals_append]
      refine ⟨⟨⟨fun c hc => h c (List.mem_of_mem_take hc), ?_⟩, by decide⟩, ?_⟩
      · intro c hc
        rw [(List.mem_replicate.mp hc).2]
        rfl
      · split
        · decide
        · exact fun c hc => h c (List.mem_of_mem_drop hc)
  | negSucc n =>
      simp only [positional, String.toList_ofList, numerals_append]
      refine ⟨⟨by decide, ?_⟩, h⟩
      intro c hc
      rw [(List.mem_replicate.mp hc).2]
      rfl

theorem numerals_scientific {digits : List Char} (h : Numerals digits) (leading : Int) :
    Numerals (scientific digits leading).toList := by
  simp only [scientific, String.toList_append, String.toList_ofList, numerals_append]
  refine ⟨⟨⟨fun c hc => h c (List.mem_of_mem_take hc), ?_⟩, by decide⟩, numerals_toString leading⟩
  split
  · exact nofun
  · intro c hc
    rcases List.mem_cons.mp hc with rfl | hc
    · rfl
    · exact h c (List.mem_of_mem_drop hc)

theorem numerals_render (value : Binary64) : Numerals value.render.toList := by
  unfold render
  split
  · decide
  · dsimp only
    split
    · decide
    · split
      · exact numerals_positional (numerals_digits _) _
      · exact numerals_scientific (numerals_digits _) _

end Binary64

theorem Literal.numerals_render (value : Binary64) (suffix : RealSuffix) :
    Numerals (real value suffix).render.toList := by
  have hsuffix : Numerals suffix.text.toList := by cases suffix <;> decide
  rw [render, String.toList_append, numerals_append]
  exact ⟨value.numerals_render, hsuffix⟩

namespace Lexer

theorem skipTrivia_numerals {text : List Char} (h : Numerals text) : skipTrivia text = text := by
  cases text with
  | nil => rw [skipTrivia]
  | cons c text =>
      obtain ⟨hblank, -, hslash, -⟩ := plain_of_isNumeral (h c List.mem_cons_self)
      exact skipTrivia_stay hblank fun hc => absurd hc hslash

theorem tokensFrom_ne_nil {total : Nat} {input : List Char} : tokensFrom total input ≠ .ok [] := by
  intro h
  rcases tokensFrom_cases h with ⟨-, he⟩ | ⟨_, _, _, _, _, -, -, -, -, he⟩
  · cases he
  · cases he

theorem skipTrivia_eq_nil {total : Nat} {input : List Char} {tokens : List Token}
    (h : tokensFrom total input = .ok tokens) (hkinds : kinds tokens = [.eof]) :
    skipTrivia input = [] := by
  rcases tokensFrom_cases h with ⟨hs, -⟩ | ⟨_, _, _, _, more, -, -, -, hafter, rfl⟩
  · exact hs
  · cases more with
    | nil => exact absurd hafter tokensFrom_ne_nil
    | cons _ _ => cases hkinds

-- A numeral that is read as one token is that token as a whole.
theorem scanToken?_of_tokenize {text : String} {kind : TokenKind} (hnumerals : Numerals text.toList)
    (h : (tokenize text).map kinds = .ok [kind, .eof]) :
    scanToken? text.toList = some (kind, []) := by
  cases htokens : tokenize text with
  | error e =>
      rw [htokens] at h
      cases h
  | ok tokens =>
      rw [htokens] at h
      have hkinds : kinds tokens = [kind, .eof] := Except.ok.inj h
      rcases tokensFrom_cases htokens with
        ⟨-, rfl⟩ | ⟨c, rest, found, after, more, hs, -, hscan, hafter, rfl⟩
      · cases hkinds
      · obtain ⟨rfl, hmore⟩ := List.cons.inj hkinds
        rw [skipTrivia_numerals hnumerals] at hs
        rw [hs] at hnumerals ⊢
        have hsuffix : Numerals after :=
          fun d hd => hnumerals d (List.mem_cons_of_mem c ((scanToken?_suffix hscan).subset hd))
        have hnil := skipTrivia_eq_nil hafter hmore
        rw [skipTrivia_numerals hsuffix] at hnil
        rw [hscan, hnil]

theorem spells_literal {value : Literal} (hspelled : WellSpelled value.kind)
    (h : value.LexesBack) : Spells value.render.toList [value.kind] := by
  cases value with
  | int value suffix =>
      have htext : (Literal.int value suffix).render.toList =
          Nat.toDigits 10 value ++ suffix.text.toList := by
        rw [Literal.render, String.toList_append]
        exact congrArg (· ++ suffix.text.toList) Nat.toList_repr
      have hnumerals := numerals_toDigits value
      rw [htext]
      have hscan : ∀ rest, Breaks rest → scanToken? (Nat.toDigits 10 value ++
          suffix.text.toList ++ rest) = some (.int value suffix, rest) := by
        intro rest hb
        rw [List.append_assoc]
        exact scanToken?_int hspelled suffix hb
      cases hdigits : Nat.toDigits 10 value with
      | nil => exact absurd hdigits Nat.toDigits_ne_nil
      | cons c digits =>
          rw [hdigits] at hscan hnumerals
          obtain ⟨hblank, hopens⟩ := plain_of_isNumeral (hnumerals c List.mem_cons_self)
          exact .of_scan hblank hopens hscan
  | real value suffix =>
      have hnumerals := Literal.numerals_render value suffix
      have hscan := scanToken?_of_tokenize hnumerals h
      cases htext : (Literal.real value suffix).render.toList with
      | nil =>
          rw [htext] at hscan
          cases hscan
      | cons c text =>
          rw [htext] at hscan hnumerals
          obtain ⟨hblank, hopens⟩ := plain_of_isNumeral (hnumerals c List.mem_cons_self)
          exact .of_scan hblank hopens fun rest hb => scanToken?_append hb hscan
  | str text =>
      have htext : (Literal.str text).render.toList =
          '"' :: (text.toList.flatMap Text.quoteChar ++ ['"']) := by
        simp [Literal.render, Text.quote]
      rw [htext]
      refine .of_scan (by decide) (by decide) fun rest _ => ?_
      have hscan : scanToken? ('"' :: (text.toList.flatMap Text.quoteChar ++ '"' :: rest)) =
          some (.str (String.ofList text.toList), rest) := scanToken?_string h
      simpa [Literal.kind] using hscan
  | bool value =>
      cases value with
      | true => exact spells_keyword .trueWord
      | false => exact spells_keyword .falseWord
  | null => exact spells_keyword .nullWord

end Lexer

end EventScript
