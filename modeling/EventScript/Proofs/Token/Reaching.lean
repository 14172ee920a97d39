import EventScript.Proofs.Token.Tiling

namespace EventScript

namespace Lexer

-- Splitting a text that stands at `start` comes to the place `place`, where `rest` is left and a token
-- should begin. In front of it are the tokens, with gaps between them.
inductive Reaches : (start : Nat) → List Char → List Token → (place : Nat) → List Char → Prop
  | here {start place : Nat} {gap rest : List Char} :
      Skipped false gap → skipTrivia rest = rest → place = start + byteLength gap →
      Reaches start (gap ++ rest) [] place rest
  | token {start stop place : Nat} {gap text after rest : List Char} {kind : TokenKind}
      {tokens : List Token} :
      Skipped false gap → Lexeme text kind after → stop = start + byteLength gap + byteLength text →
      Reaches stop after tokens place rest →
      Reaches start (gap ++ text ++ after) (⟨kind, ⟨start + byteLength gap, stop⟩⟩ :: tokens) place
        rest

-- Why no token begins with a text.
inductive Fails : List Char → SyntaxFault → Prop
  | comment {c : Char} {rest : List Char} :
      opensComment (c :: rest) = true → Fails (c :: rest) .unterminatedComment
  | token {c : Char} {rest : List Char} :
      opensComment (c :: rest) = false → scanToken? (c :: rest) = none →
      Fails (c :: rest) (faultAt c)

variable {c : Char} {start place total : Nat} {input rest : List Char} {fault : SyntaxFault}
  {tokens : List Token} {e : SyntaxError}

namespace Reaches

-- What is in front of the place is split into the tokens alone.
theorem tiled (h : Reaches start input tokens place rest) :
    ∃ front, input = front ++ rest ∧ place = start + byteLength front ∧
      Tiled start front (tokens ++ [⟨.eof, ⟨place, place⟩⟩]) := by
  induction h with
  | @here start place gap rest hgap _ hplace =>
      subst hplace
      exact ⟨gap, rfl, rfl, .last hgap.weaken⟩
  | @token start stop place gap text after rest kind tokens hgap hlexeme hstop _ ih =>
      obtain ⟨front, rfl, hplace, htokens⟩ := ih
      refine ⟨gap ++ text ++ front, by simp only [List.append_assoc], ?_,
        .token hgap hlexeme.cut hstop htokens⟩
      simp only [byteLength_append]
      omega

theorem tokensFrom_eq (h : Reaches start input tokens place (c :: rest))
    (hfails : Fails (c :: rest) fault) :
    tokensFrom (start + byteLength input) input =
      .error ⟨fault, ⟨place, place + c.utf8Size⟩⟩ := by
  generalize hleft : c :: rest = left at h
  induction h with
  | @here start place gap left hgap hbare hplace =>
      subst hleft
      have hs : skipTrivia (gap ++ c :: rest) = c :: rest := by
        rw [hgap.skipTrivia_append (by simp), hbare]
      have hfirst : offsetOf (start + byteLength (gap ++ c :: rest)) (c :: rest) = place := by
        rw [offsetOf, byteLength_append, ← Nat.add_assoc, Nat.add_sub_cancel, hplace]
      rw [Lexer.tokensFrom_eq, hs]
      dsimp only
      rw [hfirst]
      cases hfails with
      | comment hopens => rw [if_pos hopens]
      | token hopens hscan => rw [if_neg (by rw [hopens]; decide), hscan]
  | token hgap hlexeme hstop _ ih =>
      rw [tokensFrom_lexeme hgap hlexeme hstop, ih hleft]
      rfl

end Reaches

-- Splitting a text fails where the first token should be, or behind it.
theorem tokensFrom_error_cases (h : tokensFrom total input = .error e) :
    ∃ c rest, skipTrivia input = c :: rest ∧
      ((Fails (c :: rest) e.fault ∧
          e.span = ⟨offsetOf total (c :: rest), offsetOf total (c :: rest) + c.utf8Size⟩) ∨
        ∃ kind after, opensComment (c :: rest) = false ∧
          scanToken? (c :: rest) = some (kind, after) ∧ tokensFrom total after = .error e) := by
  rw [tokensFrom_eq] at h
  split at h
  · cases h
  · rename_i c rest hs
    refine ⟨c, rest, hs, ?_⟩
    dsimp only at h
    split_ifs at h with hopens
    · cases h
      exact .inl ⟨.comment hopens, rfl⟩
    · rw [Bool.not_eq_true] at hopens
      split at h
      · rename_i hscan
        cases h
        exact .inl ⟨.token hopens hscan, rfl⟩
      · rename_i kind after hscan
        cases hafter : tokensFrom total after with
        | error _ =>
            rw [hafter] at h
            cases h
            exact .inr ⟨kind, after, hopens, hscan, hafter⟩
        | ok more =>
            rw [hafter] at h
            cases h

-- The induction is on the length, since a token takes one character at least.
theorem exists_reaches_of_error (h : tokensFrom total input = .error e)
    (hle : byteLength input ≤ total) :
    ∃ tokens c rest, Reaches (offsetOf total input) input tokens e.span.start (c :: rest) ∧
      Fails (c :: rest) e.fault ∧ e.span.stop = e.span.start + c.utf8Size := by
  induction hn : input.length using Nat.strongRecOn generalizing input with
  | ind n ih =>
      obtain ⟨c, rest, hs, ⟨hfails, hspan⟩ | ⟨kind, after, hopens, hscan, hafter⟩⟩ :=
        tokensFrom_error_cases h
      · obtain ⟨gap, hinput, hgap⟩ := exists_skipped input
        rw [hs] at hinput hgap
        have hbare : skipTrivia (gap ++ c :: rest) = skipTrivia (c :: rest) :=
          hgap.skipTrivia_append (by simp)
        rw [← hinput, hs] at hbare
        rw [hinput] at hle
        refine ⟨[], c, rest, ?_, hfails, by rw [hspan]⟩
        rw [hspan, hinput]
        exact .here hgap hbare.symm (offsetOf_append hle)
      · obtain ⟨gap, text, rfl, hgap, hlexeme⟩ := exists_lexeme hs hopens hscan
        have hlt : after.length < n := by
          have hpos := List.length_pos_iff.mpr hlexeme.ne_nil
          simp only [List.length_append] at hn
          omega
        have hstop := offsetOf_append hle
        rw [byteLength_append, ← Nat.add_assoc] at hstop
        rw [byteLength_append] at hle
        obtain ⟨tokens, d, left, hreaches, hfails⟩ := ih _ hlt hafter (by omega) rfl
        exact ⟨_, d, left, .token hgap hlexeme hstop hreaches, hfails⟩

end Lexer

open Lexer

-- A source fails at the first place that is reached and at which no token begins.
theorem tokenize_eq_error_iff {source : String} {e : SyntaxError} :
    tokenize source = .error e ↔
      ∃ tokens c rest, Reaches 0 source.toList tokens e.span.start (c :: rest) ∧
        Fails (c :: rest) e.fault ∧ e.span.stop = e.span.start + c.utf8Size := by
  constructor
  · intro h
    have hreaches := exists_reaches_of_error h (Nat.le_refl _)
    rwa [offsetOf, Nat.sub_self] at hreaches
  · rintro ⟨tokens, c, rest, hreaches, hfails, hstop⟩
    have htokens := hreaches.tokensFrom_eq hfails
    rw [Nat.zero_add, ← hstop] at htokens
    exact htokens

end EventScript
