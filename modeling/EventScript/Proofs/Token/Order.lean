import EventScript.Proofs.Token.Spelling

namespace EventScript

-- The tokens stand one after the other, each with its end behind its start.
structure InOrder (tokens : List Token) : Prop where
  pairwise : tokens.Pairwise fun earlier later => earlier.span.stop ≤ later.span.start
  start_le_stop : ∀ token ∈ tokens, token.span.start ≤ token.span.stop

theorem inOrder_cons {token : Token} {tokens : List Token} :
    InOrder (token :: tokens) ↔ token.span.start ≤ token.span.stop ∧
      (∀ later ∈ tokens, token.span.stop ≤ later.span.start) ∧ InOrder tokens := by
  constructor
  · rintro ⟨hp, hs⟩
    obtain ⟨hfirst, hrest⟩ := List.pairwise_cons.mp hp
    obtain ⟨hle, hles⟩ := List.forall_mem_cons.mp hs
    exact ⟨hle, hfirst, hrest, hles⟩
  · rintro ⟨hle, hfirst, hrest, hles⟩
    exact ⟨List.pairwise_cons.mpr ⟨hfirst, hrest⟩, List.forall_mem_cons.mpr ⟨hle, hles⟩⟩

theorem inOrder_append {tokens others : List Token} :
    InOrder (tokens ++ others) ↔ InOrder tokens ∧ InOrder others ∧
      ∀ earlier ∈ tokens, ∀ later ∈ others, earlier.span.stop ≤ later.span.start := by
  constructor
  · rintro ⟨hp, hs⟩
    obtain ⟨hfirst, hsecond, hacross⟩ := List.pairwise_append.mp hp
    obtain ⟨hles, hles'⟩ := List.forall_mem_append.mp hs
    exact ⟨⟨hfirst, hles⟩, ⟨hsecond, hles'⟩, hacross⟩
  · rintro ⟨⟨hfirst, hles⟩, ⟨hsecond, hles'⟩, hacross⟩
    exact ⟨List.pairwise_append.mpr ⟨hfirst, hsecond, hacross⟩,
      List.forall_mem_append.mpr ⟨hles, hles'⟩⟩

theorem byteLength_le_of_suffix {text rest : List Char} (h : rest <:+ text) :
    byteLength rest ≤ byteLength text := by
  obtain ⟨front, rfl⟩ := h
  rw [byteLength_append]
  omega

namespace Lexer

variable {input rest : List Char} {tokens : List Token} {total : Nat}

-- What is left of a text starts no earlier than the text.
theorem offsetOf_le_of_suffix (total : Nat) (h : rest <:+ input) :
    offsetOf total input ≤ offsetOf total rest := by
  have := byteLength_le_of_suffix h
  unfold offsetOf
  omega

-- What is left of a text starts behind what is in front of it.
theorem offsetOf_append {front : List Char} (h : byteLength (front ++ rest) ≤ total) :
    offsetOf total rest = offsetOf total (front ++ rest) + byteLength front := by
  rw [byteLength_append] at h
  rw [offsetOf, offsetOf, byteLength_append]
  omega

-- By induction on what is left of the text: no token starts before it.
theorem tokensFrom_inOrder (h : tokensFrom total input = .ok tokens) :
    InOrder tokens ∧ ∀ token ∈ tokens, offsetOf total input ≤ token.span.start := by
  induction hn : input.length using Nat.strongRecOn generalizing input tokens with
  | ind n ih =>
      have htrivia := skipTrivia_suffix input
      rcases tokensFrom_cases h with ⟨hs, rfl⟩ | ⟨c, rest, kind, after, more, hs, -, ht, hm, rfl⟩
      · have hend := offsetOf_le_of_suffix total (List.nil_suffix (l := input))
        exact ⟨⟨List.pairwise_singleton _ _, by simp⟩, by simpa using hend⟩
      · rw [hs] at htrivia
        have hscan := scanToken?_suffix ht
        have hafter : after <:+ c :: rest := hscan.trans (List.suffix_cons c rest)
        have hlt : after.length < n := by
          have := hscan.length_le
          have := htrivia.length_le
          rw [List.length_cons] at this
          omega
        obtain ⟨horder, hbounds⟩ := ih _ hlt hm rfl
        have hstart := offsetOf_le_of_suffix total htrivia
        have hstop := offsetOf_le_of_suffix total hafter
        refine ⟨inOrder_cons.mpr ⟨hstop, hbounds, horder⟩, List.forall_mem_cons.mpr ⟨hstart, ?_⟩⟩
        intro token hmem
        have := hbounds token hmem
        omega

end Lexer

theorem tokenize_inOrder {source : String} {tokens : List Token}
    (h : tokenize source = .ok tokens) : InOrder tokens :=
  (Lexer.tokensFrom_inOrder h).1

end EventScript
