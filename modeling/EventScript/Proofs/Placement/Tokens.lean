import EventScript.Proofs.Token.Order

namespace EventScript

-- A place of a source: both ends are byte offsets at which a character starts or the source ends.
structure Span.ValidIn (source : String) (span : Span) : Prop where
  start_le_stop : span.start ≤ span.stop
  stop_le : span.stop ≤ source.utf8ByteSize
  start_valid : (⟨span.start⟩ : String.Pos.Raw).IsValid source
  stop_valid : (⟨span.stop⟩ : String.Pos.Raw).IsValid source

-- A property of places that nothing outside the source lacks and that is not lost in between.
structure Span.Closed (P : Span → Prop) : Prop where
  none : P .none
  hull : ∀ {a b : Span}, P a → P b → P (a.hull b)

theorem Span.closed_validIn (source : String) : Closed (ValidIn source) where
  none := ⟨Nat.le_refl 0, Nat.zero_le _, String.Pos.Raw.isValid_zero, String.Pos.Raw.isValid_zero⟩
  hull {a b} ha hb := by
    have hstart : (min a.start b.start) = a.start ∨ min a.start b.start = b.start := by omega
    have hstop : (max a.stop b.stop) = a.stop ∨ max a.stop b.stop = b.stop := by omega
    refine ⟨?_, Nat.max_le.mpr ⟨ha.stop_le, hb.stop_le⟩, ?_, ?_⟩
    · exact Nat.le_trans (Nat.min_le_left _ _)
        (Nat.le_trans ha.start_le_stop (Nat.le_max_left _ _))
    · show (⟨min a.start b.start⟩ : String.Pos.Raw).IsValid source
      rcases hstart with h | h <;> rw [h]
      · exact ha.start_valid
      · exact hb.start_valid
    · show (⟨max a.stop b.stop⟩ : String.Pos.Raw).IsValid source
      rcases hstop with h | h <;> rw [h]
      · exact ha.stop_valid
      · exact hb.stop_valid

-- Tokens

theorem byteLength_toList (source : String) : byteLength source.toList = source.utf8ByteSize := by
  obtain ⟨cs, rfl⟩ : ∃ cs, source = String.ofList cs := ⟨_, String.ofList_toList.symm⟩
  rw [String.toList_ofList]
  induction cs with
  | nil => rfl
  | cons c cs ih =>
      have hsplit : String.ofList (c :: cs) = String.singleton c ++ String.ofList cs := by
        rw [String.singleton_eq_ofList, ← String.ofList_append]
        rfl
      rw [byteLength_cons, ih, hsplit, String.utf8ByteSize_append, String.utf8ByteSize_singleton]

namespace Lexer

variable {text input rest : List Char}

-- A place that reaches from one rest of a text up to a shorter one.
def Between (text : List Char) (span : Span) : Prop :=
  ∃ early late, early <:+ text ∧ late <:+ early ∧
    span = ⟨offsetOf (byteLength text) early, offsetOf (byteLength text) late⟩

theorem isValid_offsetOf {source : String} (h : rest <:+ source.toList) :
    (⟨offsetOf (byteLength source.toList) rest⟩ : String.Pos.Raw).IsValid source := by
  obtain ⟨front, hfront⟩ := h
  rw [String.Pos.Raw.isValid_iff_exists_append]
  refine ⟨String.ofList front, String.ofList rest, ?_, ?_⟩
  · rw [← String.ofList_append, hfront, String.ofList_toList]
  · have hlength := byteLength_toList (String.ofList front)
    rw [String.toList_ofList] at hlength
    rw [offsetOf, ← hfront, byteLength_append, Nat.add_sub_cancel, hlength]
    rfl

theorem Between.validIn {source : String} {span : Span} (h : Between source.toList span) :
    span.ValidIn source := by
  obtain ⟨early, late, hearly, hlate, rfl⟩ := h
  refine ⟨offsetOf_le_of_suffix _ hlate, ?_, isValid_offsetOf hearly,
    isValid_offsetOf (hlate.trans hearly)⟩
  rw [← byteLength_toList]
  exact Nat.sub_le _ _

theorem offsetOf_cons {c : Char} (h : c :: rest <:+ text) :
    offsetOf (byteLength text) (c :: rest) + c.utf8Size = offsetOf (byteLength text) rest := by
  have hle := byteLength_le_of_suffix h
  rw [byteLength_cons] at hle
  rw [offsetOf, offsetOf, byteLength_cons]
  omega

-- The places of the tokens, or that of the character at which splitting the text fails.
def Splits (text : List Char) : Except SyntaxError (List Token) → Prop
  | .ok tokens => ∀ token ∈ tokens, Between text token.span
  | .error e => Between text e.span

theorem tokensFrom_splits (h : input <:+ text) :
    Splits text (tokensFrom (byteLength text) input) := by
  induction hn : input.length using Nat.strongRecOn generalizing input with
  | ind n ih =>
      have hskip := skipTrivia_suffix input
      rw [tokensFrom_eq]
      cases hs : skipTrivia input with
      | nil =>
          refine List.forall_mem_singleton.mpr ⟨[], [], List.nil_suffix, List.nil_suffix, rfl⟩
      | cons c rest =>
          rw [hs] at hskip
          have hfirst := hskip.trans h
          have hbad (fault : SyntaxFault) : Splits text (.error
              ⟨fault, ⟨offsetOf (byteLength text) (c :: rest),
                offsetOf (byteLength text) (c :: rest) + c.utf8Size⟩⟩) :=
            ⟨c :: rest, rest, hfirst, List.suffix_cons c rest, by rw [offsetOf_cons hfirst]⟩
          dsimp only
          split
          · exact hbad _
          · cases hscan : scanToken? (c :: rest) with
            | none => exact hbad _
            | some found =>
                obtain ⟨kind, after⟩ := found
                have hafter := (scanToken?_suffix hscan).trans (List.suffix_cons c rest)
                have hlt : after.length < n := by
                  have := (scanToken?_suffix hscan).length_le
                  have := hskip.length_le
                  rw [List.length_cons] at this
                  omega
                have hmore := ih _ hlt (hafter.trans hfirst) rfl
                dsimp only
                cases hrest : tokensFrom (byteLength text) after with
                | error e =>
                    rw [hrest] at hmore
                    exact hmore
                | ok more =>
                    rw [hrest] at hmore
                    exact List.forall_mem_cons.mpr ⟨⟨_, _, hfirst, hafter, rfl⟩, hmore⟩

end Lexer

end EventScript
