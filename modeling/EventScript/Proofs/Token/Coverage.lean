import EventScript.Proofs.Token.Reaching

namespace EventScript

open Lexer

-- What a source is made of: gaps and, one behind the other, the texts of its tokens.
structure CoveredBy (source : String) (tokens : List Token) : Prop where
  inOrder : InOrder tokens
  ends : ∃ front, tokens = front ++ [endMark 0 source.toList] ∧
    ∀ token ∈ front, token.kind ≠ .eof ∧ token.span.start < token.span.stop
  gaps : ∀ before token behind, tokens = before ++ token :: behind →
    ∃ gap, (Span.mk (endOf 0 before) token.span.start).slice? source = some gap ∧
      Skipped behind.isEmpty gap.toList
  alone : ∀ token ∈ tokens, ∃ text, token.span.slice? source = some text ∧
    (tokenize text).map kinds = .ok (if token.kind = .eof then [.eof] else [token.kind, .eof])
  joined : ∃ texts, tokens.mapM (·.span.slice? source) = some texts ∧
    (tokenize (" ".intercalate texts)).map kinds = .ok (kinds tokens)

-- What splitting a source comes to: all of it is covered, or what is in front of the place at
-- which it fails can be split.
def Covers (source : String) : Except SyntaxError (List Token) → Prop
  | .ok tokens => CoveredBy source tokens
  | .error e => ∃ front tokens, (Span.mk 0 e.span.start).slice? source = some front ∧
      tokenize front = .ok tokens

variable {source : String} {start total : Nat} {input front : List Char} {token : Token}
  {tokens before : List Token} {e : SyntaxError}

theorem map_kinds_tokenize {text : List Char} (h : Tiled 0 text tokens) :
    (tokenize (String.ofList text)).map kinds = .ok (kinds tokens) := by
  rw [← String.toList_ofList (l := text)] at h
  rw [tokenize_eq_ok_iff.mpr h]
  rfl

namespace Lexer.Tiled

-- The slice of a token and the token it is split into.
theorem alone (h : Tiled 0 source.toList tokens) (hmem : token ∈ tokens) :
    ∃ text, token.span.slice? source = some text ∧
      (tokenize text).map kinds =
        .ok (if token.kind = .eof then [.eof] else [token.kind, .eof]) := by
  obtain ⟨front, rfl, hfront⟩ := h.ends
  rcases List.mem_append.mp hmem with hmem | hmem
  · obtain ⟨before, behind, rfl⟩ := List.append_of_mem hmem
    have htokens := tokenize_eq_ok_iff.mpr h
    rw [List.append_assoc, List.cons_append, List.append_cons before] at htokens
    obtain ⟨text, others, hslice, htext, hothers⟩ := tokenize_slice htokens (by simp)
    have hkinds := congrArg kinds hothers
    rw [kinds_shift] at hkinds
    rw [if_neg (hfront token hmem).1]
    refine ⟨text, hslice, ?_⟩
    rw [htext, Except.map, kinds_append, ← hkinds]
    rfl
  · obtain rfl := List.mem_singleton.mp hmem
    have hslice : (endMark 0 source.toList).span.slice? source = some (String.ofList []) :=
      Span.slice?_eq source.toList [] [] (by simp) (Nat.zero_add _) (Nat.zero_add _)
    exact ⟨_, hslice, map_kinds_tokenize (.last .nil)⟩

-- What is in front of any token, back to the end of the one before it.
theorem gaps {behind : List Token} (h : Tiled 0 source.toList (before ++ token :: behind)) :
    ∃ gap, (Span.mk (endOf 0 before) token.span.start).slice? source = some gap ∧
      Skipped behind.isEmpty gap.toList := by
  obtain ⟨front, input, hsource, hend, -, h⟩ := h.cut (List.cons_ne_nil _ _)
  obtain ⟨gap, rest, rfl, hgap, hstart, -⟩ := h.gap_front
  rw [Nat.zero_add] at hend hstart
  refine ⟨String.ofList gap, ?_, by rwa [String.toList_ofList]⟩
  exact Span.slice?_eq front gap rest (by rw [hsource, List.append_assoc]) hend hstart

-- One blank in place of each gap keeps the tokens apart.
theorem joined (h : Tiled start input tokens) (hsource : source.toList = front ++ input)
    (hstart : start = byteLength front) :
    ∃ first texts, tokens.mapM (·.span.slice? source) = some (first :: texts) ∧
      ∀ origin, ∃ others, kinds others = kinds tokens ∧
        Tiled origin (" ".intercalate (first :: texts)).toList others := by
  induction h generalizing front with
  | @last start gap hgap =>
      have hslice : (endMark start gap).span.slice? source = some (String.ofList []) :=
        Span.slice?_eq (front ++ gap) [] [] (by simp [hsource]) (by simp [endMark, hstart])
          (by simp [endMark, hstart])
      refine ⟨"", [], ?_, fun origin => ⟨[endMark origin []], rfl, .last .nil⟩⟩
      rw [List.mapM_cons, hslice]
      rfl
  | @token start stop gap text after kind tokens hgap hlexeme hstop _ ih =>
      have hafter : source.toList = front ++ gap ++ text ++ after := by simp [hsource]
      obtain ⟨first, texts, htexts, hjoined⟩ :=
        ih hafter (by simp [hstop, hstart, Nat.add_assoc])
      have hslice :
          (Span.mk (start + byteLength gap) stop).slice? source = some (String.ofList text) :=
        Span.slice?_eq (front ++ gap) text after (by simp [hsource]) (by simp [hstart])
          (by simp [hstop, hstart])
      refine ⟨String.ofList text, first :: texts, ?_, fun origin => ?_⟩
      · rw [List.mapM_cons, htexts, hslice]
        rfl
      · obtain ⟨others, hkinds, hothers⟩ := hjoined (origin + byteLength text + ' '.utf8Size)
        have hspaced := hlexeme.alone.spaced (c := ' ') (by decide) (by decide)
          (" ".intercalate (first :: texts)).toList
        have hjoin : (" ".intercalate (String.ofList text :: first :: texts)).toList =
            [] ++ text ++ ' ' :: (" ".intercalate (first :: texts)).toList := by
          rw [String.intercalate_cons_cons]
          simp
        rw [hjoin]
        refine ⟨_, ?_, .token .nil hspaced rfl (hothers.blank (by decide))⟩
        rw [kinds_cons, kinds_cons, hkinds]

end Lexer.Tiled

namespace Lexer

-- In front of the place at which splitting a text fails there are only whole tokens and gaps.
theorem exists_tiled_of_error (h : tokensFrom total input = .error e)
    (hle : byteLength input ≤ total) :
    ∃ front rest tokens, input = front ++ rest ∧ e.span.start = offsetOf total rest ∧
      Tiled (offsetOf total input) front tokens := by
  obtain ⟨tokens, c, rest, hreaches, -, -⟩ := exists_reaches_of_error h hle
  obtain ⟨front, rfl, hplace, htokens⟩ := hreaches.tiled
  rw [← offsetOf_append hle] at hplace
  exact ⟨front, c :: rest, _, rfl, hplace, htokens⟩

end Lexer

-- Every source is covered by its tokens: they stand in order, each but the last covers some text
-- and is found again in that text alone, and only blanks and comments are in between.
theorem tokenize_covers (source : String) : Covers source (tokenize source) := by
  cases h : tokenize source with
  | ok tokens =>
      have htiled := tokenize_eq_ok_iff.mp h
      obtain ⟨first, texts, htexts, hjoined⟩ := htiled.joined (List.nil_append _).symm rfl
      obtain ⟨others, hkinds, hothers⟩ := hjoined 0
      refine ⟨tokenize_inOrder h, htiled.ends, ?_, fun _ hmem => htiled.alone hmem,
        first :: texts, htexts, ?_⟩
      · rintro before token behind rfl
        exact htiled.gaps
      · rw [tokenize_eq_ok_iff.mpr hothers, ← hkinds]
        rfl
  | error e =>
      obtain ⟨front, rest, tokens, hsource, hplace, htokens⟩ :=
        exists_tiled_of_error h (Nat.le_refl _)
      have hstart : offsetOf (byteLength source.toList) source.toList = 0 := Nat.sub_self _
      rw [hstart] at htokens
      refine ⟨String.ofList front, tokens, Span.slice?_eq [] front rest hsource rfl ?_, ?_⟩
      · rw [byteLength_nil, Nat.zero_add, hplace, offsetOf, hsource, byteLength_append,
          Nat.add_sub_cancel]
      · rw [tokenize_eq_ok_iff, String.toList_ofList]
        exact htokens

end EventScript
