import EventScript.Proofs.Token.Cutting
import EventScript.Proofs.Token.Gaps
import EventScript.Proofs.Token.Order
import EventScript.Proofs.Token.Slices

namespace EventScript

def Token.shift (token : Token) (offset : Nat) : Token := ⟨token.kind, token.span.shift offset⟩

theorem kinds_shift (tokens : List Token) (offset : Nat) :
    kinds (tokens.map (·.shift offset)) = kinds tokens := by
  rw [kinds, List.map_map]
  rfl

namespace Lexer

-- A token stands in front of the rest of the text, and it is not the end of the text.
structure Lexeme (text : List Char) (kind : TokenKind) (after : List Char) : Prop where
  ne_nil : text ≠ []
  bare : Bare (text ++ after)
  scans : scanToken? (text ++ after) = some (kind, after)

-- The token that marks the end of a text that stands at `start`.
def endMark (start : Nat) (text : List Char) : Token :=
  ⟨.eof, ⟨start + byteLength text, start + byteLength text⟩⟩

-- A text that stands at `start` is split into tokens, with gaps between them. The last token
-- covers nothing and stands at the end.
inductive Tiled : (start : Nat) → List Char → List Token → Prop
  | last {start : Nat} {gap : List Char} :
      Skipped true gap → Tiled start gap [endMark start gap]
  | token {start stop : Nat} {gap text after : List Char} {kind : TokenKind}
      {tokens : List Token} :
      Skipped false gap → Lexeme text kind after → stop = start + byteLength gap + byteLength text →
      Tiled stop after tokens →
      Tiled start (gap ++ text ++ after) (⟨kind, ⟨start + byteLength gap, stop⟩⟩ :: tokens)

variable {c : Char} {start total : Nat} {input gap text rest after : List Char} {kind : TokenKind}
  {token : Token} {tokens before more : List Token}

-- Single tokens

theorem Skipped.weaken {atEnd : Bool} (h : Skipped false gap) : Skipped atEnd gap := by
  generalize hend : false = inside at h
  induction h with
  | nil => exact .nil
  | blank hc _ ih => exact .blank hc (ih hend)
  | line hcomment _ ih => exact .line hcomment (ih hend)
  | block hcomment _ ih => exact .block hcomment (ih hend)
  | lastLine => cases hend

theorem Skipped.skipTrivia_bare (h : Skipped false gap) (hbare : Bare rest) :
    skipTrivia (gap ++ rest) = rest := by
  rw [h.skipTrivia_append (by simp), hbare.skipTrivia_eq]

namespace Lexeme

theorem kind_ne_eof (h : Lexeme text kind after) : kind ≠ .eof := scanToken?_ne_eof h.scans

theorem byteLength_pos (h : Lexeme text kind after) : 0 < byteLength text := by
  cases text with
  | nil => exact absurd rfl h.ne_nil
  | cons c text =>
      have hpos := c.utf8Size_pos
      rw [byteLength_cons]
      omega

-- The token stays in front if what follows it ends early.
theorem cut (h : Lexeme text kind (after ++ rest)) : Lexeme text kind after where
  ne_nil := h.ne_nil
  bare := .of_append (List.append_assoc text after rest ▸ h.bare)
  scans := scanToken?_cut (List.append_assoc text after rest ▸ h.scans)

theorem alone (h : Lexeme text kind after) : Lexeme text kind [] :=
  cut (show Lexeme text kind ([] ++ after) from h)

-- A blank can be put behind the token.
theorem spaced (h : Lexeme text kind []) (hc : Text.isBlank c = true) (hbreaks : isBreak c = true)
    (rest : List Char) : Lexeme text kind (c :: rest) := by
  have hpoint : c ≠ '.' ∧ c ≠ '/' ∧ c ≠ '*' := by
    refine ⟨?_, ?_, ?_⟩ <;>
    · rintro rfl
      exact absurd hc (by decide)
  have hrest : Breaks (c :: rest) := breaks_cons hbreaks hpoint.1
  have hscans := scanToken?_append hrest h.scans
  have hbare := h.bare
  rw [List.append_nil] at hscans hbare
  refine ⟨h.ne_nil, ?_, hscans⟩
  cases text with
  | nil => exact absurd rfl h.ne_nil
  | cons d text =>
      refine bare_cons hbare.1 fun hd e tail he => ?_
      obtain ⟨hline, hblock⟩ := hbare.2 hd
      cases text with
      | nil =>
          obtain ⟨rfl, -⟩ := List.cons.inj he
          exact hpoint.2
      | cons f text =>
          obtain ⟨rfl, -⟩ := List.cons.inj he
          exact ⟨fun he => hline (congrArg some he), fun he => hblock (congrArg some he)⟩

end Lexeme

theorem exists_lexeme (hs : skipTrivia input = c :: rest)
    (hopens : opensComment (c :: rest) = false)
    (hscan : scanToken? (c :: rest) = some (kind, after)) :
    ∃ gap text, input = gap ++ text ++ after ∧ Skipped false gap ∧ Lexeme text kind after := by
  obtain ⟨gap, hinput, hgap⟩ := exists_skipped input
  obtain ⟨text, htext⟩ := scanToken?_suffix hscan
  have hlexeme : c :: rest = (c :: text) ++ after := by rw [List.cons_append, htext]
  have hbare := bare_skipTrivia (hs ▸ hopens)
  rw [hs] at hinput hgap hbare
  rw [hlexeme] at hinput hbare hscan
  exact ⟨gap, c :: text, by rw [hinput, List.append_assoc], hgap, List.cons_ne_nil _ _, hbare,
    hscan⟩

-- All tokens of a text

theorem tiled_of_tokensFrom (h : tokensFrom total input = .ok tokens)
    (hle : byteLength input ≤ total) : Tiled (offsetOf total input) input tokens := by
  induction hn : input.length using Nat.strongRecOn generalizing input tokens with
  | ind n ih =>
      rcases tokensFrom_cases h with
        ⟨hs, rfl⟩ | ⟨c, rest, kind, after, more, hs, hopens, hscan, hmore, rfl⟩
      · obtain ⟨gap, hinput, hgap⟩ := exists_skipped input
        rw [hs] at hinput hgap
        have hend := offsetOf_append (hinput ▸ hle)
        rw [List.append_nil] at hinput hend
        subst hinput
        rw [hend]
        exact .last hgap
      · obtain ⟨gap, text, rfl, hgap, hlexeme⟩ := exists_lexeme hs hopens hscan
        have hlt : after.length < n := by
          have hpos := List.length_pos_iff.mpr hlexeme.ne_nil
          simp only [List.length_append] at hn
          omega
        have hskip := hgap.skipTrivia_bare hlexeme.bare
        rw [← List.append_assoc, hs] at hskip
        have hstop := offsetOf_append hle
        rw [List.append_assoc] at hle
        have hstart := offsetOf_append hle
        rw [← List.append_assoc, ← hskip] at hstart
        rw [byteLength_append, ← Nat.add_assoc] at hstop
        simp only [byteLength_append] at hle
        rw [hstart]
        exact .token hgap hlexeme hstop (ih _ hlt hmore (by omega) rfl)

-- What is behind a gap and a token is split as it is, with the token put in front.
theorem tokensFrom_lexeme {stop : Nat} (hgap : Skipped false gap) (h : Lexeme text kind after)
    (hstop : stop = start + byteLength gap + byteLength text) :
    tokensFrom (start + byteLength (gap ++ text ++ after)) (gap ++ text ++ after) =
      (tokensFrom (stop + byteLength after) after).map
        (⟨kind, ⟨start + byteLength gap, stop⟩⟩ :: ·) := by
  have hs := hgap.skipTrivia_bare h.bare
  rw [← List.append_assoc] at hs
  have hopens := h.bare.opensComment_eq
  have hscans := h.scans
  have htotal : start + byteLength (gap ++ text ++ after) = stop + byteLength after := by
    simp only [byteLength_append]
    omega
  have hfirst : offsetOf (stop + byteLength after) (text ++ after) = start + byteLength gap := by
    rw [offsetOf, byteLength_append]
    omega
  have hafter : offsetOf (stop + byteLength after) after = stop := by
    rw [offsetOf, Nat.add_sub_cancel]
  rw [Lexer.tokensFrom_eq, hs, htotal]
  cases htext : text ++ after with
  | nil => exact absurd (List.append_eq_nil_iff.mp htext).1 h.ne_nil
  | cons c rest =>
      rw [htext] at hopens hscans hfirst
      dsimp only
      rw [if_neg (by rw [hopens]; decide), hscans]
      dsimp only
      rw [hfirst, hafter]

theorem Tiled.tokensFrom_eq (h : Tiled start input tokens) :
    tokensFrom (start + byteLength input) input = .ok tokens := by
  induction h with
  | @last start gap hgap =>
      have hs : skipTrivia (gap ++ []) = skipTrivia [] := hgap.skipTrivia_append fun _ => rfl
      rw [List.append_nil, skipTrivia] at hs
      rw [Lexer.tokensFrom_eq, hs]
      rfl
  | token hgap hlexeme hstop _ ih =>
      rw [tokensFrom_lexeme hgap hlexeme hstop, ih]
      rfl

-- Where the tokens end that are found from `start` on.
def endOf (start : Nat) : List Token → Nat
  | [] => start
  | token :: tokens => endOf token.span.stop tokens

namespace Tiled

-- A text that is moved takes its tokens along.
theorem moved {origin offset : Nat} (h : Tiled start input tokens)
    (hstart : start = origin + offset) :
    ∃ others, tokens = others.map (·.shift offset) ∧ Tiled origin input others := by
  induction h generalizing origin with
  | @last start gap hgap =>
      refine ⟨[endMark origin gap], ?_, .last hgap⟩
      rw [hstart, endMark, Nat.add_right_comm]
      rfl
  | @token start stop gap text after kind tokens hgap hlexeme hstop _ ih =>
      have hend : stop = origin + byteLength gap + byteLength text + offset := by omega
      obtain ⟨others, rfl, hothers⟩ := ih hend
      refine ⟨⟨kind, ⟨origin + byteLength gap, _⟩⟩ :: others, ?_, .token hgap hlexeme rfl hothers⟩
      rw [hstop, hstart, Nat.add_right_comm origin, Nat.add_right_comm (origin + byteLength gap)]
      rfl

theorem blank (h : Tiled (start + c.utf8Size) input tokens) (hc : Text.isBlank c = true) :
    Tiled start (c :: input) tokens := by
  cases h with
  | @last _ gap hgap =>
      rw [endMark, Nat.add_assoc, ← byteLength_cons]
      exact .last (hgap.blank hc)
  | @token _ stop gap text after kind tokens hgap hlexeme hstop hmore =>
      have hlength := Nat.add_assoc start c.utf8Size (byteLength gap)
      rw [← byteLength_cons] at hlength
      rw [hlength] at hstop ⊢
      exact .token (hgap.blank hc) hlexeme hstop hmore

-- In front of any of its tokens a text can be cut: what is in front is split into the tokens in
-- front, the rest into the others. The induction is on the tokens in front.
theorem cut (h : Tiled start input (before ++ more)) (hmore : more ≠ []) :
    ∃ text rest, input = text ++ rest ∧ endOf start before = start + byteLength text ∧
      Tiled start text (before ++ [endMark start text]) ∧
      Tiled (start + byteLength text) rest more := by
  induction before generalizing start input with
  | nil => exact ⟨[], input, rfl, rfl, .last .nil, h⟩
  | cons token before ih =>
      rw [List.cons_append] at h
      generalize hall : before ++ more = others at h
      cases h with
      | last => exact absurd (List.append_eq_nil_iff.mp hall).2 hmore
      | @token _ stop gap text after kind _ hgap hlexeme hstop hafter =>
          subst hall
          obtain ⟨front, rest, rfl, hbefore, hfront, hrest⟩ := ih hafter
          have hend : start + byteLength (gap ++ text ++ front) = stop + byteLength front := by
            simp only [byteLength_append]
            omega
          refine ⟨gap ++ text ++ front, rest, (List.append_assoc _ _ _).symm, ?_, ?_, ?_⟩
          · rw [hend]
            exact hbefore
          · rw [endMark, hend]
            exact .token hgap hlexeme.cut hstop hfront
          · rw [hend]
            exact hrest

-- The last token marks the end, and each of the others covers some text.
theorem ends (h : Tiled start input tokens) :
    ∃ front, tokens = front ++ [endMark start input] ∧
      ∀ token ∈ front, token.kind ≠ .eof ∧ token.span.start < token.span.stop := by
  induction h with
  | last => exact ⟨[], rfl, by simp⟩
  | @token start stop gap text after kind tokens hgap hlexeme hstop _ ih =>
      obtain ⟨front, rfl, hfront⟩ := ih
      have hpos := hlexeme.byteLength_pos
      have hend : endMark start (gap ++ text ++ after) = endMark stop after := by
        simp only [endMark, byteLength_append, hstop, Nat.add_assoc]
      rw [hend]
      refine ⟨_ :: front, rfl, List.forall_mem_cons.mpr ⟨⟨hlexeme.kind_ne_eof, ?_⟩, hfront⟩⟩
      dsimp only
      omega

-- What stands in front of the first token is a gap.
theorem gap_front (h : Tiled start input (token :: tokens)) :
    ∃ gap rest, input = gap ++ rest ∧ Skipped tokens.isEmpty gap ∧
      token.span.start = start + byteLength gap ∧
      Tiled (start + byteLength gap) rest (token :: tokens) := by
  cases h with
  | last hgap => exact ⟨input, [], (List.append_nil _).symm, hgap, rfl, .last .nil⟩
  | @token _ stop gap text after kind _ hgap hlexeme hstop hafter =>
      refine ⟨gap, text ++ after, List.append_assoc _ _ _, hgap.weaken, rfl, ?_⟩
      exact .token .nil hlexeme (by rwa [byteLength_nil]) hafter

-- Some tokens that stand one behind the other: alone, the text from the start of the first to the
-- end of the last is split into the same tokens.
theorem middle {first : Token} {behind : List Token}
    (h : Tiled start input (before ++ (first :: more) ++ behind)) (hbehind : behind ≠ []) :
    ∃ front text rest, input = front ++ text ++ rest ∧
      first.span.start = start + byteLength front ∧
      endOf start (first :: more) = start + byteLength front + byteLength text ∧
      Tiled (start + byteLength front) text
        (first :: more ++ [endMark (start + byteLength front) text]) := by
  rw [List.append_assoc, List.cons_append] at h
  obtain ⟨front, input, rfl, -, -, h⟩ := h.cut (List.cons_ne_nil _ _)
  obtain ⟨gap, input, rfl, -, hfirst, h⟩ := h.gap_front
  rw [← List.cons_append] at h
  obtain ⟨text, rest, rfl, hstop, h, -⟩ := h.cut hbehind
  refine ⟨front ++ gap, text, rest, by simp only [List.append_assoc], ?_⟩
  rw [byteLength_append, ← Nat.add_assoc]
  exact ⟨hfirst, hstop, h⟩

end Tiled

end Lexer

open Lexer

theorem tokenize_eq_ok_iff {source : String} {tokens : List Token} :
    tokenize source = .ok tokens ↔ Tiled 0 source.toList tokens := by
  constructor
  · intro h
    have htiled := tiled_of_tokensFrom h (Nat.le_refl _)
    rwa [offsetOf, Nat.sub_self] at htiled
  · intro h
    have htokens := h.tokensFrom_eq
    rwa [Nat.zero_add] at htokens

-- A source that is one token.
theorem tokenize_lexeme {source : String} {kind : TokenKind}
    (h : Lexeme source.toList kind []) :
    tokenize source =
      .ok [⟨kind, ⟨0, byteLength source.toList⟩⟩, endMark 0 source.toList] := by
  have htiled : Tiled 0 ([] ++ source.toList ++ []) [_, endMark (byteLength source.toList) []] :=
    .token .nil h (by rw [byteLength_nil, Nat.zero_add]) (.last .nil)
  rw [List.nil_append, List.append_nil] at htiled
  rw [tokenize_eq_ok_iff, endMark, Nat.zero_add]
  exact htiled

-- The slice from one token to another is split into these tokens and those between them, moved to
-- the front of the slice.
theorem tokenize_slice {source : String} {before more behind : List Token} {first : Token}
    (h : tokenize source = .ok (before ++ (first :: more) ++ behind)) (hbehind : behind ≠ []) :
    ∃ text others, (Span.mk first.span.start (endOf 0 (first :: more))).slice? source = some text ∧
      tokenize text = .ok (others ++ [endMark 0 text.toList]) ∧
      first :: more = others.map (·.shift first.span.start) := by
  obtain ⟨front, text, rest, hsource, hstart, hstop, htext⟩ :=
    (tokenize_eq_ok_iff.mp h).middle hbehind
  rw [Nat.zero_add] at hstart hstop htext
  obtain ⟨others, hothers, htext⟩ := htext.moved (Nat.zero_add _).symm
  obtain ⟨moved, rfl, -⟩ := htext.ends
  rw [List.map_append] at hothers
  obtain ⟨hmoved, -⟩ := List.append_inj' hothers rfl
  refine ⟨String.ofList text, moved, Span.slice?_eq front text rest hsource hstart hstop, ?_,
    hstart ▸ hmoved⟩
  rw [tokenize_eq_ok_iff, String.toList_ofList]
  exact htext

end EventScript
