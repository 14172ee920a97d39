import EventScript.Diagnostic.Heading
import EventScript.Token.Lexer
import Mathlib.Data.List.Basic
import Mathlib.Data.List.Induction
import Mathlib.Tactic.Common

namespace EventScript

-- Lines and columns

namespace Text

-- The place behind a text, line and column counted from one: by the line feeds in the text, and by
-- the characters behind the last of them.
def lineColumn (before : List Char) : Place where
  line := before.count '\n' + 1
  column := (before.reverse.takeWhile (· ≠ '\n')).length + 1

-- Nothing but a line feed ends a line.
def OnlyFeeds (cs : List Char) : Prop := ∀ c ∈ cs, endsLine c = true → c = '\n'

variable {before behind cs : List Char} {c : Char}

theorem onlyFeeds_append :
    OnlyFeeds (before ++ behind) ↔ OnlyFeeds before ∧ OnlyFeeds behind :=
  List.forall_mem_append

theorem onlyFeeds_of_all (h : (cs.all fun c => !endsLine c || c == '\n') = true) :
    OnlyFeeds cs := by
  intro c hc hends
  have hfeed := List.all_eq_true.mp h c hc
  rw [hends] at hfeed
  exact eq_of_beq hfeed

theorem lineColumn_concat (before : List Char) (c : Char) :
    lineColumn (before ++ [c]) =
      if c = '\n' then ⟨(lineColumn before).line + 1, 1⟩
      else ⟨(lineColumn before).line, (lineColumn before).column + 1⟩ := by
  by_cases hc : c = '\n' <;> simp [lineColumn, hc]

-- Behind more text the place is on a later line, or further on in the same line.
theorem lineColumn_append (before more : List Char) :
    (lineColumn before).line < (lineColumn (before ++ more)).line ∨
      (lineColumn (before ++ more)).line = (lineColumn before).line ∧
        (lineColumn (before ++ more)).column = (lineColumn before).column + more.length := by
  induction more using List.reverseRecOn with
  | nil => exact .inr (by simp)
  | append_singleton more c ih =>
      rw [← List.append_assoc, lineColumn_concat, List.length_append, List.length_singleton]
      split <;> dsimp only <;> omega

-- Further on in a text the place is another one.
theorem lineColumn_append_eq_iff {before more : List Char} :
    lineColumn (before ++ more) = lineColumn before ↔ more = [] := by
  constructor
  · intro he
    have happend := lineColumn_append before more
    rw [he] at happend
    exact List.eq_nil_of_length_eq_zero (by omega)
  · rintro rfl
    rw [List.append_nil]

end Text

namespace Renderer

open Text

variable {before behind cs : List Char} {c : Char}

-- What a renderer does that takes the numbers of a span for numbers of characters: a span inside a
-- source in which nothing but line feeds ends a line is shown at the place where it starts.
def CountsCharacters (renderer : Renderer) : Prop :=
  ∀ (before behind : List Char) (stop : Nat), OnlyFeeds (before ++ behind) →
    before.length < stop → stop ≤ (before ++ behind).length →
      renderer.place? (String.ofList (before ++ behind)) ⟨before.length, stop⟩ =
        some (lineColumn before)

-- One character further on. At the last character of a text the line does not end.
theorem advance_cons (hfeed : endsLine c = true → c = '\n') (hne : cs ≠ []) (front : List Char)
    (count : Nat) : advance (lineColumn front) (count + 1) (c :: cs) =
      advance (lineColumn (front ++ [c])) count cs := by
  obtain ⟨next, rest, rfl⟩ := List.exists_cons_of_ne_nil hne
  rw [advance, lineColumn_concat]
  by_cases hc : c = '\n'
  · subst hc
    rfl
  · have hno : endsLine c = false := Bool.eq_false_iff.mpr fun hends => hc (hfeed hends)
    rw [hno, if_neg hc]
    rfl

theorem advance_length (h : OnlyFeeds before) (hne : behind ≠ []) (front : List Char) :
    advance (lineColumn front) before.length (before ++ behind) = lineColumn (front ++ before) := by
  induction before generalizing front with
  | nil => rw [List.length_nil, advance, List.append_nil]
  | cons c before ih =>
      obtain ⟨hc, hrest⟩ := List.forall_mem_cons.mp h
      rw [List.length_cons, List.cons_append,
        advance_cons hc (List.append_ne_nil_of_right_ne_nil before hne), ih hrest,
        List.append_assoc, List.singleton_append]

theorem byCharacters_countsCharacters : byCharacters.CountsCharacters := by
  intro before behind stop hfeeds hlt hle
  have hne : behind ≠ [] := by
    rintro rfl
    rw [List.append_nil] at hle
    omega
  have hlength : (String.ofList (before ++ behind)).length = (before ++ behind).length := by
    rw [← String.length_toList, String.toList_ofList]
  have hplace := advance_length (onlyFeeds_append.mp hfeeds).1 hne []
  unfold byCharacters
  dsimp only
  rw [if_pos (by omega), String.toList_ofList]
  exact congrArg some hplace

end Renderer

-- Offsets

theorem length_le_byteLength (cs : List Char) : cs.length ≤ byteLength cs := by
  induction cs with
  | nil => exact Nat.le_refl 0
  | cons c cs ih =>
      have hpos := c.utf8Size_pos
      rw [List.length_cons, byteLength_cons]
      omega

-- Bytes and characters are counted alike exactly where each character is one byte.
theorem byteLength_eq_length_iff {cs : List Char} :
    byteLength cs = cs.length ↔ ∀ c ∈ cs, c.utf8Size = 1 := by
  induction cs with
  | nil => exact iff_of_true rfl (List.forall_mem_nil _)
  | cons c cs ih =>
      have hpos := c.utf8Size_pos
      have hle := length_le_byteLength cs
      rw [List.forall_mem_cons, ← ih, byteLength_cons, List.length_cons]
      omega

namespace Diagnostic

variable {d : Diagnostic} {source : String} {before behind : List Char} {renderer : Renderer}

-- A diagnostic inside the source is shown at the place behind as many characters as there are bytes
-- in front of it: its offsets count bytes and are taken for numbers of characters. That is the place
-- it is about exactly if each character in front of it is one byte.
theorem place?_eq_lineColumn_iff (hrenderer : renderer.CountsCharacters)
    (hfeeds : Text.OnlyFeeds source.toList) (hsource : source.toList = before ++ behind)
    (hstart : d.span.start = byteLength before) (hstop : d.span.widened.stop ≤ source.length) :
    d.place? source renderer =
        some (Text.lineColumn (source.toList.take (byteLength before))) ∧
      (d.place? source renderer = some (Text.lineColumn before) ↔
        ∀ c ∈ before, c.utf8Size = 1) := by
  let front := source.toList.take (byteLength before)
  let rest := source.toList.drop (byteLength before)
  have hsplit : front ++ rest = source.toList := List.take_append_drop _ _
  have hlt : d.span.start + 1 ≤ d.span.widened.stop := Nat.le_max_right _ _
  have hfront : front.length = d.span.start := by
    rw [List.length_take, String.length_toList]
    omega
  have hplace : d.place? source renderer = some (Text.lineColumn front) := by
    have hshown := hrenderer front rest d.span.widened.stop (hsplit ▸ hfeeds) (by omega)
      (by rwa [hsplit, String.length_toList])
    rwa [hsplit, String.ofList_toList, hfront] at hshown
  refine ⟨hplace, ?_⟩
  rw [hplace, Option.some_inj, ← byteLength_eq_length_iff]
  -- The characters passed over are those in front of the diagnostic, and some more behind them.
  have hle := length_le_byteLength before
  obtain ⟨more, hmore⟩ : ∃ more, front = before ++ more := by
    refine ⟨behind.take (byteLength before - before.length), ?_⟩
    rw [← List.take_length_add_append, ← hsource, Nat.add_sub_cancel' hle]
  have hlength : front.length = before.length + more.length := by rw [hmore, List.length_append]
  rw [hmore, Text.lineColumn_append_eq_iff, ← List.length_eq_zero_iff]
  omega

-- What a script is told about a name that is not known.
def missing (span : Span) : Diagnostic where
  code := Code.nameNotFound
  message := "The name 'missing' does not exist in the current context"
  span := span
  severity := .error
  phase := .binding

-- On the second line, in front of what is no single byte.
theorem place?_eq_lineColumn_missing :
    let source := "1 +\n  missing + \"é\""
    let before := "1 +\n  ".toList
    (Renderer.byCharacters.CountsCharacters ∧ Text.OnlyFeeds source.toList ∧
      source.toList = before ++ "missing + \"é\"".toList ∧
      (missing ⟨6, 13⟩).span.start = byteLength before ∧
      (missing ⟨6, 13⟩).span.widened.stop ≤ source.length) ∧
      (missing ⟨6, 13⟩).place? source .byCharacters = some (Text.lineColumn before) ∧
      Text.lineColumn before = ⟨2, 3⟩ := by
  intro source before
  have hrenderer := Renderer.byCharacters_countsCharacters
  have hfeeds : Text.OnlyFeeds source.toList := Text.onlyFeeds_of_all (by decide)
  have hsource : source.toList = before ++ "missing + \"é\"".toList := by decide
  have hstart : (missing ⟨6, 13⟩).span.start = byteLength before := by decide
  have hstop : (missing ⟨6, 13⟩).span.widened.stop ≤ source.length := by decide
  have hbytes : ∀ c ∈ before, c.utf8Size = 1 := byteLength_eq_length_iff.mp (by decide)
  have hplace := (place?_eq_lineColumn_iff hrenderer hfeeds hsource hstart hstop).2.mpr hbytes
  exact ⟨⟨hrenderer, hfeeds, hsource, hstart, hstop⟩, hplace, by decide⟩

-- Behind what is no single byte a diagnostic is shown too far on.
theorem place_behind_letter :
    ¬ ∀ (renderer : Renderer), renderer.CountsCharacters →
      ∀ (d : Diagnostic) (source : String) (before behind : List Char),
        Text.OnlyFeeds source.toList → source.toList = before ++ behind → behind ≠ [] →
          d.span.start = byteLength before →
            d.place? source renderer = some (Text.lineColumn before) := by
  intro h
  have hfeeds : Text.OnlyFeeds "\"é\" + missing + 1".toList := Text.onlyFeeds_of_all (by decide)
  have hplace := h .byCharacters Renderer.byCharacters_countsCharacters (missing ⟨7, 14⟩)
    "\"é\" + missing + 1" "\"é\" + ".toList "missing + 1".toList hfeeds (by decide) (by decide)
    (by decide)
  exact absurd hplace (by decide)

end Diagnostic

end EventScript
