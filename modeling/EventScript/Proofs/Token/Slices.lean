import EventScript.Token.Lexer
import Mathlib.Tactic.SplitIfs

namespace EventScript

variable {bytes : Nat} {front behind text : List Char} {source : String} {span : Span}

-- A text cut where `bytes` of it have been passed, if that is not inside a character.
def splitBytes? (bytes : Nat) : List Char → Option (List Char × List Char)
  | [] => if bytes = 0 then some ([], []) else none
  | c :: text =>
    if bytes = 0 then some ([], c :: text)
    else if c.utf8Size ≤ bytes then
      (splitBytes? (bytes - c.utf8Size) text).map fun (front, behind) => (c :: front, behind)
    else none

theorem splitBytes?_append (front behind : List Char) :
    splitBytes? (byteLength front) (front ++ behind) = some (front, behind) := by
  induction front with
  | nil => cases behind <;> rfl
  | cons c front ih =>
      have hpos := c.utf8Size_pos
      rw [List.cons_append, byteLength_cons, splitBytes?, if_neg (by omega), if_pos (by omega),
        Nat.add_sub_cancel_left, ih]
      rfl

theorem eq_append_of_splitBytes? (h : splitBytes? bytes text = some (front, behind)) :
    text = front ++ behind ∧ byteLength front = bytes := by
  fun_induction splitBytes? bytes text generalizing front with
  | case1 =>
      cases h
      exact ⟨rfl, rfl⟩
  | case2 bytes hzero => cases h
  | case3 c text =>
      cases h
      exact ⟨rfl, rfl⟩
  | case4 bytes c text hzero hle ih =>
      obtain ⟨⟨rest, left⟩, hsplit, he⟩ := Option.map_eq_some_iff.mp h
      obtain ⟨rfl, rfl⟩ := Prod.mk.inj he
      obtain ⟨rfl, hlength⟩ := ih hsplit
      refine ⟨rfl, ?_⟩
      rw [byteLength_cons, hlength]
      omega
  | case5 bytes c text hzero hle => cases h

theorem splitBytes?_eq_some_iff :
    splitBytes? bytes text = some (front, behind) ↔
      text = front ++ behind ∧ byteLength front = bytes := by
  refine ⟨eq_append_of_splitBytes?, ?_⟩
  rintro ⟨rfl, rfl⟩
  exact splitBytes?_append front behind

-- The text of a source at a span, if both ends are places between its characters.
def Span.slice? (span : Span) (source : String) : Option String :=
  if span.start ≤ span.stop then
    (splitBytes? span.start source.toList).bind fun (_, rest) =>
      (splitBytes? span.length rest).map fun (text, _) => String.ofList text
  else .none

theorem Span.slice?_eq_some_iff {slice : String} :
    span.slice? source = some slice ↔
      ∃ before behind, source.toList = before ++ slice.toList ++ behind ∧
        span.start = byteLength before ∧
        span.stop = byteLength before + byteLength slice.toList := by
  constructor
  · intro h
    unfold Span.slice? at h
    split_ifs at h with hle
    obtain ⟨⟨before, rest⟩, hbefore, h⟩ := Option.bind_eq_some_iff.mp h
    obtain ⟨⟨text, behind⟩, htext, he⟩ := Option.map_eq_some_iff.mp h
    obtain rfl := he
    obtain ⟨hsource, hstart⟩ := splitBytes?_eq_some_iff.mp hbefore
    obtain ⟨rfl, hlength⟩ := splitBytes?_eq_some_iff.mp htext
    refine ⟨before, behind, ?_, hstart.symm, ?_⟩
    · rw [String.toList_ofList, hsource, List.append_assoc]
    · rw [String.toList_ofList, hstart, hlength, Span.length, Nat.add_sub_cancel' hle]
  · rintro ⟨before, behind, hsource, hstart, hstop⟩
    rw [List.append_assoc] at hsource
    unfold Span.slice? Span.length
    rw [hstart, hstop, if_pos (Nat.le_add_right _ _), hsource, splitBytes?_append,
      Nat.add_sub_cancel_left, Option.bind_some]
    dsimp only
    rw [splitBytes?_append, Option.map_some, String.ofList_toList]

-- The slice of what stands between two other parts of the text.
theorem Span.slice?_eq (before text behind : List Char)
    (h : source.toList = before ++ text ++ behind) (hstart : span.start = byteLength before)
    (hstop : span.stop = byteLength before + byteLength text) :
    span.slice? source = some (String.ofList text) := by
  rw [Span.slice?_eq_some_iff, String.toList_ofList]
  exact ⟨before, behind, h, hstart, hstop⟩

end EventScript
