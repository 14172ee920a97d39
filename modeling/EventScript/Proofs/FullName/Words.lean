import EventScript.Proofs.FullName.Search
import EventScript.Proofs.Host.NamespacePaths
import EventScript.Proofs.Token.Spelling

namespace EventScript

open Lexer

-- What words consist of

namespace Lexer

variable {c : Char}

-- The kernel goes through the ranges as lists much faster than as arrays.
theorem continuesWord_eq (c : Char) :
    continuesWord c = ((if c.toNat < 0x80 then c.isAlphanum
      else startsWord c || Text.numberRanges.toList.any fun range =>
        range.1 ≤ c.toNat && c.toNat ≤ range.2) || c == '_') := by
  rw [continuesWord, Text.isLetterOrNumber, startsWord, Text.inRanges, Array.any_toList]
  split
  · rfl
  · cases c == '_' <;> simp

theorem not_continuesWord_of_isBlank (h : Text.isBlank c = true) : continuesWord c = false := by
  have hcodes : ∀ n ∈ blankCodes, continuesWord (Char.ofNat n) = false := by
    simp only [continuesWord_eq, startsWord_eq]
    decide +kernel
  exact of_code c (toNat_mem_blankCodes h) hcodes

theorem not_isBlank_of_continuesWord (h : continuesWord c = true) : Text.isBlank c = false := by
  cases hblank : Text.isBlank c with
  | false => rfl
  | true =>
      rw [not_continuesWord_of_isBlank hblank] at h
      cases h

theorem not_isBreak_of_continuesWord (h : continuesWord c = true) : isBreak c = false := by
  cases hbreak : isBreak c with
  | false => rfl
  | true =>
      rw [not_continuesWord_of_isBreak hbreak] at h
      cases h

theorem isBreak_of_setsOff (h : setsOff c = true) : isBreak c = true := by
  simp only [setsOff, Bool.or_eq_true, decide_eq_true_eq] at h
  rcases h with (rfl | rfl) | rfl <;> decide

theorem not_setsOff_of_continuesWord (h : continuesWord c = true) : setsOff c = false := by
  cases hsets : setsOff c with
  | false => rfl
  | true =>
      rw [not_continuesWord_of_isBreak (isBreak_of_setsOff hsets)] at h
      cases h

end Lexer

-- Paths

namespace Text

variable {separator : Char} {part rest : List Char} {parts : List (List Char)}

theorem splitChars_of_not_mem (h : separator ∉ part) : splitChars separator part = [part] := by
  induction part with
  | nil => rfl
  | cons c part ih =>
      obtain ⟨hc, hpart⟩ := not_or.mp (List.mem_cons.not.mp h)
      rw [splitChars, if_neg (Ne.symm hc), ih hpart]

theorem splitChars_append (h : separator ∉ part) :
    splitChars separator (part ++ separator :: rest) = part :: splitChars separator rest := by
  induction part with
  | nil => rw [List.nil_append, splitChars, if_pos rfl]
  | cons c part ih =>
      obtain ⟨hc, hpart⟩ := not_or.mp (List.mem_cons.not.mp h)
      rw [List.cons_append, splitChars, if_neg (Ne.symm hc), ih hpart]

theorem splitChars_intercalate (h : ∀ part ∈ parts, separator ∉ part) (hn : parts ≠ []) :
    splitChars separator ([separator].intercalate parts) = parts := by
  induction parts with
  | nil => exact absurd rfl hn
  | cons part parts ih =>
      obtain ⟨hpart, hparts⟩ := List.forall_mem_cons.mp h
      by_cases he : parts = []
      · rw [he, List.intercalate_singleton, splitChars_of_not_mem hpart]
      · rw [List.intercalate_cons_of_ne_nil he, List.append_assoc, List.singleton_append,
          splitChars_append hpart, ih hparts he]

theorem not_mem_of_mem_splitChars {cs : List Char} (h : part ∈ splitChars separator cs) :
    separator ∉ part := by
  induction cs generalizing part with
  | nil =>
      obtain rfl := List.mem_singleton.mp h
      exact List.not_mem_nil
  | cons c rest ih =>
      unfold splitChars at h
      split at h
      · rcases List.mem_cons.mp h with rfl | h
        · exact List.not_mem_nil
        · exact ih h
      · rename_i hc
        split at h
        · obtain rfl := List.mem_singleton.mp h
          exact fun hm => hc (List.mem_singleton.mp hm).symm
        · rename_i first parts hsplit
          rcases List.mem_cons.mp h with rfl | h
          · have hfirst := ih (hsplit ▸ List.mem_cons_self)
            exact List.not_mem_cons_of_ne_of_not_mem (Ne.symm hc) hfirst
          · exact ih (hsplit ▸ List.mem_cons_of_mem _ h)

end Text

-- A part of a path: it is there, and no point divides it.
def IsSegment (name : String) : Prop := '.' ∉ name.toList ∧ name ≠ ""

theorem isSegment_of_mem_pathSegments {path name : String} (h : name ∈ pathSegments path) :
    IsSegment name := by
  obtain ⟨hsplit, hne⟩ := List.mem_filter.mp h
  obtain ⟨part, hpart, rfl⟩ := List.mem_map.mp hsplit
  refine ⟨?_, of_decide_eq_true hne⟩
  rw [String.toList_ofList]
  exact Text.not_mem_of_mem_splitChars hpart

theorem pathSegments_of_segments {names : List String} (h : ∀ name ∈ names, IsSegment name) :
    pathSegments (".".intercalate names) = names := by
  by_cases hn : names = []
  · subst hn
    rfl
  · have hsplit : Text.split '.' (".".intercalate names) = names := by
      have hparts : ∀ part ∈ names.map String.toList, '.' ∉ part := by
        intro part hm
        obtain ⟨name, hname, rfl⟩ := List.mem_map.mp hm
        exact (h name hname).1
      have hchars := Text.splitChars_intercalate hparts (by simpa using hn)
      have htext : (".".intercalate names).toList = ['.'].intercalate (names.map String.toList) :=
        String.toList_intercalate
      rw [Text.split, htext, hchars, List.map_map]
      simp [Function.comp_def]
    rw [pathSegments, hsplit, List.filter_eq_self]
    exact fun name hm => by simpa using (h name hm).2

theorem forall_mem_intercalate {α : Type} {P : α → Prop} {separator : List α}
    {parts : List (List α)} (hs : ∀ a ∈ separator, P a) (h : ∀ part ∈ parts, ∀ a ∈ part, P a) :
    ∀ a ∈ separator.intercalate parts, P a := by
  induction parts with
  | nil => exact fun a hm => by cases hm
  | cons part parts ih =>
      obtain ⟨hpart, hparts⟩ := List.forall_mem_cons.mp h
      by_cases he : parts = []
      · rwa [he, List.intercalate_singleton]
      · rw [List.intercalate_cons_of_ne_nil he]
        intro a hm
        rcases List.mem_append.mp hm with hm | hm
        · exact (List.mem_append.mp hm).elim (hpart a) (hs a)
        · exact ih hparts a hm

-- Names that a script can write as they are: words other than the keywords.
def AreWords (names : List String) : Prop := ∀ name ∈ names, WellSpelled (.ident name)

variable {names : List String} {name : String}

theorem continuesWord_of_wellSpelled (h : WellSpelled (.ident name)) :
    ∀ c ∈ name.toList, continuesWord c = true := h.1.continuesWord

theorem point_not_mem (h : WellSpelled (.ident name)) : '.' ∉ name.toList := by
  intro hm
  have hbreak := not_isBreak_of_continuesWord (continuesWord_of_wellSpelled h '.' hm)
  cases hbreak

theorem ne_empty_of_wellSpelled (h : WellSpelled (.ident name)) : name ≠ "" := by
  rintro rfl
  exact h.1

-- Words joined by points are taken apart again.
theorem pathSegments_intercalate (h : AreWords names) :
    pathSegments (".".intercalate names) = names :=
  pathSegments_of_segments fun name hm =>
    ⟨point_not_mem (h name hm), ne_empty_of_wellSpelled (h name hm)⟩

-- There are finitely many characters, but only those of the word are looked at.
instance : DecidablePred Lexer.IsWord
  | [] => inferInstanceAs (Decidable False)
  | c :: text =>
    have := List.decidableBAll (fun d => Lexer.continuesWord d = true) text
    inferInstanceAs (Decidable (startsWord c = true ∧ ∀ d ∈ text, Lexer.continuesWord d = true))

instance (name : String) : Decidable (WellSpelled (.ident name)) :=
  inferInstanceAs (Decidable (Lexer.IsWord name.toList ∧ Keyword.ofText? name = none))

instance : DecidablePred AreWords := fun names =>
  inferInstanceAs (Decidable (∀ name ∈ names, WellSpelled (.ident name)))

-- A type in a namespace whose name is a word, in a namespace that is words joined by points.
def TypeDef.HasWords (d : TypeDef) : Prop :=
  ∀ home ∈ d.home, WellSpelled (.ident d.name) ∧ AreWords (pathSegments home) ∧
    home = ".".intercalate (pathSegments home)

instance : DecidablePred TypeDef.HasWords := fun d =>
  inferInstanceAs (Decidable (∀ home ∈ d.home, WellSpelled (.ident d.name) ∧
    AreWords (pathSegments home) ∧ home = ".".intercalate (pathSegments home)))

theorem TypeDef.HasWords.exists_segments {d : TypeDef} {home : String} (h : d.HasWords)
    (hh : d.home = some home) : WellSpelled (.ident d.name) ∧
      ∃ segments, AreWords segments ∧ home = ".".intercalate segments := by
  obtain ⟨hname, hwords, hjoined⟩ := h home hh
  exact ⟨hname, _, hwords, hjoined⟩

def TypeTable.NamedByWords (t : TypeTable) : Prop := ∀ id, (t.get id).HasWords

theorem TypeTable.NamedByWords.keepsHomesApart {t : TypeTable} (h : t.NamedByWords) :
    t.KeepsHomesApart := by
  intro id other home home' hh hh' hs
  obtain ⟨-, segments, hwords, rfl⟩ := (h id).exists_segments hh
  obtain ⟨-, segments', hwords', rfl⟩ := (h other).exists_segments hh'
  rw [pathSegments_intercalate hwords, pathSegments_intercalate hwords'] at hs
  rw [hs]

theorem Text.isTrimmed_of_forall {cs : List Char} (h : ∀ c ∈ cs, isBlank c = false) :
    isTrimmed cs = true := by
  rw [isTrimmed_iff, Option.any_eq_false, Option.any_eq_false]
  refine ⟨fun c hc => ?_, fun c hc => ?_⟩
  · simpa using h c (List.mem_of_mem_head? hc)
  · simpa using h c (List.mem_of_mem_getLast? hc)

theorem TypeTable.NamedByWords.plainNames {t : TypeTable} (h : t.NamedByWords) :
    t.PlainNames := by
  intro id
  cases hh : (t.get id).home with
  | none =>
      rw [TypeDef.hasPlainName, hh]
  | some home =>
      obtain ⟨hname, segments, hwords, rfl⟩ := (h id).exists_segments hh
      have hpath : ∀ c ∈ (".".intercalate segments).toList, c = '.' ∨ continuesWord c = true := by
        rw [String.toList_intercalate]
        refine forall_mem_intercalate (by simp) ?_
        intro part hm
        obtain ⟨name, hname, rfl⟩ := List.mem_map.mp hm
        exact fun c hc => .inr (continuesWord_of_wellSpelled (hwords name hname) c hc)
      have hsetsOff {c : Char} (hc : c = '.' ∨ continuesWord c = true) : setsOff c = false := by
        rcases hc with rfl | hc
        · decide
        · exact not_setsOff_of_continuesWord hc
      refine (TypeDef.hasPlainName_iff hh).mpr ⟨?_, fun c hc => hsetsOff (hpath c hc), ?_⟩
      · intro c hc
        have hword := continuesWord_of_wellSpelled hname c hc
        refine ⟨?_, hsetsOff (.inr hword)⟩
        rintro rfl
        exact point_not_mem hname hc
      · refine Text.isTrimmed_of_forall fun c hc => ?_
        rw [TypeDef.fullName_of_home hh] at hc
        have hchar : c = '.' ∨ continuesWord c = true := by
          rcases List.mem_append.mp hc with hc | hc
          · exact hpath c hc
          · exact (List.mem_cons.mp hc).imp_right (continuesWord_of_wellSpelled hname c)
        rcases hchar with rfl | hword
        · decide
        · exact not_isBlank_of_continuesWord hword

end EventScript
