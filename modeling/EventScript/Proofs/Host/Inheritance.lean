import EventScript.Proofs.Host.BaseChain
import Mathlib.Data.Fintype.Pigeonhole
import Mathlib.Logic.Relation

namespace EventScript.TypeTable

open Relation

variable {t : TypeTable} {id base face target mid source : TypeId} {found pending : List TypeId}

-- One step up, from a type to its base.
def Derives (t : TypeTable) (id base : TypeId) : Prop := t.base? id = some base

-- One step up, from a type to an interface that it names itself.
def Names (t : TypeTable) (id face : TypeId) : Prop := face ∈ (t.get id).interfaces

-- The type that so many steps up from base to base lead to.
def ancestor? (t : TypeTable) : Nat → TypeId → Option TypeId
  | 0, id => some id
  | steps + 1, id => (t.base? id).bind (t.ancestor? steps)

theorem ancestor?_add (first second : Nat) (id : TypeId) :
    t.ancestor? (first + second) id = (t.ancestor? first id).bind (t.ancestor? second) := by
  induction first generalizing id with
  | zero => rw [Nat.zero_add, ancestor?, Option.bind_some]
  | succ first ih =>
      rw [Nat.add_right_comm, ancestor?, ancestor?, Option.bind_assoc]
      exact congrArg _ (funext ih)

theorem exists_ancestor?_of_le {steps fewer : Nat} (h : t.ancestor? steps id = some base)
    (hle : fewer ≤ steps) : ∃ between, t.ancestor? fewer id = some between ∧
      t.ancestor? (steps - fewer) between = some base := by
  rw [← Nat.add_sub_cancel' hle, ancestor?_add] at h
  exact Option.bind_eq_some_iff.mp h

theorem transGen_derives_iff :
    TransGen t.Derives id base ↔ ∃ steps, t.ancestor? (steps + 1) id = some base := by
  constructor
  · intro h
    induction h using TransGen.head_induction_on with
    | single h =>
        refine ⟨0, ?_⟩
        rw [ancestor?, h]
        rfl
    | head h _ ih =>
        obtain ⟨steps, hs⟩ := ih
        refine ⟨steps + 1, ?_⟩
        rw [ancestor?, h, Option.bind_some, hs]
  · rintro ⟨steps, h⟩
    induction steps generalizing id with
    | zero =>
        obtain ⟨next, hn, hb⟩ := Option.bind_eq_some_iff.mp h
        obtain rfl := Option.some.inj hb
        exact .single hn
    | succ steps ih =>
        obtain ⟨next, hn, hb⟩ := Option.bind_eq_some_iff.mp h
        exact .head hn (ih hb)

theorem mem_baseChainWithin {bound : Nat} :
    base ∈ t.baseChainWithin bound id ↔
      ∃ steps < bound, t.ancestor? (steps + 1) id = some base := by
  induction bound generalizing id with
  | zero => simp [baseChainWithin]
  | succ bound ih =>
      cases hb : t.base? id with
      | none => simp [baseChainWithin, ancestor?, hb]
      | some next =>
          simp only [baseChainWithin, ancestor?, hb, List.mem_cons, ih, Option.bind_some]
          constructor
          · rintro (rfl | ⟨steps, hlt, hs⟩)
            · exact ⟨0, Nat.succ_pos bound, rfl⟩
            · exact ⟨steps + 1, Nat.succ_lt_succ hlt, hs⟩
          · rintro ⟨_ | steps, hlt, hs⟩
            · exact .inl (Option.some.inj hs).symm
            · exact .inr ⟨steps, Nat.lt_of_succ_lt_succ hlt, hs⟩

-- A walk with more steps than there are types comes by one of them twice.
theorem exists_ancestor?_eq {steps : Nat} (h : t.ancestor? (steps + 1) id = some base)
    (hle : t.size ≤ steps) :
    ∃ first second, first < second ∧ second ≤ steps ∧
      t.ancestor? first id = t.ancestor? second id := by
  have hpass (i : Fin (steps + 1)) :
      ∃ passed, t.ancestor? i id = some passed ∧ passed.index < t.size := by
    obtain ⟨passed, hp, hrest⟩ := exists_ancestor?_of_le h (Nat.le_of_lt i.isLt)
    obtain ⟨next, hn, -⟩ := exists_ancestor?_of_le hrest (Nat.sub_pos_of_lt i.isLt)
    obtain ⟨above, hb, -⟩ := Option.bind_eq_some_iff.mp hn
    exact ⟨passed, hp, index_lt_of_base? hb⟩
  choose passed hpassed hlt using hpass
  let index (i : Fin (steps + 1)) : Fin t.size := ⟨(passed i).index, hlt i⟩
  have hcard : Fintype.card (Fin t.size) < Fintype.card (Fin (steps + 1)) := by
    rw [Fintype.card_fin, Fintype.card_fin]
    omega
  obtain ⟨i, j, hne, he⟩ := Fintype.exists_ne_map_eq_of_card_lt index hcard
  have hsame : t.ancestor? i id = t.ancestor? j id := by
    have hindex : (passed i).index = (passed j).index := congrArg Fin.val he
    rw [hpassed i, hpassed j]
    exact congrArg (fun index => some (⟨index⟩ : TypeId)) hindex
  rcases Nat.lt_or_gt_of_ne fun hv => hne (Fin.ext hv) with hij | hji
  · exact ⟨i, j, hij, Nat.le_of_lt_succ j.isLt, hsame⟩
  · exact ⟨j, i, hji, Nat.le_of_lt_succ i.isLt, hsame.symm⟩

-- What is reached at all is reached in no more steps than there are types: the circle between two
-- visits of one type can be left out.
theorem exists_ancestor?_lt_size {steps : Nat} (h : t.ancestor? (steps + 1) id = some base) :
    ∃ fewer < t.size, t.ancestor? (fewer + 1) id = some base := by
  induction steps using Nat.strongRecOn with
  | ind steps ih =>
      by_cases hlt : steps < t.size
      · exact ⟨steps, hlt, h⟩
      obtain ⟨first, second, hfs, hss, he⟩ := exists_ancestor?_eq h (Nat.le_of_not_lt hlt)
      have hshort : t.ancestor? (first + (steps - second) + 1) id = some base := by
        obtain ⟨between, hb, hrest⟩ := exists_ancestor?_of_le h (Nat.le_succ_of_le hss)
        rw [Nat.add_assoc, ancestor?_add, he, hb, Option.bind_some, ← hrest]
        congr 1
        omega
      exact ih _ (by omega) hshort

-- The chain holds what the bases lead to, also where they lead in a circle.
theorem mem_baseChain_iff : base ∈ t.baseChain id ↔ TransGen t.Derives id base := by
  rw [baseChain, mem_baseChainWithin, transGen_derives_iff]
  constructor
  · rintro ⟨steps, -, hs⟩
    exact ⟨steps, hs⟩
  · rintro ⟨steps, hs⟩
    exact exists_ancestor?_lt_size hs

theorem mem_selfAndBases_iff : base ∈ t.selfAndBases id ↔ ReflTransGen t.Derives id base := by
  rw [selfAndBases, List.mem_cons, mem_baseChain_iff, reflTransGen_iff_eq_or_transGen]

-- The search for interfaces

-- The search loses nothing, and what it has found stays found.
theorem subset_searchInterfaces : found ++ pending ⊆ t.searchInterfaces found pending := by
  induction found, pending using searchInterfaces.induct t with
  | case1 found =>
      rw [searchInterfaces, List.append_nil]
      exact List.Subset.refl found
  | case2 found id rest hm ih =>
      rw [searchInterfaces, if_pos hm]
      intro face hf
      rw [List.mem_append, List.mem_cons] at hf
      rcases hf with hf | rfl | hf
      · exact ih (List.mem_append_left _ hf)
      · exact ih (List.mem_append_left _ hm)
      · exact ih (List.mem_append_right _ hf)
  | case3 found id rest hm ih =>
      rw [searchInterfaces, if_neg hm]
      intro face hf
      refine ih ?_
      simp only [List.mem_append, List.mem_cons, List.not_mem_nil, or_false] at hf ⊢
      rcases hf with hf | rfl | hf
      · exact .inl (.inl hf)
      · exact .inl (.inr rfl)
      · exact .inr (.inr hf)

-- Whatever is found is on the way from something that waits.
theorem mem_searchInterfaces (hf : face ∈ t.searchInterfaces found pending) :
    face ∈ found ∨ ∃ start ∈ pending, ReflTransGen t.Names start face := by
  induction found, pending using searchInterfaces.induct t with
  | case1 found =>
      rw [searchInterfaces] at hf
      exact .inl hf
  | case2 found id rest hm ih =>
      rw [searchInterfaces, if_pos hm] at hf
      exact (ih hf).imp_right fun ⟨start, hs, hr⟩ => ⟨start, List.mem_cons_of_mem _ hs, hr⟩
  | case3 found id rest hm ih =>
      rw [searchInterfaces, if_neg hm] at hf
      rcases ih hf with hold | ⟨start, hs, hr⟩
      · rcases List.mem_append.mp hold with hold | hid
        · exact .inl hold
        · obtain rfl := List.mem_singleton.mp hid
          exact .inr ⟨face, List.mem_cons_self, .refl⟩
      · rcases List.mem_append.mp hs with hown | hs
        · exact .inr ⟨id, List.mem_cons_self, .head hown hr⟩
        · exact .inr ⟨start, List.mem_cons_of_mem _ hs, hr⟩

-- The invariant is that what has been found names only what has been found or waits; in the end
-- nothing waits.
theorem names_mem_searchInterfaces
    (h : ∀ id ∈ found, ∀ face, t.Names id face → face ∈ found ++ pending) :
    ∀ id ∈ t.searchInterfaces found pending, ∀ face, t.Names id face →
      face ∈ t.searchInterfaces found pending := by
  induction found, pending using searchInterfaces.induct t with
  | case1 found =>
      rw [searchInterfaces]
      simpa using h
  | case2 found id rest hm ih =>
      rw [searchInterfaces, if_pos hm]
      refine ih fun other ho face hn => ?_
      have hface := h other ho face hn
      rw [List.mem_append, List.mem_cons] at hface
      rcases hface with hface | rfl | hface
      · exact List.mem_append_left _ hface
      · exact List.mem_append_left _ hm
      · exact List.mem_append_right _ hface
  | case3 found id rest hm ih =>
      rw [searchInterfaces, if_neg hm]
      refine ih fun other ho face hn => ?_
      rcases List.mem_append.mp ho with ho | hid
      · have hface := h other ho face hn
        simp only [List.mem_append, List.mem_cons, List.not_mem_nil, or_false] at hface ⊢
        rcases hface with hface | rfl | hface
        · exact .inl (.inl hface)
        · exact .inl (.inr rfl)
        · exact .inr (.inr hface)
      · obtain rfl := List.mem_singleton.mp hid
        exact List.mem_append_right _ (List.mem_append_left _ hn)

theorem mem_searchInterfaces_iff :
    face ∈ t.searchInterfaces [] pending ↔ ∃ start ∈ pending, ReflTransGen t.Names start face := by
  constructor
  · intro hf
    exact (mem_searchInterfaces hf).resolve_left List.not_mem_nil
  · rintro ⟨start, hs, hr⟩
    induction hr with
    | refl => exact subset_searchInterfaces hs
    | tail _ hn ih => exact names_mem_searchInterfaces (by simp) _ ih _ hn

-- The interfaces of a type are those to which one or more steps lead from it or from a base of it.
theorem mem_allInterfaces_iff :
    face ∈ t.allInterfaces id ↔ ∃ current, ReflTransGen t.Derives id current ∧
      TransGen t.Names current face := by
  simp only [allInterfaces, mem_searchInterfaces_iff, List.mem_flatMap, mem_selfAndBases_iff]
  constructor
  · rintro ⟨start, ⟨current, hc, hs⟩, hr⟩
    exact ⟨current, hc, .head' hs hr⟩
  · rintro ⟨current, hc, hr⟩
    obtain ⟨start, hs, hr⟩ := TransGen.head'_iff.mp hr
    exact ⟨start, ⟨current, hc, hs⟩, hr⟩

end EventScript.TypeTable
