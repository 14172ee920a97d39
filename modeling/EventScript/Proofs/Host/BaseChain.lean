import EventScript.Host.Inheritance
import Mathlib.Data.List.Nodup
import Mathlib.Data.List.Perm.Subperm

namespace EventScript.TypeTable

variable {t : TypeTable}

-- No type derives from itself, however many steps away.
def Acyclic (t : TypeTable) : Prop :=
  WellFounded fun base derived => t.base? derived = some base

-- A walk from a type to its base, to the base of that, and so on, up to a type without a base.
-- Nothing bounds its length, so a walk exists only where following the bases comes to an end.
inductive BaseWalk (t : TypeTable) : TypeId → List TypeId → Prop
  | stop {id : TypeId} : t.base? id = none → BaseWalk t id []
  | step {id base : TypeId} {chain : List TypeId} :
      t.base? id = some base → BaseWalk t base chain → BaseWalk t id (base :: chain)

theorem BaseWalk.unique {id : TypeId} {chain other : List TypeId}
    (h : BaseWalk t id chain) (ho : BaseWalk t id other) : chain = other := by
  induction h generalizing other with
  | stop hb =>
      cases ho with
      | stop => rfl
      | step hb' => simp [hb] at hb'
  | step hb _ ih =>
      cases ho with
      | stop hb' => simp [hb] at hb'
      | step hb' ho =>
          obtain rfl := Option.some.inj (hb.symm.trans hb')
          rw [ih ho]

theorem BaseWalk.of_mem {id member : TypeId} {chain : List TypeId}
    (h : BaseWalk t id chain) (hm : member ∈ chain) :
    ∃ rest, BaseWalk t member rest ∧ rest.length < chain.length := by
  induction h with
  | stop => simp at hm
  | @step _ base chain _ hw ih =>
      rcases List.mem_cons.mp hm with rfl | hm
      · exact ⟨chain, hw, by simp⟩
      · obtain ⟨rest, hr, hl⟩ := ih hm
        exact ⟨rest, hr, Nat.lt_trans hl (by simp)⟩

-- A walk that came back to its start would have to be shorter than itself.
theorem BaseWalk.not_mem {id : TypeId} {chain : List TypeId} (h : BaseWalk t id chain) :
    id ∉ chain := by
  intro hm
  obtain ⟨rest, hr, hl⟩ := h.of_mem hm
  rw [hr.unique h] at hl
  exact Nat.lt_irrefl _ hl

theorem BaseWalk.nodup {id : TypeId} {chain : List TypeId} (h : BaseWalk t id chain) :
    (id :: chain).Nodup := by
  induction h with
  | stop => simp
  | step hb hw ih => exact List.nodup_cons.mpr ⟨(BaseWalk.step hb hw).not_mem, ih⟩

theorem index_lt_of_base? {id base : TypeId} (h : t.base? id = some base) :
    id.index < t.size := by
  by_contra hn
  simp [base?, get_of_not_contains hn, default] at h

-- Where bases are older than the types derived from them, no walk can come back.
theorem acyclic_of_bases_older
    (h : ∀ i, i < t.size → ∀ base ∈ t.base? ⟨i⟩, base.index < i) : t.Acyclic :=
  Subrelation.wf (fun hb => h _ (index_lt_of_base? hb) _ hb)
    (InvImage.wf TypeId.index Nat.lt_wfRel.wf)

-- Only the last type of a walk can lie outside the table, since all others have a base.
theorem BaseWalk.index_lt {id : TypeId} {chain : List TypeId} (h : BaseWalk t id chain) :
    ∀ member ∈ (id :: chain).dropLast, member.index < t.size := by
  induction h with
  | stop => simp
  | step hb _ ih =>
      intro member hm
      rw [List.dropLast_cons_cons] at hm
      rcases List.mem_cons.mp hm with rfl | hm
      · exact index_lt_of_base? hb
      · exact ih member hm

theorem BaseWalk.length_le {id : TypeId} {chain : List TypeId} (h : BaseWalk t id chain) :
    chain.length ≤ t.size := by
  have hnodup : ((id :: chain).dropLast.map TypeId.index).Nodup :=
    (h.nodup.sublist (List.dropLast_sublist _)).map fun a b hab => by cases a; cases b; simp_all
  have hsub : (id :: chain).dropLast.map TypeId.index ⊆ List.range t.size := by
    intro i hi
    obtain ⟨member, hm, rfl⟩ := List.mem_map.mp hi
    exact List.mem_range.mpr (h.index_lt member hm)
  have hlen := (hnodup.subperm hsub).length_le
  simpa using hlen

theorem BaseWalk.baseChainWithin_eq {id : TypeId} {chain : List TypeId} {bound : Nat}
    (h : BaseWalk t id chain) (hb : chain.length ≤ bound) :
    t.baseChainWithin bound id = chain := by
  induction h generalizing bound with
  | stop hn => cases bound <;> simp [baseChainWithin, hn]
  | step hs _ ih =>
      cases bound with
      | zero => simp at hb
      | succ bound =>
          simp only [baseChainWithin, hs]
          rw [ih (Nat.le_of_succ_le_succ hb)]

theorem BaseWalk.baseChain_eq {id : TypeId} {chain : List TypeId} (h : BaseWalk t id chain) :
    t.baseChain id = chain :=
  h.baseChainWithin_eq h.length_le

-- Without circles every walk ends by itself, and the chain is the whole of it: the bound on its
-- length is never what stops it.
theorem Acyclic.baseWalk (h : t.Acyclic) (id : TypeId) : BaseWalk t id (t.baseChain id) := by
  have hex : ∃ chain, BaseWalk t id chain := by
    induction id using h.induction with
    | _ id ih =>
        cases hb : t.base? id with
        | none => exact ⟨[], .stop hb⟩
        | some base =>
            obtain ⟨chain, hw⟩ := ih base hb
            exact ⟨base :: chain, .step hb hw⟩
  obtain ⟨chain, hw⟩ := hex
  rwa [hw.baseChain_eq]

end EventScript.TypeTable
