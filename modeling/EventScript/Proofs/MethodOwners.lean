import EventScript.Proofs.Host.Keeping
import EventScript.Proofs.PrivateMethods

namespace EventScript

namespace TypeTable

variable {t t' t'' : TypeTable}

-- Two tables whose types have the same methods, whatever else is new.
structure SameMethods (t t' : TypeTable) : Prop where
  methods_eq : t'.methods = t.methods
  get_eq : ∀ id, (t'.get id).methods = (t.get id).methods

namespace SameMethods

theorem refl (t : TypeTable) : t.SameMethods t := ⟨rfl, fun _ => rfl⟩

theorem trans (h : t.SameMethods t') (h' : t'.SameMethods t'') : t.SameMethods t'' :=
  ⟨h'.methods_eq.trans h.methods_eq, fun id => (h'.get_eq id).trans (h.get_eq id)⟩

theorem push {d : TypeDef} {h : ∀ a ∈ d.shape.arguments, a.index < t.size} (hd : d.methods = []) :
    t.SameMethods (t.push d h) where
  methods_eq := rfl
  get_eq id := by
    rw [get_push]
    split
    · rename_i hi
      rw [hd, get_of_not_contains (by omega)]
      rfl
    · rfl

theorem modify {id : TypeId} {f : TypeDef → TypeDef} {h : ∀ d, (f d).shape = d.shape}
    (hf : ∀ d, (f d).methods = d.methods) : t.SameMethods (t.modify id f h) :=
  ⟨rfl, get_modify_keeps (·.methods) hf⟩

theorem lasting (t : TypeTable) : Lasting t.SameMethods where
  push _ hs hd := hs.trans (.push hd.methods_eq)
  modify _ _ hs _ hf := hs.trans (.modify hf)

end SameMethods

end TypeTable

namespace Building

-- Whatever comes of the step, all types have the methods that they had.
def KeepsMethods {α : Type} (m : Building α) : Prop :=
  ∀ t : TypeTable, t.SameMethods (outcome m t).2

end Building

-- Every call but one that adds a method.
theorem BuildStep.keepsMethods (s : BuildStep) (limit : Nat)
    (h : ∀ declaring spec, s ≠ .addMethod declaring spec) : Building.KeepsMethods (s.run limit) :=
  fun t => s.keeps (TypeTable.SameMethods.lasting t) limit h t (.refl t)

namespace TypeTable

variable {t t' : TypeTable} {declaring : TypeId}

-- Every method belongs to the one type that declares it, and stands there once.
structure OwnsMethods (t : TypeTable) : Prop where
  declaring_eq : ∀ {owner : TypeId} {id : MethodId}, id ∈ (t.get owner).methods →
    (t.method id).declaring = owner
  nodup : ∀ owner : TypeId, (t.get owner).methods.Nodup

namespace OwnsMethods

theorem initial : OwnsMethods .initial := by
  have hnone (owner : TypeId) : (TypeTable.initial.get owner).methods = [] := by
    by_cases hc : TypeTable.initial.contains owner
    · exact (closed_wellKnown _ (mem_wellKnown_of_contains hc)).2
    · rw [get_of_not_contains (by simpa using hc)]
      rfl
  constructor
  · intro owner id hid
    rw [hnone owner] at hid
    cases hid
  · intro owner
    rw [hnone owner]
    exact List.nodup_nil

theorem of_same (h : t.OwnsMethods) (hs : t.SameMethods t') : t'.OwnsMethods := by
  constructor
  · intro owner id hid
    rw [hs.get_eq] at hid
    rw [method, hs.methods_eq]
    exact h.declaring_eq hid
  · intro owner
    rw [hs.get_eq]
    exact h.nodup owner

-- A new method has a number that no type has had before.
theorem withMethod (h : t.OwnsMethods) (hw : t.WellFormed) (hc : t.contains declaring)
    {m : MethodDef} (hm : m.declaring = declaring) : (t.withMethod declaring m).OwnsMethods := by
  have hold {owner : TypeId} {id : MethodId} (hid : id ∈ (t.get owner).methods) :
      id.index ≠ t.methods.size := Nat.ne_of_lt (index_lt_of_mem_methods hw hid)
  constructor
  · intro owner id hid
    rw [get_withMethod hc] at hid
    rw [method_withMethod]
    split at hid
    · rename_i ho
      rcases List.mem_append.mp hid with hid | hid
      · rw [if_neg (hold hid)]
        exact h.declaring_eq hid
      · rw [List.mem_singleton.mp hid, if_pos rfl, hm, ho]
    · rw [if_neg (hold hid)]
      exact h.declaring_eq hid
  · intro owner
    rw [get_withMethod hc]
    split
    · refine List.nodup_append.mpr ⟨h.nodup owner, List.nodup_singleton _, ?_⟩
      rintro id hid other hnew rfl
      exact hold hid (congrArg MethodId.index (List.mem_singleton.mp hnew))
    · exact h.nodup owner

open Building in
theorem addMethod {spec : MethodSpec} {id : MethodId} (h : t.OwnsMethods) (hw : t.WellFormed)
    (hrun : outcome (Building.addMethod declaring spec) t = (.ok id, t')) : t'.OwnsMethods := by
  obtain ⟨hc, hrun⟩ := (Guards.check declaring).of_ok hrun
  obtain ⟨-, hrun⟩ := (Guards.check spec.returns).of_ok hrun
  obtain ⟨-, hrun⟩ := (Guards.forM_check spec.parameters).of_ok hrun
  cases hrun
  exact h.withMethod hw hc rfl

end OwnsMethods

-- By induction on the calls that have led to the table.
open Building in
theorem Reached.ownsMethods (h : t.Reached) : t.OwnsMethods := by
  induction h with
  | initial => exact .initial
  | @step t t' answer s limit hbefore hrun hdeep ih =>
      obtain ⟨hw, -⟩ := hbefore.wellFormed
      by_cases hadd : ∃ declaring spec, s = .addMethod declaring spec
      · obtain ⟨declaring, spec, rfl⟩ := hadd
        rcases hfirst : outcome (Building.addMethod declaring spec) t with ⟨e | id, t₁⟩
        · obtain ⟨rfl, rfl⟩ := Prod.mk.inj ((outcome_bind_error hfirst).symm.trans hrun)
          obtain rfl := (hbefore.consistent.unchanged _ limit e _ hrun).resolve_left (hdeep e rfl)
          exact ih
        · obtain ⟨-, rfl⟩ := Prod.mk.inj ((outcome_bind_ok hfirst).symm.trans hrun)
          exact ih.addMethod hw hfirst
      · have hkeeps := s.keepsMethods limit fun declaring spec he => hadd ⟨declaring, spec, he⟩
        have hsame := hkeeps t
        rw [hrun] at hsame
        exact ih.of_same hsame

end TypeTable

end EventScript
