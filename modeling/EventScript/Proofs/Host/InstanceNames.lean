import EventScript.Proofs.Host.Keeping
import EventScript.Proofs.Host.NamedTypes

namespace EventScript

open Building

namespace TypeTable

variable {t t' : TypeTable} {id definition : TypeId} {arguments : List TypeId}

-- Instances go by the names of their definitions, and these are in a namespace.
structure NamesInstances (t : TypeTable) : Prop where
  name_of_instance : ∀ {id definition : TypeId} {arguments : List TypeId},
    (t.get id).shape = .instanceOf definition arguments → t.contains definition ∧
      (t.get id).home = (t.get definition).home ∧ (t.get id).name = (t.get definition).name
  home_of_definition : ∀ {id : TypeId} {parameters : List TypeId},
    (t.get id).shape = .definition parameters → (t.get id).home.isSome

namespace NamesInstances

theorem fullName_of_instance (h : t.NamesInstances)
    (hs : (t.get id).shape = .instanceOf definition arguments) :
    (t.get id).fullName = (t.get definition).fullName := by
  obtain ⟨-, hhome, hname⟩ := h.name_of_instance hs
  rw [TypeDef.fullName, TypeDef.fullName, hhome, hname]

theorem initial : NamesInstances .initial := by
  have hall : ∀ d ∈ wellKnown, d.shape = .plain ∨
      d.shape = .definition d.shape.parameters ∧ d.home.isSome := by decide
  have hget (id : TypeId) : (TypeTable.initial.get id).shape = .plain ∨
      (TypeTable.initial.get id).shape =
          .definition (TypeTable.initial.get id).shape.parameters ∧
        (TypeTable.initial.get id).home.isSome := by
    by_cases hc : TypeTable.initial.contains id
    · exact hall _ (mem_wellKnown_of_contains hc)
    · rw [get_of_not_contains (by simpa using hc)]
      exact .inl rfl
  constructor
  case name_of_instance =>
    intro id definition arguments hs
    rcases hget id with hplain | ⟨hdefinition, -⟩
    · cases hplain.symm.trans hs
    · cases hdefinition.symm.trans hs
  case home_of_definition =>
    intro id parameters hs
    rcases hget id with hplain | ⟨-, hhome⟩
    · cases hplain.symm.trans hs
    · exact hhome

theorem push {d : TypeDef} {h : ∀ a ∈ d.shape.arguments, a.index < t.size}
    (ht : t.NamesInstances) (hd : t.Admits d) : (t.push d h).NamesInstances := by
  constructor
  case name_of_instance =>
    intro id definition arguments hs
    rw [get_push] at hs ⊢
    by_cases hi : id.index = t.size
    · rw [if_pos hi] at hs ⊢
      obtain ⟨hc, rfl⟩ := hd.applied definition arguments hs
      rw [get_push_of_contains hc]
      exact ⟨growsTo_push.contains hc, rfl, rfl⟩
    · rw [if_neg hi] at hs ⊢
      obtain ⟨hc, hnames⟩ := ht.name_of_instance hs
      rw [get_push_of_contains hc]
      exact ⟨growsTo_push.contains hc, hnames⟩
  case home_of_definition =>
    intro id parameters hs
    rw [get_push] at hs ⊢
    by_cases hi : id.index = t.size
    · rw [if_pos hi] at hs ⊢
      exact hd.home_of_definition parameters hs
    · rw [if_neg hi] at hs ⊢
      exact ht.home_of_definition hs

theorem modify {f : TypeDef → TypeDef} {h : ∀ d, (f d).shape = d.shape} (ht : t.NamesInstances)
    (hf : ∀ d, (f d).home = d.home ∧ (f d).name = d.name) (id : TypeId) :
    (t.modify id f h).NamesInstances := by
  have hshape (other : TypeId) : ((t.modify id f h).get other).shape = (t.get other).shape :=
    get_modify_keeps (·.shape) h other
  have hhome (other : TypeId) : ((t.modify id f h).get other).home = (t.get other).home :=
    get_modify_keeps (·.home) (fun d => (hf d).1) other
  have hname (other : TypeId) : ((t.modify id f h).get other).name = (t.get other).name :=
    get_modify_keeps (·.name) (fun d => (hf d).2) other
  constructor
  case name_of_instance =>
    intro other definition arguments hs
    rw [hshape] at hs
    rw [hhome, hhome, hname, hname, contains_modify]
    exact ht.name_of_instance hs
  case home_of_definition =>
    intro other parameters hs
    rw [hshape] at hs
    rw [hhome]
    exact ht.home_of_definition hs

theorem lasting : Lasting NamesInstances where
  push _ ht hd := ht.push hd
  modify id _ ht hf _ := ht.modify hf id

theorem keeps_addMethod (declaring : TypeId) (spec : MethodSpec) (t : TypeTable) :
    Keeps NamesInstances t (addMethod declaring spec) := by
  refine .guard (Guards.check declaring) fun _ => .guard (Guards.check spec.returns) fun _ => ?_
  refine .guard (Guards.forM_check spec.parameters) fun _ => .bind ?_ fun id t' => ?_
  · exact fun ht => ⟨ht.name_of_instance, ht.home_of_definition⟩
  · refine .bind (fun ht => ?_) fun _ _ => .pure id
    exact NamesInstances.modify (f := fun d => { d with methods := d.methods ++ [id] })
      (h := fun _ => rfl) ht (fun _ => ⟨rfl, rfl⟩) declaring

end NamesInstances

-- By induction on the calls that have led to the table.
theorem Reached.namesInstances (h : t.Reached) : t.NamesInstances := by
  induction h with
  | initial => exact .initial
  | @step t t' answer s limit _ hrun _ ih =>
      have hkeeps : Keeps NamesInstances t (s.run limit) := by
        by_cases hadd : ∃ declaring spec, s = .addMethod declaring spec
        · obtain ⟨declaring, spec, rfl⟩ := hadd
          exact (NamesInstances.keeps_addMethod declaring spec t).discard
        · refine s.keeps NamesInstances.lasting limit (fun declaring spec he => ?_) t
          exact hadd ⟨declaring, spec, he⟩
      have ht := hkeeps ih
      rwa [hrun] at ht

end TypeTable

end EventScript
