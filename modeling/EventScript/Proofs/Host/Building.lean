import EventScript.Proofs.Host.TypeTable

namespace EventScript

def TypeError.IsTooDeep : TypeError → Prop
  | .nestedTooDeep _ => True
  | _ => False

namespace Building

open TypeTable

variable {α β : Type} {t : TypeTable} {P : Prop} {Q : α → TypeTable → Prop}
  {R : β → TypeTable → Prop}

-- What a step answers to a table, and what it leaves of it.
def outcome (m : Building α) (t : TypeTable) : Except TypeError α × TypeTable := m.run.run t

theorem outcome_bind (m : Building α) (f : α → Building β) (t : TypeTable) :
    outcome (m >>= f) t = match outcome m t with
      | (.ok a, t') => outcome (f a) t'
      | (.error e, t') => (.error e, t') := by
  unfold outcome
  rw [ExceptT.run_bind, StateT.run_bind]
  generalize m.run.run t = result
  rcases result with ⟨_ | _, _⟩ <;> rfl

theorem outcome_bind_ok {m : Building α} {f : α → Building β} {a : α} {t' : TypeTable}
    (h : outcome m t = (.ok a, t')) : outcome (m >>= f) t = outcome (f a) t' := by
  rw [outcome_bind, h]

theorem outcome_bind_error {m : Building α} {f : α → Building β} {e : TypeError} {t' : TypeTable}
    (h : outcome m t = (.error e, t')) : outcome (m >>= f) t = (.error e, t') := by
  rw [outcome_bind, h]

-- The step comes through and leaves a well-formed table, unless instances nest too deep.
def Succeeds (t : TypeTable) (m : Building α) (Q : α → TypeTable → Prop) : Prop :=
  (∃ a t', outcome m t = (.ok a, t') ∧ t'.WellFormed ∧ t.GrowsTo t' ∧ Q a t') ∨
    ∃ e t', outcome m t = (.error e, t') ∧ e.IsTooDeep

-- The step comes through or leaves the table as it was, unless instances nest too deep.
def Atomic (t : TypeTable) (m : Building α) : Prop :=
  (∃ a t', outcome m t = (.ok a, t') ∧ t'.WellFormed ∧ t.GrowsTo t') ∨
    ∃ e t', outcome m t = (.error e, t') ∧ (e.IsTooDeep ∨ t' = t)

-- The step only tells whether something holds.
def Guards (t : TypeTable) (m : Building Unit) (P : Prop) : Prop :=
  P ∧ outcome m t = (.ok (), t) ∨ ¬P ∧ ∃ e, outcome m t = (.error e, t)

namespace Guards

theorem check (id : TypeId) : Guards t (check id) (t.contains id) := by
  have h : outcome (Building.check id) t =
      outcome (if t.contains id then Pure.pure () else throw (.unknownType id)) t := rfl
  by_cases hc : t.contains id
  · exact .inl ⟨hc, by rw [h, if_pos hc]; rfl⟩
  · exact .inr ⟨hc, _, by rw [h, if_neg hc]; rfl⟩

theorem forM_check (ids : List TypeId) :
    Guards t (ids.forM Building.check) (∀ a ∈ ids, t.contains a) := by
  induction ids with
  | nil => exact .inl ⟨by simp, rfl⟩
  | cons id ids ih =>
      change Guards t (Building.check id >>= fun _ => ids.forM Building.check) _
      rcases check (t := t) id with ⟨hc, ho⟩ | ⟨hc, e, ho⟩
      · rcases ih with ⟨hcs, hos⟩ | ⟨hcs, e, hos⟩
        · exact .inl ⟨List.forall_mem_cons.mpr ⟨hc, hcs⟩, (outcome_bind_ok ho).trans hos⟩
        · exact .inr ⟨fun h => hcs (List.forall_mem_cons.mp h).2, e, (outcome_bind_ok ho).trans hos⟩
      · exact .inr ⟨fun h => hc (List.forall_mem_cons.mp h).1, e, outcome_bind_error ho⟩

theorem checkNewName (home name : String) (arity : Nat) :
    Guards t (checkNewName home name arity) (t.find? home name arity = none) := by
  have h : outcome (Building.checkNewName home name arity) t =
      outcome (if (t.find? home name arity).isSome then throw (.duplicateType home name)
        else Pure.pure ()) t := rfl
  cases hf : t.find? home name arity with
  | none => exact .inl ⟨rfl, by rw [h, hf]; rfl⟩
  | some id => exact .inr ⟨by simp, .duplicateType home name, by rw [h, hf]; rfl⟩

end Guards

namespace Succeeds

theorem pure {a : α} (hw : t.WellFormed) (hq : Q a t) : Succeeds t (pure a) Q :=
  .inl ⟨a, t, rfl, hw, .refl t, hq⟩

theorem imp {Q' : α → TypeTable → Prop} {m : Building α} (h : Succeeds t m Q)
    (hq : ∀ a t', t'.WellFormed → Q a t' → Q' a t') : Succeeds t m Q' := by
  rcases h with ⟨a, t', ho, hw, hg, ha⟩ | h
  · exact .inl ⟨a, t', ho, hw, hg, hq a t' hw ha⟩
  · exact .inr h

theorem bind {m : Building α} {f : α → Building β} (hm : Succeeds t m Q)
    (hf : ∀ a t', t'.WellFormed → t.GrowsTo t' → Q a t' → Succeeds t' (f a) R) :
    Succeeds t (m >>= f) R := by
  rcases hm with ⟨a, t', ho, hw, hg, hq⟩ | ⟨e, t', ho, he⟩
  · rcases hf a t' hw hg hq with ⟨b, t'', ho', hw', hg', hr⟩ | ⟨e, t'', ho', he⟩
    · exact .inl ⟨b, t'', (outcome_bind_ok ho).trans ho', hw', hg.trans hg', hr⟩
    · exact .inr ⟨e, t'', (outcome_bind_ok ho).trans ho', he⟩
  · exact .inr ⟨e, t', outcome_bind_error ho, he⟩

theorem get {f : TypeTable → Building β} (h : Succeeds t (f t) R) :
    Succeeds t (get >>= f) R := h

theorem guard {m : Building Unit} {f : Unit → Building β} (hm : Guards t m P) (hp : P)
    (hf : Succeeds t (f ()) R) : Succeeds t (m >>= f) R := by
  rcases hm with ⟨-, ho⟩ | ⟨hn, -⟩
  · unfold Succeeds
    rwa [outcome_bind_ok ho]
  · exact absurd hp hn

end Succeeds

namespace Atomic

theorem of_succeeds {m : Building α} (h : Succeeds t m Q) : Atomic t m := by
  rcases h with ⟨a, t', ho, hw, hg, -⟩ | ⟨e, t', ho, he⟩
  · exact .inl ⟨a, t', ho, hw, hg⟩
  · exact .inr ⟨e, t', ho, .inl he⟩

-- A step that begins by a check has done nothing yet when the check fails.
theorem guard {m : Building Unit} {f : Unit → Building β} (hm : Guards t m P)
    (hf : P → Atomic t (f ())) : Atomic t (m >>= f) := by
  rcases hm with ⟨hp, ho⟩ | ⟨-, e, ho⟩
  · unfold Atomic
    rw [outcome_bind_ok ho]
    exact hf hp
  · exact .inr ⟨e, t, outcome_bind_error ho, .inr rfl⟩

end Atomic

-- Whenever the step comes through, it leads from a table to one that is so related to it.
def Leads (Related : TypeTable → TypeTable → Prop) (m : Building α) : Prop :=
  ∀ t a t', outcome m t = (.ok a, t') → Related t t'

namespace Leads

variable {Related : TypeTable → TypeTable → Prop}

theorem pure (hrefl : ∀ t, Related t t) (a : α) : Leads Related (pure a) := by
  rintro t _ _ ho
  obtain rfl := (Prod.mk.inj ho).2
  exact hrefl t

theorem bind {m : Building α} {f : α → Building β}
    (htrans : ∀ t t' t'', Related t t' → Related t' t'' → Related t t'')
    (hm : Leads Related m) (hf : ∀ a, Leads Related (f a)) : Leads Related (m >>= f) := by
  intro t b t'' ho
  rw [outcome_bind] at ho
  split at ho
  · rename_i a t' hfirst
    exact htrans t t' t'' (hm t a t' hfirst) (hf a t' b t'' ho)
  · cases (Prod.mk.inj ho).1

theorem of_guards {m : Building Unit} {P : TypeTable → Prop} (hrefl : ∀ t, Related t t)
    (h : ∀ t, Guards t m (P t)) : Leads Related m := by
  intro t a t' ho
  rcases h t with ⟨-, ho'⟩ | ⟨-, e, ho'⟩
  · rw [ho'] at ho
    obtain rfl := (Prod.mk.inj ho).2
    exact hrefl t
  · rw [ho'] at ho
    cases (Prod.mk.inj ho).1

end Leads

-- The step fails before it does anything, or because instances nest too deep.
def Refuses (t : TypeTable) (m : Building α) : Prop :=
  ∃ e t', outcome m t = (.error e, t') ∧ (e.IsTooDeep ∨ t' = t)

theorem Refuses.guard {m : Building Unit} {f : Unit → Building β} (hm : Guards t m P)
    (hf : P → Refuses t (f ())) : Refuses t (m >>= f) := by
  rcases hm with ⟨hp, ho⟩ | ⟨-, e, ho⟩
  · unfold Refuses
    rw [outcome_bind_ok ho]
    exact hf hp
  · exact ⟨e, t, outcome_bind_error ho, .inr rfl⟩

theorem Refuses.get {f : TypeTable → Building β} (hf : Refuses t (f t)) :
    Refuses t (get >>= f) := hf

section Members

variable {id : TypeId} {f : TypeDef → TypeDef} {h : ∀ d, (f d).shape = d.shape}

-- A change that names nothing but what the type has named before or the table contains.
theorem succeeds_change (hw : t.WellFormed) (hc : t.contains id)
    (hname : ∀ d, (f d).kind = d.kind ∧ (f d).home = d.home ∧ (f d).name = d.name)
    (hmentioned : ∀ d, ∀ a ∈ (f d).mentioned, a ∈ d.mentioned ∨ t.contains a)
    (hmethods : ∀ d, ∀ m ∈ (f d).methods, m ∈ d.methods ∨ t.containsMethod m) :
    Succeeds t (change id f h) fun _ t' => t' = t.modify id f h := by
  refine .inl ⟨(), _, rfl, hw.modify hc hname ?_ ?_, growsTo_modify hc fun d => (hname d).1, rfl⟩
  · intro a ha
    rcases hmentioned _ a ha with ha | ha
    · exact contains_iff.mpr (hw.mentioned_lt hc ha)
    · exact ha
  · intro m hm
    rcases hmethods _ m hm with hm | hm
    · exact hw.containsMethod_of_mem hc hm
    · exact hm

theorem atomic_setBase (hw : t.WellFormed) (id base : TypeId) : Atomic t (setBase id base) := by
  refine Atomic.guard (Guards.check id) fun hc => Atomic.guard (Guards.check base) fun hb => ?_
  refine Atomic.of_succeeds (succeeds_change hw hc (fun _ => ⟨rfl, rfl, rfl⟩) ?_ ?_)
  · intro d a ha
    simp only [TypeDef.mem_mentioned, Option.some.injEq] at ha ⊢
    rcases ha with ha | rfl | ha
    · exact .inl (.inl ha)
    · exact .inr hb
    · exact .inl (.inr (.inr ha))
  · exact fun d m hm => .inl hm

theorem atomic_addInterface (hw : t.WellFormed) (id «interface» : TypeId) :
    Atomic t (addInterface id «interface») := by
  refine Atomic.guard (Guards.check id) fun hc => Atomic.guard (Guards.check _) fun hi => ?_
  refine Atomic.of_succeeds (succeeds_change hw hc (fun _ => ⟨rfl, rfl, rfl⟩) ?_ ?_)
  · intro d a ha
    by_cases hmem : «interface» ∈ d.interfaces
    · simp only [hmem, if_true] at ha
      exact .inl ha
    · simp only [hmem, if_false, TypeDef.mem_mentioned, List.mem_append, List.mem_singleton]
        at ha ⊢
      rcases ha with ha | ha | (ha | rfl) | ha
      · exact .inl (.inl ha)
      · exact .inl (.inr (.inl ha))
      · exact .inl (.inr (.inr (.inl ha)))
      · exact .inr hi
      · exact .inl (.inr (.inr (.inr ha)))
  · exact fun d m hm => .inl hm

theorem atomic_setPublic (hw : t.WellFormed) (id : TypeId) (isPublic : Bool) :
    Atomic t (setPublic id isPublic) := by
  refine Atomic.guard (Guards.check id) fun hc => ?_
  refine Atomic.of_succeeds (succeeds_change hw hc (fun _ => ⟨rfl, rfl, rfl⟩) ?_ ?_)
  · exact fun d a ha => .inl ha
  · exact fun d m hm => .inl hm

theorem atomic_addProperty (hw : t.WellFormed) (id : TypeId) (name : String) (type : TypeId)
    (isStatic : Bool) : Atomic t (addProperty id name type isStatic) := by
  refine Atomic.guard (Guards.check id) fun hc => Atomic.guard (Guards.check type) fun ht => ?_
  refine Atomic.of_succeeds (succeeds_change hw hc (fun _ => ⟨rfl, rfl, rfl⟩) ?_ ?_)
  · intro d a ha
    simp only [TypeDef.mem_mentioned, List.mem_append, List.mem_singleton] at ha ⊢
    rcases ha with ha | ha | ha | ⟨p, hp | rfl, rfl⟩
    · exact .inl (.inl ha)
    · exact .inl (.inr (.inl ha))
    · exact .inl (.inr (.inr (.inl ha)))
    · exact .inl (.inr (.inr (.inr ⟨p, hp, rfl⟩)))
    · exact .inr ht
  · exact fun d m hm => .inl hm

theorem succeeds_pushMethod {m : MethodDef} (hw : t.WellFormed)
    (hm : ∀ a ∈ m.mentioned, t.contains a) :
    Succeeds t (pushMethod m) fun k t' => t'.containsMethod k := by
  refine .inl ⟨⟨t.methods.size⟩, _, rfl, hw.pushMethod hm, growsTo_pushMethod, ?_⟩
  simp [TypeTable.pushMethod]

theorem atomic_addMethod (hw : t.WellFormed) (declaring : TypeId) (spec : MethodSpec) :
    Atomic t (addMethod declaring spec) := by
  refine Atomic.guard (Guards.check declaring) fun hc => ?_
  refine Atomic.guard (Guards.check spec.returns) fun hr => ?_
  refine Atomic.guard (Guards.forM_check spec.parameters) fun hp => ?_
  have hm : ∀ a ∈ declaring :: spec.returns :: spec.parameters, t.contains a :=
    List.forall_mem_cons.mpr ⟨hc, List.forall_mem_cons.mpr ⟨hr, hp⟩⟩
  refine Atomic.of_succeeds (Q := fun _ _ => True) ?_
  refine (succeeds_pushMethod hw ?_).bind fun k t' hw' hg hk => ?_
  · exact hm
  refine Succeeds.bind (succeeds_change hw' (hg.contains hc) (fun _ => ⟨rfl, rfl, rfl⟩) ?_ ?_)
    fun _ _ hw'' _ _ => Succeeds.pure hw'' trivial
  · exact fun d a ha => .inl ha
  · intro d m hm
    rcases List.mem_append.mp hm with hm | hm
    · exact .inl hm
    · rw [List.mem_singleton.mp hm]
      exact .inr hk

end Members

section Definitions

-- A name that is not found can be given to a type, since all named types are in the index.
theorem lookup_names_of_find?_eq_none {home name : String} {arity : Nat}
    (h : t.find? home name arity = none) {d : TypeDef} (hh : d.home = some home)
    (hn : d.name = name) (ha : d.arity = arity) : t.names.lookup d.lookupName = none := by
  rw [TypeDef.lookupName, hh, hn, ha]
  exact h

theorem contains_of_defaultBase (ho : t.contains .object) {kind : TypeKind} {a : TypeId}
    (h : defaultBase kind = some a) : t.contains a := by
  unfold defaultBase at h
  split at h
  · rwa [← Option.some.inj h]
  · cases h

theorem atomic_define (hw : t.WellFormed) (ho : t.contains .object) (home name : String)
    (kind : TypeKind) : Atomic t (define home name kind) := by
  refine Atomic.guard (Guards.checkNewName home name 0) fun hn => ?_
  let d : TypeDef := { home := some home, name, kind, base := defaultBase kind }
  have hd : ∀ a ∈ d.mentioned, a.index < t.size := by
    intro a ha
    rcases TypeDef.mem_mentioned.mp ha with ha | ha | ha | ⟨p, hp, -⟩
    · cases ha
    · exact contains_iff.mp (contains_of_defaultBase ho ha)
    · cases ha
    · cases hp
  have hargs : ∀ a ∈ d.shape.arguments, a.index < t.size := fun a ha => by cases ha
  have hpush : (t.push d hargs).WellFormedBelow t.size :=
    hw.push hd rfl (fun _ _ hs => by cases hs)
      (fun _ => lookup_names_of_find?_eq_none hn rfl rfl rfl)
  exact .inl ⟨_, _, rfl, hpush.mono (by simp), growsTo_push⟩

-- Parameters are pushed one after the other; they have no names to be looked up by.
theorem outcome_addParameters {bound : Nat} (hw : t.WellFormedBelow bound) (position : Nat)
    (names : List String) :
    ∃ t', outcome (addParameters position names) t = (.ok (), t') ∧ t'.WellFormedBelow bound ∧
      t.GrowsTo t' ∧ t'.size = t.size + names.length := by
  induction names generalizing t position with
  | nil => exact ⟨t, rfl, hw, .refl t, rfl⟩
  | cons name names ih =>
      let d : TypeDef := { home := none, name, kind := .genericParameter position }
      have hargs : ∀ a ∈ d.shape.arguments, a.index < t.size := fun a ha => by cases ha
      have hpush : (t.push d hargs).WellFormedBelow bound :=
        hw.push (fun _ ha => by simp [d, TypeDef.mem_mentioned, GenericShape.mentioned] at ha) rfl
          (fun _ _ hs => by cases hs) (fun hn => by cases hn)
      obtain ⟨t', ho, hw', hg, hs⟩ := ih hpush (position + 1)
      refine ⟨t', ho, hw', growsTo_push.trans hg, ?_⟩
      rw [hs, size_push, List.length_cons]
      omega

-- The definition refers to its parameters before they are there, and to none of them after.
theorem atomic_defineGeneric (hw : t.WellFormed) (ho : t.contains .object) (home name : String)
    (kind : TypeKind) (parameters : List String) :
    Atomic t (defineGeneric home name kind parameters) := by
  refine Atomic.guard (Guards.checkNewName home name parameters.length) fun hn => ?_
  let ids := (List.range parameters.length).map fun i => (⟨t.size + 1 + i⟩ : TypeId)
  let d : TypeDef := {
    home := some home, name, kind, shape := .definition ids, base := defaultBase kind }
  have hd : ∀ a ∈ d.mentioned, a.index < t.size + 1 + parameters.length := by
    intro a ha
    rcases TypeDef.mem_mentioned.mp ha with ha | ha | ha | ⟨p, hp, -⟩
    · obtain ⟨i, hi, rfl⟩ := List.mem_map.mp ha
      have := List.mem_range.mp hi
      dsimp only
      omega
    · have := contains_iff.mp (contains_of_defaultBase ho ha)
      omega
    · cases ha
    · cases hp
  have harity : d.arity = parameters.length := by
    simp [d, ids, TypeDef.arity, GenericShape.parameters]
  have hargs : ∀ a ∈ d.shape.arguments, a.index < t.size := fun a ha => by cases ha
  have hpush : (t.push d hargs).WellFormedBelow
      (t.size + 1 + parameters.length) :=
    (hw.mono (by omega)).push hd rfl (fun _ _ hs => by cases hs)
      (fun _ => lookup_names_of_find?_eq_none hn rfl rfl harity)
  obtain ⟨t', ho', hw', hg, hs⟩ := outcome_addParameters hpush 0 parameters
  refine .inl ⟨⟨t.size⟩, t', ?_, ?_, growsTo_push.trans hg⟩
  · have hadd : outcome (add d rfl) t = (.ok ⟨t.size⟩, t.push d hargs) := rfl
    change outcome (do let id ← add d rfl; addParameters 0 parameters; return id) t = _
    refine (outcome_bind_ok hadd).trans ?_
    exact (outcome_bind_ok ho').trans rfl
  · rw [WellFormed, hs, size_push]
    exact hw'

end Definitions

end Building

end EventScript
