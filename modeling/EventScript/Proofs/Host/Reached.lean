import EventScript.Proofs.Host.Instantiation

namespace EventScript

open Building

-- One call on a type table.
inductive BuildStep where
  | define (home name : String) (kind : TypeKind)
  | defineGeneric (home name : String) (kind : TypeKind) (parameters : List String)
  | instantiate (definition : TypeId) (arguments : List TypeId)
  | nullableOf (underlying : TypeId)
  | extensibleOf (underlying : TypeId)
  | setBase (id base : TypeId)
  | addInterface (id «interface» : TypeId)
  | setPublic (id : TypeId) (isPublic : Bool)
  | addProperty (id : TypeId) (name : String) (type : TypeId) (isStatic : Bool)
  | addMethod (declaring : TypeId) (spec : MethodSpec)
deriving DecidableEq, Repr

namespace BuildStep

-- The call, with as much room for instances that ask for instances as is given.
def run (limit : Nat) : BuildStep → Building Unit
  | define home name kind => discard (Building.define home name kind)
  | defineGeneric home name kind parameters =>
    discard (Building.defineGeneric home name kind parameters)
  | instantiate definition arguments => discard (instantiateWithin limit definition arguments)
  | nullableOf underlying => discard (instantiateWithin limit .nullable [underlying])
  | extensibleOf underlying => discard (instantiateWithin limit .extensible [underlying])
  | setBase id base => Building.setBase id base
  | addInterface id «interface» => Building.addInterface id «interface»
  | setPublic id isPublic => Building.setPublic id isPublic
  | addProperty id name type isStatic => Building.addProperty id name type isStatic
  | addMethod declaring spec => discard (Building.addMethod declaring spec)

end BuildStep

theorem Building.Atomic.discard {α : Type} {t : TypeTable} {m : Building α} (h : Atomic t m) :
    Atomic t (discard m) := by
  rcases h with ⟨a, t', ho, hw, hg⟩ | ⟨e, t', ho, he⟩
  · exact .inl ⟨(), t', outcome_bind_ok ho, hw, hg⟩
  · exact .inr ⟨e, t', outcome_bind_error ho, he⟩

namespace TypeTable

variable {t t' : TypeTable}

-- The tables that calls lead to from the first one, if no call goes on without an end.
inductive Reached : TypeTable → Prop
  | initial : Reached .initial
  | step {t t' : TypeTable} {answer : Except TypeError Unit} (s : BuildStep) (limit : Nat) :
      Reached t → outcome (s.run limit) t = (answer, t') →
      (∀ e, answer = .error e → ¬e.IsTooDeep) → Reached t'

theorem Reached.next (h : Reached t) (s : BuildStep)
    (hok : (outcome (s.run nestingLimit) t).1.isOk) :
    Reached (outcome (s.run nestingLimit) t).2 := by
  have ho : outcome (s.run nestingLimit) t =
      ((outcome (s.run nestingLimit) t).1, (outcome (s.run nestingLimit) t).2) := rfl
  refine .step s nestingLimit h ho fun e he => ?_
  rw [he] at hok
  cases hok

-- Whether the calls come through one after another.
def allSucceed (t : TypeTable) : List BuildStep → Bool
  | [] => true
  | s :: steps =>
    (outcome (s.run nestingLimit) t).1.isOk && allSucceed (outcome (s.run nestingLimit) t).2 steps

theorem Reached.foldl (h : Reached t) {steps : List BuildStep} (hok : allSucceed t steps = true) :
    Reached (steps.foldl (fun t s => (outcome (s.run nestingLimit) t).2) t) := by
  induction steps generalizing t with
  | nil => exact h
  | cons s steps ih =>
      obtain ⟨hfirst, hrest⟩ := (Bool.and_eq_true _ _).mp hok
      exact ih (h.next s hfirst) hrest

theorem atomic_run (hw : t.WellFormed) (ho : t.contains .object) (s : BuildStep) (limit : Nat) :
    Atomic t (s.run limit) := by
  cases s with
  | define home name kind => exact (atomic_define hw ho home name kind).discard
  | defineGeneric home name kind parameters =>
      exact (atomic_defineGeneric hw ho home name kind parameters).discard
  | instantiate definition arguments => exact (atomic_instantiateWithin hw _ _ _).discard
  | nullableOf underlying => exact (atomic_instantiateWithin hw _ _ _).discard
  | extensibleOf underlying => exact (atomic_instantiateWithin hw _ _ _).discard
  | setBase id base => exact atomic_setBase hw id base
  | addInterface id «interface» => exact atomic_addInterface hw id «interface»
  | setPublic id isPublic => exact atomic_setPublic hw id isPublic
  | addProperty id name type isStatic => exact atomic_addProperty hw id name type isStatic
  | addMethod declaring spec => exact (atomic_addMethod hw declaring spec).discard

theorem Reached.wellFormed (h : Reached t) : t.WellFormed ∧ TypeTable.initial.GrowsTo t := by
  induction h with
  | initial => exact ⟨wellFormed_initial, .refl _⟩
  | step s limit _ ho hdeep ih =>
      rcases atomic_run ih.1 (ih.2.contains rfl) s limit with
        ⟨a, t', ho', hw', hg⟩ | ⟨e, t', ho', he⟩
      · rw [ho', Prod.mk.injEq] at ho
        exact ho.2 ▸ ⟨hw', ih.2.trans hg⟩
      · rw [ho', Prod.mk.injEq] at ho
        rcases he with he | rfl
        · exact absurd he (hdeep e ho.1.symm)
        · exact ho.2 ▸ ih

-- What every table keeps: its invariants, one type for every instance and for every name, which
-- are found, and all or nothing in every call.
structure Consistent (t : TypeTable) : Prop where
  wellFormed : t.WellFormed
  -- The types that every table starts with are still there.
  grown : initial.GrowsTo t
  instance_unique : ∀ (id other definition : TypeId) (arguments : List TypeId),
    t.contains id → (t.get id).shape = .instanceOf definition arguments →
    t.contains other → (t.get other).shape = .instanceOf definition arguments → id = other
  named_unique : ∀ id other : TypeId, t.contains id → (t.get id).isNamed → t.contains other →
    (t.get other).isNamed → (t.get id).lookupName = (t.get other).lookupName → id = other
  find?_eq_some : ∀ (id : TypeId) (home name : String) (arity : Nat),
    t.find? home name arity = some id ↔ t.contains id ∧ (t.get id).isNamed ∧
      (t.get id).home = some home ∧ (t.get id).name = name ∧ (t.get id).arity = arity
  unchanged : ∀ (s : BuildStep) (limit : Nat) (e : TypeError) (t' : TypeTable),
    outcome (s.run limit) t = (.error e, t') → e.IsTooDeep ∨ t' = t
  -- Once all checks are passed and an instance is put into the table, nothing is left to fail.
  instantiate_ok : ∀ (limit : Nat) (definition : TypeId) (arguments : List TypeId) (e : TypeError)
    (t' : TypeTable), t.Applies definition arguments →
    outcome (instantiateWithin limit definition arguments) t = (.error e, t') → e.IsTooDeep

theorem Reached.consistent (h : Reached t) : t.Consistent := by
  obtain ⟨hw, hg⟩ := h.wellFormed
  constructor
  case wellFormed => exact hw
  case grown => exact hg
  case instance_unique =>
    intro id other definition arguments hc hs hc' hs'
    have hid := hw.findInstance?_eq_some.mpr ⟨hc, hs⟩
    have hother := hw.findInstance?_eq_some.mpr ⟨hc', hs'⟩
    exact Option.some.inj (hid.symm.trans hother)
  case named_unique =>
    intro id other hc hn hc' hn' he
    have hid := hw.lookup_names_eq_some.mpr ⟨hc, hn, he⟩
    have hother := hw.lookup_names_eq_some.mpr ⟨hc', hn', rfl⟩
    exact Option.some.inj (hid.symm.trans hother)
  case find?_eq_some =>
    intro id home name arity
    refine hw.lookup_names_eq_some.trans ?_
    simp only [TypeDef.lookupName, Prod.mk.injEq]
  case unchanged =>
    intro s limit e t' he
    rcases atomic_run hw (hg.contains rfl) s limit with ⟨a, t'', ho', -, -⟩ | ⟨e', t'', ho', hcase⟩
    · rw [ho'] at he
      cases he
    · rw [ho'] at he
      cases he
      exact hcase
  case instantiate_ok =>
    intro limit definition arguments e t' ha he
    rcases succeeds_instantiateWithin limit hw ha with ⟨a, t'', ho', -⟩ | ⟨e', t'', ho', hdeep⟩
    · rw [ho'] at he
      cases he
    · rw [ho'] at he
      cases he
      exact hdeep

-- A generic interface, a generic class that implements it for its own parameter, and an instance
-- of the class, with which one of the interface is made.
def boxSteps : List BuildStep :=
  [.defineGeneric "Demo" "Source" .interfaceType ["T"],
    .defineGeneric "Demo" "Box" .classType ["T"],
    .instantiate ⟨21⟩ [⟨24⟩],
    .addInterface ⟨23⟩ ⟨25⟩,
    .instantiate ⟨23⟩ [.numeric .int32]]

def boxes : TypeTable :=
  boxSteps.foldl (fun t s => (outcome (s.run nestingLimit) t).2) .initial

theorem reached_boxes : Reached boxes := Reached.initial.foldl (by decide +kernel)

theorem consistent_boxes :
    boxes.Consistent ∧ boxes.findInstance? ⟨21⟩ [.numeric .int32] = some ⟨27⟩ ∧
      (boxes.get ⟨26⟩).interfaces = [⟨27⟩] :=
  ⟨reached_boxes.consistent, by decide +kernel⟩

end TypeTable

end EventScript
