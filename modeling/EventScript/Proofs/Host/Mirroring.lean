import EventScript.Proofs.Host.Reached

namespace EventScript

open Building TypeTable BuildStep

namespace BuildStep

-- The step says what the type is derived from.
def SetsParentsOf (id : TypeId) : BuildStep → Prop
  | setBase target _ => target = id
  | addInterface target _ => target = id
  | _ => False

-- Bases and interfaces are set on definitions and on types that are not generic.
def SparesInstances (t : TypeTable) (s : BuildStep) : Prop :=
  ∀ id, s.SetsParentsOf id → ∀ definition arguments,
    (t.get id).shape ≠ .instanceOf definition arguments

theorem sparesInstances_of_definition {t : TypeTable} {s : BuildStep} {id : TypeId}
    (parameters : List TypeId) (hset : ∀ other, s.SetsParentsOf other → id = other)
    (hs : (t.get id).shape = .definition parameters) : s.SparesInstances t := by
  intro other hother definition arguments hi
  obtain rfl := hset other hother
  cases hs.symm.trans hi

end BuildStep

namespace TypeTable

variable {t t' t'' : TypeTable} {id definition : TypeId} {arguments : List TypeId}
  {touched : TypeId → Prop}

theorem Mirrors.congr_parents {d d' e e' : TypeDef} (h : t.Mirrors arguments d e)
    (hd : d'.parents = d.parents) (he : e'.parents = e.parents) : t.Mirrors arguments d' e' := by
  obtain ⟨hdb, hdi⟩ := Prod.mk.inj hd
  obtain ⟨heb, hei⟩ := Prod.mk.inj he
  constructor
  · rw [hdb, heb]
    exact h.base
  · rw [hdi, hei]
    exact h.interfaces

-- A step that makes no instances, and that sets what the touched types are derived from at most.
structure Spares (touched : TypeId → Prop) (t t' : TypeTable) : Prop where
  contains : ∀ {id}, t.contains id → t'.contains id
  shape_eq : ∀ {id}, t.contains id → (t'.get id).shape = (t.get id).shape
  parents_eq : ∀ {id}, t.contains id → ¬touched id → (t'.get id).parents = (t.get id).parents
  contains_of_instance : ∀ {id definition arguments}, t'.contains id →
    (t'.get id).shape = .instanceOf definition arguments → t.contains id

namespace Spares

theorem refl (t : TypeTable) : Spares touched t t :=
  ⟨fun hc => hc, fun _ => rfl, fun _ _ => rfl, fun hc _ => hc⟩

theorem trans (h : Spares touched t t') (h' : Spares touched t' t'') : Spares touched t t'' where
  contains hc := h'.contains (h.contains hc)
  shape_eq hc := (h'.shape_eq (h.contains hc)).trans (h.shape_eq hc)
  parents_eq hc hn := (h'.parents_eq (h.contains hc) hn).trans (h.parents_eq hc hn)
  contains_of_instance hc hs := by
    have hc' := h'.contains_of_instance hc hs
    exact h.contains_of_instance hc' ((h'.shape_eq hc').symm.trans hs)

theorem push {d : TypeDef} {h : ∀ a ∈ d.shape.arguments, a.index < t.size}
    (hd : ∀ definition arguments, d.shape ≠ .instanceOf definition arguments) :
    Spares touched t (t.push d h) where
  contains hc := growsTo_push.contains hc
  shape_eq hc := growsTo_push.shape_eq hc
  parents_eq hc _ := by rw [get_push_of_contains hc]
  contains_of_instance hc hs := by
    refine (contains_push.mp hc).resolve_left fun hi => ?_
    rw [get_push, if_pos hi] at hs
    exact hd _ _ hs

theorem modify {f : TypeDef → TypeDef} {h : ∀ d, (f d).shape = d.shape}
    (hf : touched id ∨ ∀ d, (f d).parents = d.parents) : Spares touched t (t.modify id f h) where
  contains hc := contains_modify.trans hc
  shape_eq {other} hc := by
    by_cases he : other = id
    · subst he
      exact get_modify_congr (·.shape) h hc _
    · rw [get_modify_of_ne he]
  parents_eq {other} hc hn := by
    by_cases he : other = id
    · subst he
      exact get_modify_congr (·.parents) (hf.resolve_left hn) hc _
    · rw [get_modify_of_ne he]
  contains_of_instance hc _ := contains_modify.symm.trans hc

theorem pushMethod {m : MethodDef} : Spares touched t (t.pushMethod m) :=
  ⟨fun hc => hc, fun _ => rfl, fun _ _ => rfl, fun hc _ => hc⟩

end Spares

end TypeTable

namespace Building

variable {α β : Type} {touched : TypeId → Prop} {m : Building α}

-- Whenever the step comes through, it spares the instances and all types but the touched ones.
def Sparing (touched : TypeId → Prop) (m : Building α) : Prop :=
  ∀ t a t', outcome m t = (.ok a, t') → Spares touched t t'

namespace Sparing

theorem pure (a : α) : Sparing touched (pure a) := Leads.pure Spares.refl a

theorem bind {f : α → Building β} (hm : Sparing touched m) (hf : ∀ a, Sparing touched (f a)) :
    Sparing touched (m >>= f) := Leads.bind (fun _ _ _ => Spares.trans) hm hf

theorem get {f : TypeTable → Building β} (hf : ∀ t, Sparing touched (f t)) :
    Sparing touched (get >>= f) := fun t b t' ho => hf t t b t' ho

theorem of_guards {m : Building Unit} {P : TypeTable → Prop} (h : ∀ t, Guards t m (P t)) :
    Sparing touched m := Leads.of_guards Spares.refl h

theorem check (id : TypeId) : Sparing touched (check id) := of_guards fun _ => Guards.check id

theorem change {id : TypeId} {f : TypeDef → TypeDef} {h : ∀ d, (f d).shape = d.shape}
    (hf : touched id ∨ ∀ d, (f d).parents = d.parents) : Sparing touched (change id f h) := by
  rintro t _ _ ho
  obtain rfl := (Prod.mk.inj ho).2
  exact .modify hf

theorem add {d : TypeDef} {h : d.shape.arguments = []}
    (hd : ∀ definition arguments, d.shape ≠ .instanceOf definition arguments) :
    Sparing touched (add d h) := by
  rintro t _ _ ho
  obtain rfl := (Prod.mk.inj ho).2
  exact .push hd

theorem addParameters (position : Nat) (names : List String) :
    Sparing touched (addParameters position names) := by
  induction names generalizing position with
  | nil => exact pure ()
  | cons name names ih => exact bind (add fun _ _ hs => by cases hs) fun _ => ih (position + 1)

theorem pushMethod (m : MethodDef) : Sparing touched (pushMethod m) := by
  rintro t _ _ ho
  obtain rfl := (Prod.mk.inj ho).2
  exact .pushMethod

theorem define (home name : String) (kind : TypeKind) :
    Sparing touched (define home name kind) :=
  bind (of_guards fun _ => Guards.checkNewName home name 0) fun _ => add fun _ _ hs => by cases hs

theorem defineGeneric (home name : String) (kind : TypeKind) (parameters : List String) :
    Sparing touched (defineGeneric home name kind parameters) := by
  refine bind (of_guards fun _ => Guards.checkNewName home name parameters.length) fun _ => ?_
  refine get fun t => bind (add fun _ _ hs => by cases hs) fun id => ?_
  exact bind (addParameters 0 parameters) fun _ => pure id

theorem addMethod (declaring : TypeId) (spec : MethodSpec) :
    Sparing touched (addMethod declaring spec) := by
  refine bind (check declaring) fun _ => bind (check spec.returns) fun _ => ?_
  refine bind (of_guards fun _ => Guards.forM_check spec.parameters) fun _ => ?_
  exact bind (pushMethod _) fun id => bind (change (.inr fun _ => rfl)) fun _ => pure id

theorem discard (h : Sparing touched m) : Sparing touched (discard m) := bind h fun _ => pure ()

end Sparing

end Building

namespace TypeTable

variable {t t' t'' : TypeTable} {id definition : TypeId} {arguments : List TypeId}
  {steps : List BuildStep} {s : BuildStep} {answer : Except TypeError Unit}

-- What a call does to what types are derived from. An instance that it makes mirrors its
-- definition, which it leaves alone.
structure Frames (s : BuildStep) (t t' : TypeTable) : Prop where
  wellFormed : t'.WellFormed
  grows : t.GrowsTo t'
  parents_eq : ∀ {id}, t.contains id → ¬s.SetsParentsOf id →
    (t'.get id).parents = (t.get id).parents
  mirrored : ∀ {id definition arguments}, ¬t.contains id → t'.contains id →
    (t'.get id).shape = .instanceOf definition arguments →
    t.contains definition ∧ (t'.get definition).parents = (t.get definition).parents ∧
      t'.Mirrors arguments (t.get definition) (t'.get id)

theorem Frames.refl (hw : t.WellFormed) : Frames s t t :=
  ⟨hw, .refl t, fun _ _ => rfl, fun hn hc _ => absurd hc hn⟩

theorem Frames.of_spares (hw : t'.WellFormed) (hg : t.GrowsTo t')
    (h : Spares (s.SetsParentsOf ·) t t') : Frames s t t' :=
  ⟨hw, hg, h.parents_eq, fun hn hc hs => absurd (h.contains_of_instance hc hs) hn⟩

theorem Frames.of_completes (hw : t'.WellFormed) (h : t.Completes t') : Frames s t t' where
  wellFormed := hw
  grows := h.grows
  parents_eq hc _ := by rw [h.get_eq hc]
  mirrored hn hc hs := by
    rcases h.mirrored hc with hc | ⟨definition, arguments, hd, hs', hm⟩
    · exact absurd hc hn
    · obtain ⟨rfl, rfl⟩ := GenericShape.instanceOf.inj (hs'.symm.trans hs)
      exact ⟨hd, by rw [h.get_eq hd], hm⟩

theorem frames_of_sparing (hw : t.WellFormed) (ho : t.contains .object) (limit : Nat)
    (hrun : outcome (s.run limit) t = (answer, t'))
    (hdeep : ∀ e, answer = .error e → ¬e.IsTooDeep)
    (h : Sparing (s.SetsParentsOf ·) (s.run limit)) : Frames s t t' := by
  rcases atomic_run hw ho s limit with ⟨a, t'', ho', hw', hg⟩ | ⟨e, t'', ho', he⟩
  · obtain ⟨rfl, rfl⟩ := Prod.mk.inj (ho'.symm.trans hrun)
    exact .of_spares hw' hg (h t a _ ho')
  · obtain ⟨rfl, rfl⟩ := Prod.mk.inj (ho'.symm.trans hrun)
    obtain rfl := he.resolve_left (hdeep e rfl)
    exact .refl hw

-- Whatever comes of making an instance, the table is completed by instances or stays as it was.
theorem completes_of_instantiate (hw : t.WellFormed) (limit : Nat) (definition : TypeId)
    (arguments : List TypeId)
    (hrun : outcome (discard (instantiateWithin limit definition arguments)) t = (answer, t'))
    (hdeep : ∀ e, answer = .error e → ¬e.IsTooDeep) : t'.WellFormed ∧ t.Completes t' := by
  by_cases ha : t.Applies definition arguments
  · rcases succeeds_instantiateWithin limit hw ha with
      ⟨a, t'', ho, hw', -, hm, -⟩ | ⟨e, t'', ho, he⟩
    · obtain ⟨rfl, rfl⟩ := Prod.mk.inj ((outcome_bind_ok ho).symm.trans hrun)
      exact ⟨hw', hm⟩
    · obtain ⟨rfl, rfl⟩ := Prod.mk.inj ((outcome_bind_error ho).symm.trans hrun)
      exact absurd he (hdeep e rfl)
  · obtain ⟨e, t'', ho, he⟩ := refuses_instantiateWithin limit ha
    obtain ⟨rfl, rfl⟩ := Prod.mk.inj ((outcome_bind_error ho).symm.trans hrun)
    obtain rfl := he.resolve_left (hdeep e rfl)
    exact ⟨hw, .refl _⟩

theorem frames_of_instantiate (hw : t.WellFormed) (limit : Nat) (definition : TypeId)
    (arguments : List TypeId)
    (hrun : outcome (discard (instantiateWithin limit definition arguments)) t = (answer, t'))
    (hdeep : ∀ e, answer = .error e → ¬e.IsTooDeep) : Frames s t t' := by
  obtain ⟨hw', hm⟩ := completes_of_instantiate hw limit definition arguments hrun hdeep
  exact .of_completes hw' hm

theorem frames_run (hw : t.WellFormed) (ho : t.contains .object) (s : BuildStep) (limit : Nat)
    (hrun : outcome (s.run limit) t = (answer, t'))
    (hdeep : ∀ e, answer = .error e → ¬e.IsTooDeep) : Frames s t t' := by
  cases s with
  | define home name kind =>
      refine frames_of_sparing hw ho limit hrun hdeep ?_
      exact (Sparing.define home name kind).discard
  | defineGeneric home name kind parameters =>
      refine frames_of_sparing hw ho limit hrun hdeep ?_
      exact (Sparing.defineGeneric home name kind parameters).discard
  | instantiate definition arguments =>
      exact frames_of_instantiate hw limit definition arguments hrun hdeep
  | nullableOf underlying => exact frames_of_instantiate hw limit .nullable _ hrun hdeep
  | extensibleOf underlying => exact frames_of_instantiate hw limit .extensible _ hrun hdeep
  | setBase id base =>
      refine frames_of_sparing hw ho limit hrun hdeep ?_
      exact .bind (.check id) fun _ => .bind (.check base) fun _ => .change (.inl rfl)
  | addInterface id «interface» =>
      refine frames_of_sparing hw ho limit hrun hdeep ?_
      exact .bind (.check id) fun _ => .bind (.check _) fun _ => .change (.inl rfl)
  | setPublic id isPublic =>
      refine frames_of_sparing hw ho limit hrun hdeep ?_
      exact .bind (.check id) fun _ => .change (.inr fun _ => rfl)
  | addProperty id name type isStatic =>
      refine frames_of_sparing hw ho limit hrun hdeep ?_
      exact .bind (.check id) fun _ => .bind (.check type) fun _ => .change (.inr fun _ => rfl)
  | addMethod declaring spec =>
      refine frames_of_sparing hw ho limit hrun hdeep ?_
      exact (Sparing.addMethod declaring spec).discard

-- A run of calls of which none goes on without an end, and none says of an instance what it is
-- derived from.
inductive Orderly (start : TypeTable) : List BuildStep → TypeTable → Prop
  | start : Orderly start [] start
  | next {steps : List BuildStep} {t t' : TypeTable} {answer : Except TypeError Unit}
      (s : BuildStep) (limit : Nat) : Orderly start steps t → s.SparesInstances t →
      outcome (s.run limit) t = (answer, t') → (∀ e, answer = .error e → ¬e.IsTooDeep) →
      Orderly start (steps ++ [s]) t'

theorem Orderly.answered {start : TypeTable} (h : start.Orderly steps t) (s : BuildStep)
    (hspares : s.SparesInstances t) (hok : (outcome (s.run nestingLimit) t).1.isOk) :
    start.Orderly (steps ++ [s]) (outcome (s.run nestingLimit) t).2 := by
  have ho : outcome (s.run nestingLimit) t =
      ((outcome (s.run nestingLimit) t).1, (outcome (s.run nestingLimit) t).2) := rfl
  refine .next s nestingLimit h hspares ho fun e he => ?_
  rw [he] at hok
  cases hok

theorem Orderly.reached {start : TypeTable} (h : start.Orderly steps t) (hs : start.Reached) :
    t.Reached := by
  induction h with
  | start => exact hs
  | next s limit _ _ hrun hdeep ih => exact .step s limit ih hrun hdeep

-- The step makes an instance of a definition that is already there.
structure Makes (s : BuildStep) (id definition : TypeId) (t t' : TypeTable) : Prop where
  run : t.Orderly [s] t'
  contains_definition : t.contains definition
  not_contains : ¬t.contains id
  contains : t'.contains id

-- By induction on the run. What an instance is derived from stays, since it is not set; what its
-- definition is derived from stays until it is set.
theorem Orderly.exists_makes (h : initial.Orderly steps t) (hc : t.contains id)
    (hs : (t.get id).shape = .instanceOf definition arguments) :
    ∃ before s after t₁ t₂, steps = before ++ s :: after ∧ initial.Orderly before t₁ ∧
      Makes s id definition t₁ t₂ ∧ t₂.Orderly after t ∧
      t.Mirrors arguments (t₁.get definition) (t.get id) ∧
      ((∀ s ∈ after, ¬s.SetsParentsOf definition) →
        (t.get definition).parents = (t₁.get definition).parents) := by
  induction h with
  | start => exact absurd hs (shape_ne_of_mem_wellKnown (mem_wellKnown_of_contains hc) _ _)
  | @next steps t t' answer s limit hbefore hspares hrun hdeep ih =>
      obtain ⟨hw, hg⟩ := (hbefore.reached .initial).wellFormed
      have hframes : Frames s t t' := frames_run hw (hg.contains rfl) s limit hrun hdeep
      by_cases hold : t.contains id
      · have hs' := (hframes.grows.shape_eq hold).symm.trans hs
        have hd : t.contains definition := hw.contains_definition hs'
        have hid : (t'.get id).parents = (t.get id).parents :=
          hframes.parents_eq hold fun hsets => hspares id hsets _ _ hs'
        obtain ⟨before, first, after, t₁, t₂, rfl, hbefore, hmakes, hafter, hmirrors, hparents⟩ :=
          ih hold hs'
        refine ⟨before, first, after ++ [s], t₁, t₂, ?_, hbefore, hmakes, ?_, ?_, ?_⟩
        · rw [List.append_assoc, List.cons_append]
        · exact .next s limit hafter hspares hrun hdeep
        · exact (hmirrors.grown hframes.grows).congr_parents rfl hid
        · intro hnot
          have hlast : ¬s.SetsParentsOf definition := hnot s (by simp)
          rw [hframes.parents_eq hd hlast]
          exact hparents fun s hm => hnot s (List.mem_append_left _ hm)
      · obtain ⟨hd, hparents, hmirrors⟩ := hframes.mirrored hold hc hs
        have hstep : t.Orderly [s] t' := .next s limit .start hspares hrun hdeep
        exact ⟨steps, s, [], t, t', rfl, hbefore, ⟨hstep, hd, hold, hc⟩, .start, hmirrors,
          fun _ => hparents⟩

-- An instance is derived for good from what its definition was derived from when the instance was
-- made: its base and interfaces, as seen with the arguments. It follows its definition as long as
-- the definition is not given other ones.
theorem instance_mirrors_definition (h : initial.Orderly steps t) (hc : t.contains id)
    (hs : (t.get id).shape = .instanceOf definition arguments) :
    ∃ before s after t₁ t₂, steps = before ++ s :: after ∧ initial.Orderly before t₁ ∧
      Makes s id definition t₁ t₂ ∧ t₂.Orderly after t ∧
      t.Mirrors arguments (t₁.get definition) (t.get id) ∧
      ((∀ s ∈ after, ¬s.SetsParentsOf definition) →
        t.Mirrors arguments (t.get definition) (t.get id)) := by
  obtain ⟨before, s, after, t₁, t₂, hsteps, hbefore, hmakes, hafter, hmirrors, hparents⟩ :=
    h.exists_makes hc hs
  refine ⟨before, s, after, t₁, t₂, hsteps, hbefore, hmakes, hafter, hmirrors, fun hnot => ?_⟩
  exact hmirrors.congr_parents (hparents hnot) rfl

theorem orderly_boxes : initial.Orderly boxSteps boxes := by
  have h₀ : initial.Orderly [] initial := .start
  have h₁ := h₀.answered boxSteps[0] (fun _ h => h.elim) (by decide +kernel)
  have h₂ := h₁.answered boxSteps[1] (fun _ h => h.elim) (by decide +kernel)
  have h₃ := h₂.answered boxSteps[2] (fun _ h => h.elim) (by decide +kernel)
  have h₄ := h₃.answered boxSteps[3]
    (sparesInstances_of_definition [⟨24⟩] (fun _ h => h) (by decide +kernel)) (by decide +kernel)
  exact h₄.answered boxSteps[4] (fun _ h => h.elim) (by decide +kernel)

theorem boxes_mirror :
    ∃ before s after t₁ t₂, boxSteps = before ++ s :: after ∧ initial.Orderly before t₁ ∧
      Makes s ⟨26⟩ ⟨23⟩ t₁ t₂ ∧ t₂.Orderly after boxes ∧
      boxes.Mirrors [.numeric .int32] (t₁.get ⟨23⟩) (boxes.get ⟨26⟩) ∧
      ((∀ s ∈ after, ¬s.SetsParentsOf ⟨23⟩) →
        boxes.Mirrors [.numeric .int32] (boxes.get ⟨23⟩) (boxes.get ⟨26⟩)) :=
  instance_mirrors_definition orderly_boxes (by decide +kernel) (by decide +kernel)

-- The definition is given another base after an instance has been made.
def rebasedSteps : List BuildStep :=
  [.defineGeneric "Demo" "Box" .classType ["T"],
    .instantiate ⟨21⟩ [.numeric .int32],
    .define "Demo" "Base" .classType,
    .setBase ⟨21⟩ ⟨24⟩]

def rebased : TypeTable :=
  rebasedSteps.foldl (fun t s => (outcome (s.run nestingLimit) t).2) .initial

theorem orderly_rebased : initial.Orderly rebasedSteps rebased := by
  have h₀ : initial.Orderly [] initial := .start
  have h₁ := h₀.answered rebasedSteps[0] (fun _ h => h.elim) (by decide +kernel)
  have h₂ := h₁.answered rebasedSteps[1] (fun _ h => h.elim) (by decide +kernel)
  have h₃ := h₂.answered rebasedSteps[2] (fun _ h => h.elim) (by decide +kernel)
  exact h₃.answered rebasedSteps[3]
    (sparesInstances_of_definition [⟨22⟩] (fun _ h => h) (by decide +kernel)) (by decide +kernel)

theorem rebased_instance_keeps_base :
    ¬∀ steps t, initial.Orderly steps t → ∀ id definition arguments, t.contains id →
      (t.get id).shape = .instanceOf definition arguments →
      t.Mirrors arguments (t.get definition) (t.get id) := by
  intro hall
  have hmirrors := hall _ _ orderly_rebased ⟨23⟩ ⟨21⟩ [.numeric .int32] (by decide +kernel)
    (by decide +kernel)
  have hbase := hmirrors.base
  have hd : (rebased.get ⟨21⟩).base = some ⟨24⟩ := by decide +kernel
  have hi : (rebased.get ⟨23⟩).base = some .object := by decide +kernel
  rw [hd, hi] at hbase
  cases hbase with
  | some hr =>
      have hclosed : rebased.Replaced [.numeric .int32] ⟨24⟩ ⟨24⟩ := by
        refine .closed (by decide +kernel) (by decide +kernel) fun _ _ hs => ?_
        have hplain : (rebased.get ⟨24⟩).shape = .plain := by decide +kernel
        cases hplain.symm.trans hs
      have := hr.unique (orderly_rebased.reached .initial).wellFormed.1 hclosed
      cases this

end TypeTable

end EventScript
