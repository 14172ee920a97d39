import EventScript.Proofs.Host.Mirroring
import Mathlib.Data.List.Nodup

namespace EventScript

open TypeTable

namespace TypeTable

variable {t t' t'' : TypeTable} {id : TypeId} {parameters : List TypeId}

-- The parameters of a definition count their positions.
def NumbersParameters (t : TypeTable) : Prop :=
  ∀ id parameters, (t.get id).shape = .definition parameters →
    ∀ i p, parameters[i]? = some p → t.kind p = .genericParameter i

-- All definitions of the second table are definitions of the first.
def Defines (t t' : TypeTable) : Prop :=
  ∀ id parameters, (t'.get id).shape = .definition parameters →
    (t.get id).shape = .definition parameters

theorem Defines.refl (t : TypeTable) : t.Defines t := fun _ _ => id

theorem Defines.trans (h : t.Defines t') (h' : t'.Defines t'') : t.Defines t'' :=
  fun id parameters hs => h id parameters (h' id parameters hs)

theorem defines_push {d : TypeDef} {h : ∀ a ∈ d.shape.arguments, a.index < t.size}
    (hd : ∀ parameters, d.shape ≠ .definition parameters) : t.Defines (t.push d h) := by
  intro id parameters hs
  rw [get_push] at hs
  split at hs
  · exact absurd hs (hd parameters)
  · exact hs

theorem defines_modify {f : TypeDef → TypeDef} {h : ∀ d, (f d).shape = d.shape} :
    t.Defines (t.modify id f h) := by
  intro other parameters hs
  by_cases hc : t.contains id
  · rwa [get_modify_congr (·.shape) h hc] at hs
  · by_cases he : other = id
    · have hlt : ¬other.index < (t.modify id f h).size := by simpa [he] using hc
      rw [get_of_not_contains hlt] at hs
      cases hs
    · rwa [get_modify_of_ne he] at hs

theorem contains_of_definition (hs : (t.get id).shape = .definition parameters) :
    t.contains id := by
  by_contra hc
  rw [get_of_not_contains (by simpa using hc)] at hs
  cases hs

theorem Completes.defines (h : t.Completes t') : t.Defines t' := by
  intro id parameters hs
  rcases h.mirrored (contains_of_definition hs) with hc | ⟨_, _, _, hi, _⟩
  · rwa [h.get_eq hc] at hs
  · cases hs.symm.trans hi

theorem NumbersParameters.grown (h : t.NumbersParameters) (hg : t.GrowsTo t')
    (hd : t.Defines t') : t'.NumbersParameters := by
  intro id parameters hs i p hp
  have hk := h id parameters (hd id parameters hs) i p hp
  exact (hg.kind_eq (contains_of_kind hk)).trans hk

end TypeTable

namespace Building

variable {α β : Type} {m : Building α}

-- Whenever the step comes through, it has added no definitions.
def KeepsDefinitions (m : Building α) : Prop := Leads Defines m

namespace KeepsDefinitions

theorem pure (a : α) : KeepsDefinitions (pure a) := Leads.pure Defines.refl a

theorem bind {f : α → Building β} (hm : KeepsDefinitions m) (hf : ∀ a, KeepsDefinitions (f a)) :
    KeepsDefinitions (m >>= f) := Leads.bind (fun _ _ _ => Defines.trans) hm hf

theorem of_guards {m : Building Unit} {P : TypeTable → Prop} (h : ∀ t, Guards t m (P t)) :
    KeepsDefinitions m := Leads.of_guards Defines.refl h

theorem check (id : TypeId) : KeepsDefinitions (check id) := of_guards fun _ => Guards.check id

theorem change {id : TypeId} {f : TypeDef → TypeDef} {h : ∀ d, (f d).shape = d.shape} :
    KeepsDefinitions (change id f h) := by
  rintro t _ _ ho
  obtain rfl := (Prod.mk.inj ho).2
  exact defines_modify

theorem define (home name : String) (kind : TypeKind) :
    KeepsDefinitions (define home name kind) := by
  refine bind (of_guards fun _ => Guards.checkNewName home name 0) fun _ => ?_
  rintro t _ _ ho
  obtain rfl := (Prod.mk.inj ho).2
  exact defines_push fun _ hs => by cases hs

theorem addMethod (declaring : TypeId) (spec : MethodSpec) :
    KeepsDefinitions (addMethod declaring spec) := by
  refine bind (check declaring) fun _ => bind (check spec.returns) fun _ => ?_
  refine bind (of_guards fun _ => Guards.forM_check spec.parameters) fun _ => ?_
  refine bind ?_ fun id => bind change fun _ => pure id
  rintro t _ _ ho
  obtain rfl := (Prod.mk.inj ho).2
  exact Defines.refl t

theorem discard (h : KeepsDefinitions m) : KeepsDefinitions (discard m) := bind h fun _ => pure ()

end KeepsDefinitions

-- The parameters stand behind all other types, one after the other.
structure AddsParameters (position count : Nat) (t t' : TypeTable) : Prop where
  get_eq : ∀ {id}, t.contains id → t'.get id = t.get id
  shape_eq : ∀ {id}, ¬t.contains id → (t'.get id).shape = .plain
  kind_eq : ∀ {i}, i < count → t'.kind ⟨t.size + i⟩ = .genericParameter (position + i)

theorem addsParameters_addParameters (position : Nat) (names : List String) (t : TypeTable) :
    AddsParameters position names.length t (outcome (addParameters position names) t).2 := by
  induction names generalizing position t with
  | nil =>
      refine ⟨fun _ => rfl, fun {id} hc => ?_, fun hi => absurd hi (Nat.not_lt_zero _)⟩
      have hlt : ¬id.index < t.size := by simpa using hc
      exact congrArg TypeDef.shape (get_of_not_contains hlt)
  | cons name names ih =>
      let d : TypeDef := { home := none, name, kind := .genericParameter position }
      have hargs : ∀ a ∈ d.shape.arguments, a.index < t.size := fun a ha => by cases ha
      have hrest := ih (position + 1) (t.push d hargs)
      have ho : outcome (addParameters position (name :: names)) t =
          outcome (addParameters (position + 1) names) (t.push d hargs) := rfl
      rw [ho]
      constructor
      case get_eq =>
        intro id hc
        rw [hrest.get_eq (growsTo_push.contains hc), get_push_of_contains hc]
      case shape_eq =>
        intro id hc
        by_cases he : id.index = t.size
        · rw [hrest.get_eq (contains_push.mpr (.inl he)), get_push, if_pos he]
        · exact hrest.shape_eq fun hc' => (contains_push.mp hc').elim he hc
      case kind_eq =>
        intro i hi
        cases i with
        | zero =>
            have hnew : (⟨t.size + 0⟩ : TypeId).index = t.size := rfl
            rw [kind, hrest.get_eq (contains_push.mpr (.inl hnew)), get_push, if_pos hnew]
            rfl
        | succ i =>
            have hindex : t.size + (i + 1) = (t.push d hargs).size + i := by
              rw [size_push]
              omega
            rw [hindex, hrest.kind_eq (Nat.lt_of_succ_lt_succ hi), Nat.add_assoc, Nat.add_comm 1]

-- The new definition stands in front of its parameters.
theorem numbersParameters_defineGeneric {t t' : TypeTable} (h : t.NumbersParameters)
    (home name : String) (kind : TypeKind) (parameters : List String) {a : TypeId}
    (ho : outcome (defineGeneric home name kind parameters) t = (.ok a, t')) :
    t'.NumbersParameters := by
  let ids := (List.range parameters.length).map fun i => (⟨t.size + 1 + i⟩ : TypeId)
  let d : TypeDef := {
    home := some home, name, kind, shape := .definition ids, base := defaultBase kind }
  have hargs : ∀ a ∈ d.shape.arguments, a.index < t.size := fun a ha => by cases ha
  have hadds := addsParameters_addParameters 0 parameters (t.push d hargs)
  obtain rfl : (outcome (addParameters 0 parameters) (t.push d hargs)).2 = t' := by
    rcases Guards.checkNewName (t := t) home name parameters.length with
      ⟨-, hcheck⟩ | ⟨-, e, hcheck⟩
    · have hrest : outcome (addParameters 0 parameters >>= fun _ => pure (⟨t.size⟩ : TypeId))
          (t.push d hargs) = (.ok a, t') := (outcome_bind_ok hcheck).symm.trans ho
      rw [outcome_bind] at hrest
      split at hrest
      · rename_i heq
        rw [heq]
        exact (Prod.mk.inj hrest).2
      · cases hrest
    · cases (outcome_bind_error hcheck).symm.trans ho
  intro id own hs i p hp
  by_cases hc : (t.push d hargs).contains id
  · rw [hadds.get_eq hc, get_push] at hs
    split at hs
    · obtain rfl := GenericShape.definition.inj hs
      obtain ⟨hi, rfl⟩ : i < parameters.length ∧ (⟨t.size + 1 + i⟩ : TypeId) = p := by
        simpa [ids, List.getElem?_eq_some_iff] using hp
      have hk := hadds.kind_eq hi
      rwa [size_push, Nat.zero_add] at hk
    · have hk := h id own hs i p hp
      have hc := contains_of_kind hk
      rw [TypeTable.kind, hadds.get_eq (contains_push.mpr (.inr hc)), get_push_of_contains hc]
      exact hk
  · rw [hadds.shape_eq hc] at hs
    cases hs

end Building

namespace TypeTable

variable {t t' : TypeTable} {id : TypeId} {parameters : List TypeId}
  {answer : Except TypeError Unit}

open Building

theorem numbersParameters_initial : TypeTable.initial.NumbersParameters := by
  have hall : ∀ d ∈ wellKnown, ∀ entry ∈ d.shape.parameters.zipIdx,
      TypeTable.initial.kind entry.1 = .genericParameter entry.2 := by decide
  intro id parameters hs i p hp
  have hmem := mem_wellKnown_of_contains (contains_of_definition hs)
  refine hall _ hmem (p, i) (List.mem_zipIdx_iff_getElem?.mpr ?_)
  rw [hs]
  exact hp

theorem NumbersParameters.run (h : t.NumbersParameters) (hw : t.WellFormed)
    (ho : t.contains .object) (s : BuildStep) (limit : Nat)
    (hrun : outcome (s.run limit) t = (answer, t'))
    (hdeep : ∀ e, answer = .error e → ¬e.IsTooDeep) : t'.NumbersParameters := by
  rcases atomic_run hw ho s limit with ⟨a, t'', ho', -, hg⟩ | ⟨e, t'', ho', he⟩
  · obtain ⟨rfl, rfl⟩ := Prod.mk.inj (ho'.symm.trans hrun)
    have hkeeps (hk : KeepsDefinitions (s.run limit)) : t''.NumbersParameters :=
      h.grown hg (hk t a t'' ho')
    have hinstance (definition : TypeId) (arguments : List TypeId)
        (hrun : outcome (discard (instantiateWithin limit definition arguments)) t = (.ok a, t'')) :
        t''.NumbersParameters :=
      h.grown hg (completes_of_instantiate hw limit definition arguments hrun hdeep).2.defines
    cases s with
    | define home name kind => exact hkeeps (KeepsDefinitions.define home name kind).discard
    | defineGeneric home name kind parameters =>
        cases hfirst : outcome (defineGeneric home name kind parameters) t with
        | mk result t₁ =>
            cases result with
            | error e => cases (outcome_bind_error hfirst).symm.trans ho'
            | ok id =>
                obtain rfl := (Prod.mk.inj ((outcome_bind_ok hfirst).symm.trans ho')).2
                exact numbersParameters_defineGeneric h home name kind parameters hfirst
    | instantiate definition arguments => exact hinstance definition arguments ho'
    | nullableOf underlying => exact hinstance .nullable [underlying] ho'
    | extensibleOf underlying => exact hinstance .extensible [underlying] ho'
    | setBase id base =>
        exact hkeeps (.bind (.check id) fun _ => .bind (.check base) fun _ => .change)
    | addInterface id «interface» =>
        exact hkeeps (.bind (.check id) fun _ => .bind (.check _) fun _ => .change)
    | setPublic id isPublic => exact hkeeps (.bind (.check id) fun _ => .change)
    | addProperty id name type isStatic =>
        exact hkeeps (.bind (.check id) fun _ => .bind (.check type) fun _ => .change)
    | addMethod declaring spec => exact hkeeps (KeepsDefinitions.addMethod declaring spec).discard
  · obtain ⟨rfl, rfl⟩ := Prod.mk.inj (ho'.symm.trans hrun)
    obtain rfl := he.resolve_left (hdeep e rfl)
    exact h

theorem Reached.numbersParameters (h : t.Reached) : t.NumbersParameters := by
  induction h with
  | initial => exact numbersParameters_initial
  | step s limit h ho hdeep ih =>
      obtain ⟨hw, hg⟩ := h.wellFormed
      exact ih.run hw (hg.contains rfl) s limit ho hdeep

theorem NumbersParameters.nodup (h : t.NumbersParameters)
    (hs : (t.get id).shape = .definition parameters) : parameters.Nodup := by
  rw [List.nodup_iff_injective_get]
  intro i j he
  have hi := h id parameters hs i _ (List.getElem?_eq_getElem i.isLt)
  have hj := h id parameters hs j _ (List.getElem?_eq_getElem j.isLt)
  have hp : parameters[i.val] = parameters[j.val] := he
  rw [← hp] at hj
  exact Fin.ext (TypeKind.genericParameter.inj (hi.symm.trans hj))

end TypeTable

end EventScript
