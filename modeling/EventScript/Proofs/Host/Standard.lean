import EventScript.Host.Standard
import EventScript.Proofs.Runtime

namespace EventScript

namespace Building

open TypeTable

variable {α β : Type}

-- If the steps come through, they leave a table that calls lead to.
def Reaches (m : Building α) : Prop :=
  ∀ t, t.Reached → ∀ a t', outcome m t = (.ok a, t') → t'.Reached

namespace Reaches

theorem pure (a : α) : Reaches (pure a : Building α) := by
  intro t ht b t' ho
  cases ho
  exact ht

theorem bind {m : Building α} {f : α → Building β} (hm : Reaches m) (hf : ∀ a, Reaches (f a)) :
    Reaches (m >>= f) := by
  intro t ht b t'' ho
  rcases hrun : outcome m t with ⟨e | a, t'⟩
  · rw [outcome_bind_error hrun] at ho
    cases ho
  · rw [outcome_bind_ok hrun] at ho
    exact hf a t' (hm t ht a t' hrun) b t'' ho

theorem get {f : TypeTable → Building β} (hf : ∀ t, Reaches (f t)) : Reaches (get >>= f) :=
  fun t ht b t' ho => hf t t ht b t' ho

theorem forIn {f : α → PUnit → Building (ForInStep PUnit)} (as : List α)
    (hf : ∀ a, Reaches (f a ⟨⟩)) : Reaches (forIn as ⟨⟩ f) := by
  induction as with
  | nil => exact .pure _
  | cons a as ih =>
      rw [List.forIn_cons]
      refine (hf a).bind fun step => ?_
      cases step with
      | done => exact .pure _
      | yield => exact ih

theorem step (s : BuildStep) {m : Building α}
    (h : ∀ t a t', outcome m t = (.ok a, t') → outcome (s.run nestingLimit) t = (.ok (), t')) :
    Reaches m := by
  intro t ht a t' ho
  exact .step s nestingLimit ht (h t a t' ho) nofun

theorem define (home name : String) (kind : TypeKind) : Reaches (define home name kind) :=
  step (.define home name kind) fun _ _ _ => outcome_bind_ok

theorem defineGeneric (home name : String) (kind : TypeKind) (parameters : List String) :
    Reaches (defineGeneric home name kind parameters) :=
  step (.defineGeneric home name kind parameters) fun _ _ _ => outcome_bind_ok

theorem instantiate (definition : TypeId) (arguments : List TypeId) :
    Reaches (instantiate definition arguments) :=
  step (.instantiate definition arguments) fun _ _ _ => outcome_bind_ok

theorem nullableOf (underlying : TypeId) : Reaches (nullableOf underlying) :=
  step (.nullableOf underlying) fun _ _ _ => outcome_bind_ok

theorem extensibleOf (underlying : TypeId) : Reaches (extensibleOf underlying) :=
  step (.extensibleOf underlying) fun _ _ _ => outcome_bind_ok

theorem setBase (id base : TypeId) : Reaches (setBase id base) :=
  step (.setBase id base) fun _ _ _ ho => ho

theorem addInterface (id «interface» : TypeId) : Reaches (addInterface id «interface») :=
  step (.addInterface id «interface») fun _ _ _ ho => ho

theorem addProperty (id : TypeId) (name : String) (type : TypeId) (isStatic : Bool) :
    Reaches (addProperty id name type isStatic) :=
  step (.addProperty id name type isStatic) fun _ _ _ ho => ho

theorem addMethod (declaring : TypeId) (spec : MethodSpec) : Reaches (addMethod declaring spec) :=
  step (.addMethod declaring spec) fun _ _ _ => outcome_bind_ok

end Reaches

end Building

namespace Standard

open Building

theorem reaches_instanceMethod (owner : TypeId) (name : String) (parameters : List TypeId)
    (returns : TypeId) : Reaches (instanceMethod owner name parameters returns) :=
  (Reaches.addMethod _ _).bind fun _ => .pure _

theorem reaches_staticMethod (owner : TypeId) (name : String) (parameters : List TypeId)
    (returns : TypeId) : Reaches (staticMethod owner name parameters returns) :=
  (Reaches.addMethod _ _).bind fun _ => .pure _

theorem reaches_extensionMethod (owner : TypeId) (name : String) (parameters : List TypeId)
    (returns : TypeId) : Reaches (extensionMethod owner name parameters returns) :=
  (Reaches.addMethod _ _).bind fun _ => .pure _

theorem reaches_defineMath : Reaches defineMath := by
  unfold defineMath
  refine (Reaches.define _ _ _).bind fun math => ?_
  refine (Reaches.forIn _ fun name => ?_).bind fun _ => ?_
  · refine (Reaches.forIn _ fun type => ?_).bind fun _ => .pure _
    exact (reaches_staticMethod _ _ _ _).bind fun _ => .pure _
  refine (Reaches.forIn _ fun type => ?_).bind fun _ => ?_
  · exact (reaches_staticMethod _ _ _ _).bind fun _ => .pure _
  refine (reaches_staticMethod _ _ _ _).bind fun _ => ?_
  refine (Reaches.addProperty _ _ _ _).bind fun _ => ?_
  refine (Reaches.addProperty _ _ _ _).bind fun _ => ?_
  exact .pure math

theorem reaches_defineCollections (math : TypeId) : Reaches (defineCollections math) := by
  unfold defineCollections
  refine (Reaches.defineGeneric _ _ _ _).bind fun enumerable => ?_
  refine (Reaches.defineGeneric _ _ _ _).bind fun list => .get fun t => ?_
  refine (Reaches.instantiate _ _).bind fun base => ?_
  refine (Reaches.addInterface _ _).bind fun _ => ?_
  refine (Reaches.addProperty _ _ _ _).bind fun _ => ?_
  refine (reaches_instanceMethod _ _ _ _).bind fun _ => ?_
  refine (reaches_instanceMethod _ _ _ _).bind fun _ => .get fun t => ?_
  refine (Reaches.define _ _ _).bind fun extensions => ?_
  refine (reaches_extensionMethod _ _ _ _).bind fun _ => ?_
  refine (reaches_extensionMethod _ _ _ _).bind fun _ => ?_
  refine (reaches_extensionMethod _ _ _ _).bind fun _ => ?_
  exact .pure _

theorem reaches_defineSystem : Reaches defineSystem := by
  unfold defineSystem
  refine (Reaches.define _ _ _).bind fun comparable => ?_
  refine (reaches_instanceMethod _ _ _ _).bind fun _ => ?_
  refine reaches_defineMath.bind fun math => ?_
  refine (reaches_defineCollections math).bind fun system => ?_
  refine (Reaches.forIn _ fun type => ?_).bind fun _ => ?_
  · refine (Reaches.instantiate _ _).bind fun _ => ?_
    exact (Reaches.nullableOf _).bind fun _ => .pure _
  refine (Reaches.extensibleOf _).bind fun _ => ?_
  exact (Reaches.extensibleOf _).bind fun _ => .pure system

theorem reaches_defineCredits : Reaches defineCredits := by
  unfold defineCredits
  refine (Reaches.define _ _ _).bind fun credits => ?_
  refine (Reaches.addProperty _ _ _ _).bind fun _ => ?_
  refine (reaches_staticMethod _ _ _ _).bind fun _ => ?_
  exact (Reaches.addMethod _ _).bind fun _ => .pure credits

theorem reaches_defineGame (system : SystemTypes) : Reaches (defineGame system) := by
  have property {β : Type} {f : Unit → Building β} (id : TypeId) (name : String) (type : TypeId)
      (h : Reaches (f ())) : Reaches (addProperty id name type false >>= f) :=
    (Reaches.addProperty id name type false).bind fun _ => h
  unfold defineGame
  refine reaches_defineCredits.bind fun credits => ?_
  refine (Reaches.define _ _ _).bind fun populated => property _ _ _ ?_
  refine (Reaches.define _ _ _).bind fun civilization => property _ _ _ (property _ _ _ ?_)
  refine (Reaches.define _ _ _).bind fun gameSector => property _ _ _ ?_
  refine (Reaches.define _ _ _).bind fun mapSector => property _ _ _ (property _ _ _ ?_)
  refine (Reaches.define _ _ _).bind fun colony => ?_
  refine (Reaches.addInterface _ _).bind fun _ => ?_
  refine (Reaches.extensibleOf _).bind fun morale => ?_
  refine (Reaches.extensibleOf _).bind fun growth => ?_
  refine property _ _ _ (property _ _ _ (property _ _ _ ?_))
  refine property _ _ _ (property _ _ _ (property _ _ _ (property _ _ _ ?_)))
  refine (reaches_instanceMethod _ _ _ _).bind fun _ => ?_
  refine (Reaches.define _ _ _).bind fun extensions => ?_
  refine (reaches_extensionMethod _ _ _ _).bind fun _ => ?_
  refine (reaches_extensionMethod _ _ _ _).bind fun _ => ?_
  refine (Reaches.instantiate _ _).bind fun _ => ?_
  exact (Reaches.instantiate _ _).bind fun _ => .pure extensions

theorem reaches_build : Reaches build :=
  reaches_defineSystem.bind fun system => (reaches_defineGame system).bind fun _ => .pure _

theorem reachable_loadAll {toLoad : List HostModule} {r r' : Runtime} (hr : r.Reachable)
    (h : toLoad.foldlM (fun r m => match r.loadModule m with
      | .error e => .error (.refused e)
      | .ok (_, r) => .ok r) r = (.ok r' : Except HostError Runtime)) : r'.Reachable := by
  induction toLoad generalizing r with
  | nil =>
      cases h
      exact hr
  | cons m toLoad ih =>
      rw [List.foldlM_cons] at h
      cases hl : r.loadModule m with
      | error e =>
          rw [hl] at h
          cases h
      | ok loaded =>
          rw [hl] at h
          exact ih (.loadModule hr hl) h

-- The standard host is one of the hosts that there are.
theorem reachable_host : host.Reachable := by
  unfold host
  split
  · rename_i r hr
    unfold host? at hr
    split at hr
    · cases hr
    · rename_i toLoad types hbuild
      have htypes : types.Reached := reaches_build .initial .initial toLoad types hbuild
      exact reachable_loadAll (.ofTable htypes) hr
  · exact .ofTable .initial

end Standard

end EventScript
