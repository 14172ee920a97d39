import EventScript.Proofs.Host.Reached

namespace EventScript

namespace TypeTable

-- The descriptions of new types: they have no methods yet, definitions have a namespace, and
-- instances are described after their definitions.
structure Admits (t : TypeTable) (d : TypeDef) : Prop where
  methods_eq : d.methods = []
  home_of_definition : ∀ parameters, d.shape = .definition parameters → d.home.isSome
  applied : ∀ definition arguments, d.shape = .instanceOf definition arguments →
    t.contains definition ∧ d = (t.get definition).applied definition arguments

-- What outlasts new types and all changes that leave the names and methods of types alone.
structure Lasting (I : TypeTable → Prop) : Prop where
  push : ∀ {t : TypeTable} {d : TypeDef} (h : ∀ a ∈ d.shape.arguments, a.index < t.size),
    I t → t.Admits d → I (t.push d h)
  modify : ∀ {t : TypeTable} {f : TypeDef → TypeDef} (id : TypeId)
    (h : ∀ d, (f d).shape = d.shape), I t → (∀ d, (f d).home = d.home ∧ (f d).name = d.name) →
    (∀ d, (f d).methods = d.methods) → I (t.modify id f h)

end TypeTable

namespace Building

open TypeTable

variable {α β : Type} {I : TypeTable → Prop} {t : TypeTable} {m : Building α}

-- Whatever comes of the step, it keeps the invariant.
def Keeps (I : TypeTable → Prop) (t : TypeTable) (m : Building α) : Prop :=
  I t → I (outcome m t).2

namespace Keeps

theorem pure (a : α) : Keeps I t (pure a) := id

theorem throw (e : TypeError) : Keeps I t (throw e : Building α) := id

theorem bind {f : α → Building β} (hm : Keeps I t m) (hf : ∀ a t', Keeps I t' (f a)) :
    Keeps I t (m >>= f) := by
  intro hi
  have hfirst := hm hi
  rw [outcome_bind]
  revert hfirst
  rcases outcome m t with ⟨e | a, t'⟩
  · exact id
  · exact hf a t'

theorem get {f : TypeTable → Building β} (hf : Keeps I t (f t)) : Keeps I t (get >>= f) := hf

-- What a check has made sure of can be relied on behind it.
theorem guard {m : Building Unit} {f : Unit → Building β} {P : Prop} (hm : Guards t m P)
    (hf : P → Keeps I t (f ())) : Keeps I t (m >>= f) := by
  intro hi
  rcases hm with ⟨hp, ho⟩ | ⟨-, e, ho⟩
  · rw [outcome_bind_ok ho]
    exact hf hp hi
  · rwa [outcome_bind_error ho]

theorem discard (h : Keeps I t m) : Keeps I t (discard m) := bind h fun _ _ => pure ()

theorem mapM {f : α → Building β} (hf : ∀ a t, Keeps I t (f a)) (as : List α) :
    Keeps I t (as.mapM f) := by
  induction as generalizing t with
  | nil => exact pure []
  | cons a as ih =>
      rw [List.mapM_cons]
      exact bind (hf a t) fun b _ => bind ih fun bs _ => pure (b :: bs)

theorem optionMapM {f : α → Building β} (hf : ∀ a t, Keeps I t (f a)) (a : Option α) :
    Keeps I t (a.mapM f) := by
  cases a with
  | none => exact pure none
  | some a => exact bind (hf a t) fun b _ => pure (some b)

section Replace

variable {make : TypeId → List TypeId → Building TypeId}

mutual

theorem replace (hmake : ∀ definition arguments t, Keeps I t (make definition arguments))
    (replacements : List TypeId) (tree : TypeTree) (t : TypeTable) :
    Keeps I t (replace make replacements tree) := by
  match tree with
  | .node id arguments =>
      unfold Building.replace
      refine get ?_
      split
      · exact pure _
      · split
        · exact bind (replaceAll hmake replacements arguments t) fun _ => hmake _ _
        · exact pure id

theorem replaceAll (hmake : ∀ definition arguments t, Keeps I t (make definition arguments))
    (replacements : List TypeId) (trees : List TypeTree) (t : TypeTable) :
    Keeps I t (replaceAll make replacements trees) := by
  match trees with
  | [] =>
      unfold Building.replaceAll
      exact pure []
  | tree :: rest =>
      unfold Building.replaceAll
      refine bind (replace hmake replacements tree t) fun first t' => ?_
      exact bind (replaceAll hmake replacements rest t') fun _ _ => pure _

end

theorem replaceParameters
    (hmake : ∀ definition arguments t, Keeps I t (make definition arguments))
    (replacements : List TypeId) (type : TypeId) (t : TypeTable) :
    Keeps I t (replaceParameters make replacements type) :=
  get (replace hmake replacements _ t)

end Replace

variable (hI : Lasting I)
include hI

theorem change {id : TypeId} {f : TypeDef → TypeDef} {h : ∀ d, (f d).shape = d.shape}
    (hname : ∀ d, (f d).home = d.home ∧ (f d).name = d.name)
    (hmethods : ∀ d, (f d).methods = d.methods) : Keeps I t (change id f h) :=
  fun hi => hI.modify id h hi hname hmethods

theorem add {d : TypeDef} {h : d.shape.arguments = []} (hd : t.Admits d) : Keeps I t (add d h) :=
  fun hi => hI.push (by simp [h]) hi hd

theorem addParameters (position : Nat) (names : List String) :
    Keeps I t (addParameters position names) := by
  induction names generalizing t position with
  | nil => exact pure ()
  | cons name names ih =>
      refine bind (add hI ⟨rfl, ?_, ?_⟩) fun _ _ => ih (position + 1)
      · exact fun _ hs => by cases hs
      · exact fun _ _ hs => by cases hs

theorem addInstance {definition : TypeId} (hc : t.contains definition)
    (arguments : List TypeId) :
    Keeps I t (addInstance (t.get definition) definition arguments) := by
  intro hi
  by_cases ha : ∀ a ∈ arguments, a.index < t.size
  · have ho : outcome (Building.addInstance (t.get definition) definition arguments) t =
        (.ok ⟨t.size⟩, t.push ((t.get definition).applied definition arguments) ha) := dif_pos ha
    rw [ho]
    refine hI.push (d := (t.get definition).applied definition arguments) ha hi ⟨rfl, ?_, ?_⟩
    · exact fun _ hs => by cases hs
    · intro other own hs
      obtain ⟨rfl, rfl⟩ := GenericShape.instanceOf.inj hs
      exact ⟨hc, rfl⟩
  · have ho : outcome (Building.addInstance (t.get definition) definition arguments) t =
        (.error (.unknownType ((arguments.find? fun a => !t.contains a).getD default)), t) :=
      dif_neg ha
    rwa [ho]

theorem instantiateWithin (depth : Nat) (definition : TypeId) (arguments : List TypeId)
    (t : TypeTable) : Keeps I t (instantiateWithin depth definition arguments) := by
  induction depth generalizing definition arguments t with
  | zero => exact get (throw _)
  | succ depth ih =>
      unfold Building.instantiateWithin
      refine guard (Guards.check definition) fun hc => ?_
      refine guard (Guards.forM_check arguments) fun _ => get ?_
      dsimp only
      split
      · split
        · exact throw _
        · split
          · exact pure _
          · refine bind (addInstance hI hc arguments) fun id _ => ?_
            refine bind (optionMapM (replaceParameters ih arguments) _) fun base _ => ?_
            refine bind (mapM (replaceParameters ih arguments) _) fun interfaces _ => ?_
            exact bind (change hI (fun _ => ⟨rfl, rfl⟩) fun _ => rfl) fun _ _ => pure id
      · exact throw _

end Keeps

end Building

-- Every call but one that adds a method.
open Building TypeTable in
theorem BuildStep.keeps {I : TypeTable → Prop} (hI : Lasting I) (s : BuildStep) (limit : Nat)
    (h : ∀ declaring spec, s ≠ .addMethod declaring spec) (t : TypeTable) :
    Keeps I t (s.run limit) := by
  cases s with
  | define home name kind =>
      refine .discard (.guard (Guards.checkNewName home name 0) fun _ => .add hI ⟨rfl, ?_, ?_⟩)
      · exact fun _ _ => rfl
      · exact fun _ _ hs => by cases hs
  | defineGeneric home name kind parameters =>
      refine .discard (.guard (Guards.checkNewName home name _) fun _ => .get ?_)
      refine .bind (.add hI ⟨rfl, ?_, ?_⟩) fun id _ => .bind (.addParameters hI 0 parameters)
        fun _ _ => .pure id
      · exact fun _ _ => rfl
      · exact fun _ _ hs => by cases hs
  | instantiate definition arguments => exact (Keeps.instantiateWithin hI _ _ _ t).discard
  | nullableOf underlying => exact (Keeps.instantiateWithin hI _ _ _ t).discard
  | extensibleOf underlying => exact (Keeps.instantiateWithin hI _ _ _ t).discard
  | setBase id base =>
      refine .guard (Guards.check id) fun _ => .guard (Guards.check base) fun _ => ?_
      exact .change hI (fun _ => ⟨rfl, rfl⟩) fun _ => rfl
  | addInterface id «interface» =>
      refine .guard (Guards.check id) fun _ => .guard (Guards.check «interface») fun _ => ?_
      exact .change hI (fun _ => ⟨rfl, rfl⟩) fun _ => rfl
  | setPublic id isPublic =>
      refine .guard (Guards.check id) fun _ => ?_
      exact .change hI (fun _ => ⟨rfl, rfl⟩) fun _ => rfl
  | addProperty id name type isStatic =>
      refine .guard (Guards.check id) fun _ => .guard (Guards.check type) fun _ => ?_
      exact .change hI (fun _ => ⟨rfl, rfl⟩) fun _ => rfl
  | addMethod declaring spec => exact absurd rfl (h declaring spec)

end EventScript
