import EventScript.Proofs.Host.Building
import EventScript.Proofs.Host.Replacement

namespace EventScript

open TypeTable

-- The definition can be applied to the arguments: it has as many parameters as they are.
structure TypeTable.Applies (t : TypeTable) (definition : TypeId) (arguments : List TypeId) :
    Prop where
  contains_definition : t.contains definition
  contains_arguments : ∀ a ∈ arguments, t.contains a
  shape_eq : ∃ parameters, (t.get definition).shape = .definition parameters ∧
    parameters.length = arguments.length

namespace Building

variable {t t₀ : TypeTable} {make : TypeId → List TypeId → Building TypeId}
  {definition : TypeId} {arguments replacements : List TypeId}

theorem shape_tree_cases (hw : t.WellFormed) {type generic : TypeId} (hc : t.contains type)
    {own : List TypeId} (hs : (t.get type).shape = .instanceOf generic own) :
    t.genericArguments type = own ∧ t.Applies generic own ∧ ∀ a ∈ own, a.index < type.index := by
  obtain ⟨-, ha, hp⟩ := hw.definition_of_instance hc hs
  have hargs : t.genericArguments type = own := by rw [genericArguments, hs, GenericShape.arguments]
  exact ⟨hargs, ⟨hw.contains_definition hs, fun a => hw.contains_argument hs, hp⟩, ha⟩

-- The step comes through and only adds instances that mirror their definitions.
def Completing {α : Type} (t : TypeTable) (m : Building α) (Q : α → TypeTable → Prop) : Prop :=
  Succeeds t m fun a t' => t.Completes t' ∧ Q a t'

namespace Completing

variable {α β : Type} {m : Building α} {Q Q' : α → TypeTable → Prop} {R : β → TypeTable → Prop}

theorem pure {a : α} (hw : t.WellFormed) (hq : Q a t) : Completing t (pure a) Q :=
  Succeeds.pure hw ⟨.refl t, hq⟩

theorem bind {f : α → Building β} (hm : Completing t m Q)
    (hf : ∀ a t', t'.WellFormed → t.GrowsTo t' → Q a t' → Completing t' (f a) R) :
    Completing t (m >>= f) R := by
  refine Succeeds.bind hm fun a t' hw hg hq => ?_
  refine (hf a t' hw hg hq.2).imp fun b t'' hw' hr => ?_
  exact ⟨hq.1.trans hr.1 hw', hr.2⟩

theorem imp (h : Completing t m Q) (hq : ∀ a t', t.GrowsTo t' → Q a t' → Q' a t') :
    Completing t m Q' :=
  Succeeds.imp h fun a t' _ ha => ⟨ha.1, hq a t' ha.1.grows ha.2⟩

end Completing

-- A type that has been found or made for another one, from which it comes by replacing parameters.
def Replacing (replacements : List TypeId) (type id : TypeId) (t : TypeTable) : Prop :=
  t.contains id ∧ t.Replaced replacements type id

theorem Replacing.grown {t' : TypeTable} {type id : TypeId}
    (h : Replacing replacements type id t) (hg : t.GrowsTo t') :
    Replacing replacements type id t' :=
  ⟨hg.contains h.1, h.2.grown hg⟩

theorem replaced_of_forall₂ {types ids : List TypeId}
    (h : List.Forall₂ (Replacing replacements · · t) types ids) :
    List.Forall₂ (t.Replaced replacements) types ids :=
  h.imp fun _ _ hr => hr.2

theorem contains_of_forall₂ {types ids : List TypeId}
    (h : List.Forall₂ (Replacing replacements · · t) types ids) : ∀ a ∈ ids, t.contains a := by
  induction h with
  | nil => simp
  | cons hr _ ih => exact List.forall_mem_cons.mpr ⟨hr.1, ih⟩

theorem contains_of_option_rel {type id : Option TypeId}
    (h : Option.Rel (Replacing replacements · · t) type id) : ∀ a, id = some a → t.contains a := by
  rintro a rfl
  cases h with
  | some hr => exact hr.1

-- All arguments are replaced, each on the table that those before it have left.
theorem completing_replaceAll {own : List TypeId}
    (hreplace : ∀ a ∈ own, ∀ t, t.WellFormed → t₀.GrowsTo t → (∀ r ∈ replacements, t.contains r) →
      Completing t (replace make replacements (t₀.tree a)) (Replacing replacements a))
    (hw : t.WellFormed) (hg : t₀.GrowsTo t) (hr : ∀ r ∈ replacements, t.contains r) :
    Completing t (replaceAll make replacements (own.map t₀.tree)) fun ids t' =>
      List.Forall₂ (Replacing replacements · · t') own ids := by
  induction own generalizing t with
  | nil => exact .pure hw .nil
  | cons a own ih =>
      rw [List.map_cons, replaceAll]
      refine (hreplace a List.mem_cons_self t hw hg hr).bind fun id t' hw' hg' hid => ?_
      have htail := ih (fun a ha => hreplace a (List.mem_cons_of_mem _ ha)) hw' (hg.trans hg')
        fun r hm => hg'.contains (hr r hm)
      refine htail.bind fun ids t'' hw'' hg'' hids => .pure hw'' ?_
      exact .cons (hid.grown hg'') hids

-- By induction on the number of the type, whose arguments have smaller numbers. What an instance
-- is made of again has the number of arguments that its definition asks for.
theorem completing_replace (hw₀ : t₀.WellFormed)
    (hmake : ∀ t definition arguments, t.WellFormed → t.Applies definition arguments →
      Completing t (make definition arguments) fun id t' =>
        t'.contains id ∧ (t'.get id).shape = .instanceOf definition arguments)
    (type : TypeId) (hc : t₀.contains type) (hw : t.WellFormed) (hg : t₀.GrowsTo t)
    (hr : ∀ r ∈ replacements, t.contains r) :
    Completing t (replace make replacements (t₀.tree type)) (Replacing replacements type) := by
  induction hn : type.index using Nat.strongRecOn generalizing type t with
  | ind n ih =>
      subst hn
      rw [tree_eq, replace]
      refine Succeeds.get ?_
      rw [hg.kind_eq hc]
      split
      · rename_i position hk
        refine Completing.pure hw ⟨?_, .parameter ((hg.kind_eq hc).trans hk)⟩
        cases hp : replacements[position]? with
        | none => exact hg.contains hc
        | some r => exact hr r (List.mem_of_getElem? hp)
      · rename_i hk
        have hparameter : t.isGenericParameter type = false := by
          rw [hg.isGenericParameter_eq hc, isGenericParameter]
          split
          · rename_i position hp
            exact absurd hp (hk position)
          · rfl
        rw [hg.shape_eq hc]
        split
        · rename_i generic own hs
          obtain ⟨hargs, happ, hlt⟩ := shape_tree_cases hw₀ hc hs
          rw [hargs]
          refine (completing_replaceAll ?_ hw hg hr).bind fun ids t' hw' hg' hids => ?_
          · intro a ha t' hw' hg' hr'
            exact ih a.index (hlt a ha) a (happ.contains_arguments a ha) hw' hg' hr' rfl
          · obtain ⟨parameters, hp, hl⟩ := happ.shape_eq
            have hgrown := hg.trans hg'
            have hlength : own.length = ids.length := hids.length_eq
            have happlies : t'.Applies generic ids := by
              refine ⟨hgrown.contains happ.contains_definition, contains_of_forall₂ hids,
                parameters, ?_, ?_⟩
              · rw [hgrown.shape_eq happ.contains_definition, hp]
              · rw [← hlength, hl]
            refine (hmake t' generic ids hw' happlies).imp fun id t'' hg'' hid => ⟨hid.1, ?_⟩
            have hgrown' := hgrown.trans hg''
            have hown : List.Forall₂ (t''.Replaced replacements) own ids :=
              hids.imp fun _ _ h => (h.grown hg'').2
            refine .applied ?_ ((hgrown'.shape_eq hc).trans hs) hid.2 hlength ?_
            · rw [hgrown'.isGenericParameter_eq hc, ← hg.isGenericParameter_eq hc, hparameter]
            · exact fun a b hm => (List.forall₂_iff_zip.mp hown).2 hm
        · rename_i hs
          refine Completing.pure hw ⟨hg.contains hc, .closed (hg.contains hc) hparameter fun d own he => ?_⟩
          exact hs d own ((hg.shape_eq hc).symm.trans he)

theorem completing_replaceParameters
    (hmake : ∀ t definition arguments, t.WellFormed → t.Applies definition arguments →
      Completing t (make definition arguments) fun id t' =>
        t'.contains id ∧ (t'.get id).shape = .instanceOf definition arguments)
    {type : TypeId} (hw : t.WellFormed) (hr : ∀ r ∈ replacements, t.contains r)
    (hc : t.contains type) :
    Completing t (replaceParameters make replacements type) (Replacing replacements type) :=
  Succeeds.get (completing_replace hw hmake type hc hw (.refl t) hr)

section MapM

variable {f : TypeId → Building TypeId}
  (hf : ∀ t type, t.WellFormed → t₀.GrowsTo t → t.contains type →
    Completing t (f type) (Replacing replacements type))

include hf

theorem completing_list_mapM {types : List TypeId} (hw : t.WellFormed) (hg : t₀.GrowsTo t)
    (hc : ∀ type ∈ types, t.contains type) :
    Completing t (types.mapM f) fun ids t' =>
      List.Forall₂ (Replacing replacements · · t') types ids := by
  induction types generalizing t with
  | nil => exact .pure hw .nil
  | cons type types ih =>
      rw [List.mapM_cons]
      obtain ⟨hfirst, hrest⟩ := List.forall_mem_cons.mp hc
      refine (hf t type hw hg hfirst).bind fun id t' hw' hg' hid => ?_
      refine (ih hw' (hg.trans hg') fun a ha => hg'.contains (hrest a ha)).bind ?_
      intro ids t'' hw'' hg'' hids
      exact .pure hw'' (.cons (hid.grown hg'') hids)

theorem completing_option_mapM {type : Option TypeId} (hw : t.WellFormed) (hg : t₀.GrowsTo t)
    (hc : ∀ a, type = some a → t.contains a) :
    Completing t (type.mapM f) fun id t' => Option.Rel (Replacing replacements · · t') type id := by
  cases type with
  | none => exact .pure hw .none
  | some type =>
      refine (hf t type hw hg (hc type rfl)).bind fun id t' hw' _ hid => .pure hw' ?_
      exact .some hid

end MapM

-- A new instance has nothing yet but its arguments; it can be looked up from then on.
theorem succeeds_addInstance (hw : t.WellFormed) (ha : t.Applies definition arguments)
    (hnew : t.findInstance? definition arguments = none) :
    Succeeds t (addInstance (t.get definition) definition arguments) fun id t' =>
      id = ⟨t.size⟩ ∧ ∃ h, t' = t.push ((t.get definition).applied definition arguments) h := by
  let d := (t.get definition).applied definition arguments
  have hargs : ∀ a ∈ arguments, a.index < t.size :=
    fun a hm => contains_iff.mp (ha.contains_arguments a hm)
  have hd : ∀ a ∈ d.mentioned, a.index < t.size := by
    intro a hm
    rcases TypeDef.mem_mentioned.mp hm with hm | hm | hm | ⟨p, hp, -⟩
    · rcases List.mem_cons.mp hm with rfl | hm
      · exact contains_iff.mp ha.contains_definition
      · exact hargs a hm
    · cases hm
    · cases hm
    · cases hp
  have hunnamed : ¬d.isNamed := by
    cases hk : (t.get definition).kind <;> simp [d, TypeDef.applied, TypeDef.isNamed, hk]
  have hown : ∀ a ∈ d.shape.arguments, a.index < t.size := hargs
  have hpush : (t.push d hown).WellFormedBelow t.size := by
    refine hw.push hd rfl ?_ fun hn => absurd hn hunnamed
    rintro generic own hs
    obtain ⟨rfl, rfl⟩ := GenericShape.instanceOf.inj hs
    exact ⟨hnew, contains_iff.mp ha.contains_definition, rfl, ha.shape_eq⟩
  exact .inl
    ⟨⟨t.size⟩, t.push d hown, dif_pos hargs, hpush.mono (by simp), growsTo_push, rfl, hown, rfl⟩

def setParents (base : Option TypeId) (interfaces : List TypeId) (d : TypeDef) : TypeDef :=
  { d with base, interfaces }

theorem shape_setParents (base : Option TypeId) (interfaces : List TypeId) (d : TypeDef) :
    (setParents base interfaces d).shape = d.shape := rfl

theorem succeeds_changeParents {id : TypeId} {base : Option TypeId} {interfaces : List TypeId}
    (hw : t.WellFormed) (hc : t.contains id) (hb : ∀ a, base = some a → t.contains a)
    (hi : ∀ a ∈ interfaces, t.contains a) :
    Succeeds t (change id (setParents base interfaces) (shape_setParents _ _))
      fun _ t' => t' = t.modify id (setParents base interfaces) (shape_setParents _ _) := by
  refine succeeds_change hw hc (fun _ => ⟨rfl, rfl, rfl⟩) ?_ fun d m hm => .inl hm
  intro d a hm
  rcases TypeDef.mem_mentioned.mp hm with hm | hm | hm | hm
  · exact .inl (TypeDef.mem_mentioned.mpr (.inl hm))
  · exact .inr (hb a hm)
  · exact .inr (hi a hm)
  · exact .inl (TypeDef.mem_mentioned.mpr (.inr (.inr (.inr hm))))

-- Between the two ends of making an instance, only the instances that it asks for are added.
theorem completes_instance {t' : TypeTable} {base : Option TypeId} {interfaces : List TypeId}
    (ha : t.Applies definition arguments)
    (h : ∀ a ∈ ((t.get definition).applied definition arguments).shape.arguments, a.index < t.size)
    (hm : (t.push _ h).Completes t') (hw : t'.WellFormed)
    (hb : Option.Rel (t'.Replaced arguments) (t.get definition).base base)
    (hi : List.Forall₂ (t'.Replaced arguments) (t.get definition).interfaces interfaces) :
    t.Completes (t'.modify ⟨t.size⟩ (setParents base interfaces) (shape_setParents _ _)) := by
  have hnew : (t.push _ h).contains ⟨t.size⟩ := contains_push.mpr (.inl rfl)
  have hc := hm.grows.contains hnew
  have hshape : (t'.get ⟨t.size⟩).shape = .instanceOf definition arguments := by
    rw [hm.get_eq hnew, get_push, if_pos rfl]
    rfl
  have hmodify : t'.GrowsTo (t'.modify ⟨t.size⟩ (setParents base interfaces) (shape_setParents _ _)) :=
    growsTo_modify hc fun _ => rfl
  have hother {id : TypeId} (hne : id ≠ ⟨t.size⟩) :
      (t'.modify ⟨t.size⟩ (setParents base interfaces) (shape_setParents _ _)).get id = t'.get id := by
    rw [get_modify hc, if_neg hne]
  have hne {id : TypeId} (hc' : t.contains id) : id ≠ ⟨t.size⟩ := by
    rintro rfl
    exact index_ne_of_contains hc' rfl
  constructor
  case grows => exact (growsTo_push.trans hm.grows).trans hmodify
  case get_eq =>
    intro id hc'
    rw [hother (hne hc'), hm.get_eq (growsTo_push.contains hc'), get_push_of_contains hc']
  case mirrored =>
    intro id hc'
    rw [contains_modify] at hc'
    by_cases he : id = ⟨t.size⟩
    · subst he
      refine .inr ⟨definition, arguments, ha.contains_definition, ?_, ?_⟩
      · rw [hmodify.shape_eq hc', hshape]
      · rw [get_modify hc, if_pos rfl]
        exact ⟨option_rel_imp (fun _ _ hr => hr.grown hmodify) hb,
          hi.imp fun _ _ hr => hr.grown hmodify⟩
    rw [hother he]
    rcases hm.mirrored hc' with hold | ⟨generic, own, hd, hs, hmirrors⟩
    · exact .inl ((contains_push.mp hold).resolve_left fun hi => he (by cases id; simpa using hi))
    · -- the definition of an instance is not the instance that is being made
      have hd' : t.contains generic := by
        refine (contains_push.mp hd).resolve_left fun hi => ?_
        obtain rfl : generic = ⟨t.size⟩ := by cases generic; simpa using hi
        obtain ⟨parameters, hp, -⟩ := hw.exists_parameters hs
        cases hp.symm.trans hshape
      rw [get_push_of_contains hd'] at hmirrors
      exact .inr ⟨generic, own, hd', hs, hmirrors.grown hmodify⟩

-- By induction on how deep instances may nest. Once the definition is known to apply nothing can
-- fail: an instance that the new one asks for has as many arguments as the type it is made from.
theorem succeeds_instantiateWithin (depth : Nat) (hw : t.WellFormed)
    (ha : t.Applies definition arguments) :
    Completing t (instantiateWithin depth definition arguments) fun id t' =>
      t'.contains id ∧ (t'.get id).shape = .instanceOf definition arguments := by
  induction depth generalizing t definition arguments with
  | zero => exact .inr ⟨_, t, rfl, trivial⟩
  | succ depth ih =>
      obtain ⟨parameters, hs, hl⟩ := ha.shape_eq
      unfold instantiateWithin
      refine Succeeds.guard (Guards.check definition) ha.contains_definition ?_
      refine Succeeds.guard (Guards.forM_check arguments) ha.contains_arguments ?_
      refine Succeeds.get ?_
      dsimp only
      rw [hs]
      dsimp only
      rw [if_neg (by simpa using hl)]
      cases hf : t.findInstance? definition arguments with
      | some existing => exact Completing.pure hw (hw.findInstance?_eq_some.mp hf)
      | none =>
          refine Succeeds.bind (succeeds_addInstance hw ha hf) ?_
          rintro _ t₁ hw₁ hg₁ ⟨rfl, h, rfl⟩
          have hreplace (t' : TypeTable) (type : TypeId) (hw' : t'.WellFormed)
              (hg' : (t.push _ h).GrowsTo t') (hc : t'.contains type) :=
            completing_replaceParameters (fun t definition arguments hw ha => ih hw ha) hw'
              (fun r hr => (hg₁.trans hg').contains (ha.contains_arguments r hr)) hc
          have hmentioned (a : TypeId) (ha' : a ∈ (t.get definition).mentioned) :
              (t.push _ h).contains a :=
            hg₁.contains (contains_iff.mpr (hw.mentioned_lt ha.contains_definition ha'))
          refine Succeeds.bind (completing_option_mapM hreplace hw₁ (.refl _) ?_) ?_
          · exact fun a hm => hmentioned a (TypeDef.mem_mentioned.mpr (.inr (.inl hm)))
          rintro base t₂ hw₂ hg₂ ⟨hm₂, hb⟩
          refine Succeeds.bind (completing_list_mapM hreplace hw₂ hg₂ ?_) ?_
          · intro a hm
            exact hg₂.contains (hmentioned a (TypeDef.mem_mentioned.mpr (.inr (.inr (.inl hm)))))
          rintro interfaces t₃ hw₃ hg₃ ⟨hm₃, hi⟩
          have hm := hm₂.trans hm₃ hw₃
          have hid : (t.push _ h).contains ⟨t.size⟩ := contains_push.mpr (.inl rfl)
          have hid₃ := hm.grows.contains hid
          have hbase : Option.Rel (Replacing arguments · · t₃) (t.get definition).base base :=
            option_rel_imp (fun _ _ hr => hr.grown hg₃) hb
          refine Succeeds.bind (succeeds_changeParents hw₃ hid₃ (contains_of_option_rel hbase)
            (contains_of_forall₂ hi)) ?_
          rintro _ _ hw₄ hg₄ rfl
          have hcompletes := completes_instance ha h hm hw₃
            (option_rel_imp (fun _ _ hr => hr.2) hbase) (replaced_of_forall₂ hi)
          refine Succeeds.pure hw₄ ⟨hcompletes, hg₄.contains hid₃, ?_⟩
          rw [hg₄.shape_eq hid₃, hm.grows.shape_eq hid, get_push, if_pos rfl]
          rfl

theorem refuses_instantiateWithin (depth : Nat) (ha : ¬t.Applies definition arguments) :
    Refuses t (instantiateWithin depth definition arguments) := by
  cases depth with
  | zero => exact ⟨_, t, rfl, .inl trivial⟩
  | succ depth =>
      unfold instantiateWithin
      refine Refuses.guard (Guards.check definition) fun hd => ?_
      refine Refuses.guard (Guards.forM_check arguments) fun has => ?_
      refine Refuses.get ?_
      dsimp only
      split
      · rename_i parameters hs
        have hl : parameters.length ≠ arguments.length := fun hl => ha ⟨hd, has, parameters, hs, hl⟩
        rw [if_pos hl]
        exact ⟨_, t, rfl, .inr rfl⟩
      · exact ⟨_, t, rfl, .inr rfl⟩

theorem atomic_instantiateWithin (hw : t.WellFormed) (depth : Nat) (definition : TypeId)
    (arguments : List TypeId) : Atomic t (instantiateWithin depth definition arguments) := by
  by_cases ha : t.Applies definition arguments
  · exact .of_succeeds (succeeds_instantiateWithin depth hw ha)
  · exact .inr (refuses_instantiateWithin depth ha)

end Building

end EventScript
