import EventScript.Proofs.Host.Substitution

namespace EventScript

open TypeTable

namespace Building

variable {t t' : TypeTable} {id definition type result : TypeId}
  {own arguments results : List TypeId} {make : TypeId → List TypeId → Building TypeId}

theorem outcome_get {α : Type} (f : TypeTable → Building α) (t : TypeTable) :
    outcome (get >>= f) t = outcome (f t) t := rfl

-- An instance that is there already is found, and nothing is made.
theorem outcome_instantiateWithin (depth : Nat) (hw : t.WellFormed)
    (h : t.findInstance? definition arguments = some id) :
    outcome (instantiateWithin (depth + 1) definition arguments) t = (.ok id, t) := by
  have hs := (hw.findInstance?_eq_some.mp h).2
  obtain ⟨parameters, hp, hl⟩ := hw.exists_parameters hs
  have hd : outcome (Building.check definition) t = (.ok (), t) :=
    ((Guards.check definition).resolve_right fun hn => hn.1 (hw.contains_definition hs)).2
  have ha : outcome (arguments.forM Building.check) t = (.ok (), t) :=
    ((Guards.forM_check arguments).resolve_right fun hn =>
      hn.1 fun a hm => hw.contains_argument hs hm).2
  unfold instantiateWithin
  rw [outcome_bind_ok hd, outcome_bind_ok ha, outcome_get]
  dsimp only
  rw [hp]
  dsimp only
  rw [if_neg (by simpa using hl), h]
  rfl

-- What a type becomes is taken as it is found, argument by argument.

theorem outcome_replaceAll
    (hown : ∀ a ∈ own, ∀ b, (t.tree a).replaced? t arguments = some b →
      outcome (replace make arguments (t.tree a)) t = (.ok b, t))
    (h : TypeTree.allReplaced? t arguments (own.map t.tree) = some results) :
    outcome (replaceAll make arguments (own.map t.tree)) t = (.ok results, t) := by
  rw [allReplaced?_eq_some_iff] at h
  induction h with
  | nil => rfl
  | @cons a b own results hfirst _ ih =>
      obtain ⟨ha, hrest⟩ := List.forall_mem_cons.mp hown
      rw [List.map_cons, replaceAll, outcome_bind_ok (ha b hfirst), outcome_bind_ok (ih hrest)]
      rfl

theorem outcome_replace_parameter {position : Nat} (hk : t.kind type = .genericParameter position) :
    outcome (replace make arguments (t.tree type)) t =
      (.ok (arguments[position]?.getD type), t) := by
  rw [tree_eq, replace, outcome_get, hk]
  rfl

theorem outcome_replace_instanceOf (hk : t.isGenericParameter type = false)
    (hs : (t.get type).shape = .instanceOf definition own) :
    outcome (replace make arguments (t.tree type)) t =
      outcome (replaceAll make arguments (own.map t.tree) >>= make definition) t := by
  rw [tree_eq, genericArguments_of_shape hs, replace, outcome_get, hs]
  split
  · rename_i position hp
    rw [isGenericParameter_of_kind hp] at hk
    cases hk
  · rfl

theorem outcome_replace_closed (hk : t.isGenericParameter type = false)
    (hs : ∀ definition own, (t.get type).shape ≠ .instanceOf definition own) :
    outcome (replace make arguments (t.tree type)) t = (.ok type, t) := by
  rw [tree_eq, replace, outcome_get]
  split
  · rename_i position hp
    rw [isGenericParameter_of_kind hp] at hk
    cases hk
  · split
    · rename_i definition own hi
      exact absurd hi (hs definition own)
    · rfl

theorem outcome_replace (hw : t.WellFormed)
    (hmake : ∀ definition own id, t.findInstance? definition own = some id →
      outcome (make definition own) t = (.ok id, t))
    (h : (t.tree type).replaced? t arguments = some result) :
    outcome (replace make arguments (t.tree type)) t = (.ok result, t) := by
  have hclosed {type result : TypeId} (hk : t.isGenericParameter type = false)
      (hs : ∀ definition own, (t.get type).shape ≠ .instanceOf definition own)
      (h : (t.tree type).replaced? t arguments = some result) :
      outcome (replace make arguments (t.tree type)) t = (.ok result, t) := by
    rw [replaced?_of_ne_instanceOf hk hs] at h
    rw [outcome_replace_closed hk hs, Option.some.inj h]
  induction type using hw.type_induction generalizing result with
  | parameter type hk =>
      obtain ⟨position, hp⟩ := exists_kind_of_isGenericParameter hk
      rw [replaced?_of_isGenericParameter hp] at h
      rw [outcome_replace_parameter hp, h, Option.getD_some]
  | plain type hk hs =>
      refine hclosed hk (fun definition own hi => ?_) h
      cases hs.symm.trans hi
  | definition type parameters hk hs =>
      refine hclosed hk (fun definition own hi => ?_) h
      cases hs.symm.trans hi
  | applied type definition own hk hs ih =>
      rw [replaced?_of_instanceOf hk hs] at h
      obtain ⟨results, hall, hfind⟩ := Option.bind_eq_some_iff.mp h
      have hown := outcome_replaceAll (fun a ha b hb => ih a ha hb) hall
      rw [outcome_replace_instanceOf hk hs, outcome_bind_ok hown]
      exact hmake definition results result hfind

-- Replacing the parameters of a type by looking instances up and by making them agree: what is
-- found is what making comes to, without a change to the table, and what making comes to is found
-- from then on, if there is a replacement for each parameter.
theorem replaceParameters_agrees (ht : t.Reached) (hc : t.contains type)
    (ha : ∀ a ∈ arguments, t.contains a) :
    (∀ result, (t.tree type).replaced? t arguments = some result →
      outcome (replaceParameters instantiate arguments type) t = (.ok result, t)) ∧
    ((∀ position ∈ t.positions type, position < arguments.length) → ∀ result t',
      outcome (replaceParameters instantiate arguments type) t = (.ok result, t') →
      (t'.tree type).replaced? t' arguments = some result) := by
  have hw := ht.wellFormed.1
  constructor
  · intro result h
    exact outcome_replace hw (fun _ _ _ hf => outcome_instantiateWithin _ hw hf) h
  · intro hp result t' ho
    rcases completing_replaceParameters (fun _ _ _ hw ha => succeeds_instantiateWithin _ hw ha) hw
      ha hc with ⟨made, t₁, ho', hw', hg, -, -, hreplaced⟩ | ⟨e, t₁, ho', -⟩
    · obtain ⟨hmade, rfl⟩ := Prod.mk.inj (ho'.symm.trans ho)
      obtain rfl := Except.ok.inj hmade
      refine hreplaced.replaced?_eq_some_of_lt hw' ?_
      rwa [hg.positions_eq hc]
    · cases ho'.symm.trans ho

-- A box of the box's own parameter.
def openBoxSteps : List BuildStep := boxSteps ++ [.instantiate ⟨23⟩ [⟨24⟩]]

def openBoxes : TypeTable :=
  openBoxSteps.foldl (fun t s => (outcome (s.run nestingLimit) t).2) .initial

theorem reached_openBoxes : openBoxes.Reached := Reached.initial.foldl (by decide +kernel)

-- For integers the box is there already. For strings it is made, and with it the source that it
-- implements.
theorem replaceParameters_agrees_boxes :
    (openBoxes.tree ⟨28⟩).replaced? openBoxes [.numeric .int32] = some ⟨26⟩ ∧
      outcome (replaceParameters instantiate [.numeric .int32] ⟨28⟩) openBoxes =
        (.ok ⟨26⟩, openBoxes) ∧
      (openBoxes.tree ⟨28⟩).replaced? openBoxes [.string] = none ∧
      ∃ t', outcome (replaceParameters instantiate [.string] ⟨28⟩) openBoxes = (.ok ⟨29⟩, t') ∧
        t'.size = openBoxes.size + 2 ∧ (t'.tree ⟨28⟩).replaced? t' [.string] = some ⟨29⟩ := by
  have hfound : (openBoxes.tree ⟨28⟩).replaced? openBoxes [.numeric .int32] = some ⟨26⟩ := by
    decide +kernel
  have hc : openBoxes.contains ⟨28⟩ := by decide +kernel
  have harguments : openBoxes.contains (.numeric .int32) ∧ openBoxes.contains .string := by
    decide +kernel
  have hint := replaceParameters_agrees reached_openBoxes hc
    (List.forall_mem_singleton.mpr harguments.1)
  have hstring := replaceParameters_agrees reached_openBoxes hc
    (List.forall_mem_singleton.mpr harguments.2)
  have hmade : (outcome (replaceParameters instantiate [.string] ⟨28⟩) openBoxes).1 = .ok ⟨29⟩ := by
    decide +kernel
  refine ⟨hfound, hint.1 _ hfound, by decide +kernel, _, Prod.ext hmade rfl, by decide +kernel, ?_⟩
  exact hstring.2 (by decide +kernel) _ _ (Prod.ext hmade rfl)

end Building

end EventScript
