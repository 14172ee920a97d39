import EventScript.Proofs.Host.Reached

namespace EventScript

-- Whether a definition occurs that has not been applied to any arguments.
def TypeTree.namesDefinition (t : TypeTable) : TypeTree → Bool
  | node id arguments =>
    !t.isGenericParameter id &&
      match (t.get id).shape with
      | .plain => false
      | .definition _ => true
      | .instanceOf _ _ => (arguments.map (namesDefinition t)).or
termination_by tree => sizeOf tree

namespace TypeTable

variable {t : TypeTable} {id definition : TypeId} {arguments own : List TypeId}

def namesDefinition (t : TypeTable) (id : TypeId) : Bool := (t.tree id).namesDefinition t

-- What holds of every type holds by the kinds of types, of an instance with all its arguments.
theorem WellFormed.type_induction {P : TypeId → Prop} (hw : t.WellFormed)
    (parameter : ∀ id, t.isGenericParameter id = true → P id)
    (plain : ∀ id, t.isGenericParameter id = false → (t.get id).shape = .plain → P id)
    (definition : ∀ id parameters, t.isGenericParameter id = false →
      (t.get id).shape = .definition parameters → P id)
    (applied : ∀ id definition own, t.isGenericParameter id = false →
      (t.get id).shape = .instanceOf definition own → (∀ a ∈ own, P a) → P id) (id : TypeId) :
    P id := by
  induction hn : id.index using Nat.strongRecOn generalizing id with
  | ind n ih =>
      subst hn
      cases hk : t.isGenericParameter id with
      | true => exact parameter id hk
      | false =>
          cases hs : (t.get id).shape with
          | plain => exact plain id hk hs
          | definition parameters => exact definition id parameters hk hs
          | instanceOf definition own =>
              have holder := (hw.definition_of_instance (contains_of_shape hs) hs).2.1
              exact applied id definition own hk hs fun a ha => ih a.index (holder a ha) a rfl

-- What a type is made of decides whether a parameter occurs in it.

theorem genericArguments_of_shape (hs : (t.get id).shape = .instanceOf definition own) :
    t.genericArguments id = own := by
  rw [genericArguments, hs, GenericShape.arguments]

theorem exists_kind_of_isGenericParameter (hk : t.isGenericParameter id = true) :
    ∃ position, t.kind id = .genericParameter position := by
  unfold isGenericParameter at hk
  split at hk
  · rename_i position hp
    exact ⟨position, hp⟩
  · cases hk

theorem isGenericParameter_of_closed (h : t.mentionsParameter id = false) :
    t.isGenericParameter id = false := by
  rw [mentionsParameter, tree_eq, TypeTree.mentionsParameter, Bool.or_eq_false_iff] at h
  exact h.1

theorem mentionsParameter_of_plain (hk : t.isGenericParameter id = false)
    (hs : (t.get id).shape = .plain) : t.mentionsParameter id = false := by
  rw [mentionsParameter, tree_eq, TypeTree.mentionsParameter, hk, hs, Bool.false_or]

theorem mentionsParameter_of_definition (hk : t.isGenericParameter id = false)
    (hs : (t.get id).shape = .definition own) : t.mentionsParameter id = true := by
  rw [mentionsParameter, tree_eq, TypeTree.mentionsParameter, hk, hs, Bool.false_or]

theorem mentionsParameter_instanceOf_eq_false (hk : t.isGenericParameter id = false)
    (hs : (t.get id).shape = .instanceOf definition own) :
    t.mentionsParameter id = false ↔ ∀ a ∈ own, t.mentionsParameter a = false := by
  rw [mentionsParameter, tree_eq, genericArguments_of_shape hs, TypeTree.mentionsParameter, hk, hs,
    Bool.false_or]
  simp [mentionsParameter, List.or]

theorem namesDefinition_instanceOf_eq_false (hk : t.isGenericParameter id = false)
    (hs : (t.get id).shape = .instanceOf definition own) :
    t.namesDefinition id = false ↔ ∀ a ∈ own, t.namesDefinition a = false := by
  rw [namesDefinition, tree_eq, genericArguments_of_shape hs, TypeTree.namesDefinition, hk, hs]
  simp [namesDefinition, List.or]

theorem isGenericParameter_of_instanceOf (hw : t.WellFormed)
    (hs : (t.get id).shape = .instanceOf definition own) :
    t.isGenericParameter id = t.isGenericParameter definition := by
  rw [isGenericParameter, isGenericParameter, hw.kind_of_instance (contains_of_shape hs) hs]

-- An instance for closed arguments is closed, if its definition is not passed off as a parameter.
theorem mentionsParameter_of_findInstance? (hw : t.WellFormed)
    (h : t.findInstance? definition own = some id) (hk : t.isGenericParameter definition = false)
    (ha : ∀ a ∈ own, t.mentionsParameter a = false) : t.mentionsParameter id = false := by
  have hs := (hw.findInstance?_eq_some.mp h).2
  have hid := (isGenericParameter_of_instanceOf hw hs).trans hk
  exact (mentionsParameter_instanceOf_eq_false hid hs).mpr ha

-- Replacing the parameters of a type

theorem replaced?_of_isGenericParameter {position : Nat}
    (hk : t.kind id = .genericParameter position) :
    (t.tree id).replaced? t arguments = arguments[position]? := by
  rw [tree_eq, TypeTree.replaced?, hk]

theorem replaced?_of_instanceOf (hk : t.isGenericParameter id = false)
    (hs : (t.get id).shape = .instanceOf definition own) :
    (t.tree id).replaced? t arguments =
      (TypeTree.allReplaced? t arguments (own.map t.tree)).bind (t.findInstance? definition) := by
  rw [tree_eq, genericArguments_of_shape hs, TypeTree.replaced?, hs]
  split
  · rename_i position hp
    simp [isGenericParameter, hp] at hk
  · rfl

theorem replaced?_of_ne_instanceOf (hk : t.isGenericParameter id = false)
    (hs : ∀ definition own, (t.get id).shape ≠ .instanceOf definition own) :
    (t.tree id).replaced? t arguments = some id := by
  rw [tree_eq, TypeTree.replaced?]
  split
  · rename_i position hp
    simp [isGenericParameter, hp] at hk
  · split
    · rename_i definition own hi
      exact absurd hi (hs definition own)
    · rfl

theorem allReplaced?_eq_some_iff {results : List TypeId} :
    TypeTree.allReplaced? t arguments (own.map t.tree) = some results ↔
      List.Forall₂ (fun a b => (t.tree a).replaced? t arguments = some b) own results := by
  induction own generalizing results with
  | nil => simp [TypeTree.allReplaced?, eq_comm]
  | cons a own ih =>
      rw [List.map_cons, TypeTree.allReplaced?, List.forall₂_cons_left_iff]
      simp only [Option.bind_eq_bind, Option.bind_eq_some_iff, Option.some.injEq, ih]
      constructor
      · rintro ⟨first, hf, rest, hr, rfl⟩
        exact ⟨first, rest, hf, hr, rfl⟩
      · rintro ⟨first, rest, hf, hr, rfl⟩
        exact ⟨first, hf, rest, hr, rfl⟩

-- A closed type stays as it is, whatever its parameters would be replaced by.
theorem replaced?_of_closed (hw : t.WellFormed) (h : t.mentionsParameter id = false) :
    (t.tree id).replaced? t arguments = some id := by
  induction id using hw.type_induction with
  | parameter id hk =>
      rw [isGenericParameter_of_closed h] at hk
      cases hk
  | plain id hk hs =>
      refine replaced?_of_ne_instanceOf hk fun definition own hi => ?_
      cases hs.symm.trans hi
  | definition id parameters hk hs =>
      rw [mentionsParameter_of_definition hk hs] at h
      cases h
  | applied id definition own hk hs ih =>
      have hown := (mentionsParameter_instanceOf_eq_false hk hs).mp h
      have hall := allReplaced?_eq_some_iff.mpr
        (List.forall₂_same.mpr fun a ha => ih a ha (hown a ha))
      rw [replaced?_of_instanceOf hk hs, hall, Option.bind_some]
      exact hw.findInstance?_eq_some.mpr ⟨contains_of_shape hs, hs⟩

-- Closed arguments close a type that names no definition by itself.
theorem mentionsParameter_of_replaced? (hw : t.WellFormed)
    (ha : ∀ a ∈ arguments, t.mentionsParameter a = false) (hn : t.namesDefinition id = false)
    {result : TypeId} (hr : (t.tree id).replaced? t arguments = some result) :
    t.mentionsParameter result = false := by
  induction id using hw.type_induction generalizing result with
  | parameter id hk =>
      obtain ⟨position, hp⟩ := exists_kind_of_isGenericParameter hk
      rw [replaced?_of_isGenericParameter hp] at hr
      exact ha result (List.mem_of_getElem? hr)
  | plain id hk hs =>
      rw [replaced?_of_closed hw (mentionsParameter_of_plain hk hs)] at hr
      exact Option.some.inj hr ▸ mentionsParameter_of_plain hk hs
  | definition id parameters hk hs =>
      rw [namesDefinition, tree_eq, TypeTree.namesDefinition, hk, hs] at hn
      cases hn
  | applied id definition own hk hs ih =>
      have hown := (namesDefinition_instanceOf_eq_false hk hs).mp hn
      rw [replaced?_of_instanceOf hk hs] at hr
      obtain ⟨results, hall, hfind⟩ := Option.bind_eq_some_iff.mp hr
      have hclosed : ∀ result ∈ results, t.mentionsParameter result = false := by
        intro result hresult
        obtain ⟨a, ham, hra⟩ :=
          exists_mem_of_forall₂ (allReplaced?_eq_some_iff.mp hall).flip hresult
        exact ih a ham (hown a ham) hra
      have hdefinition := (isGenericParameter_of_instanceOf hw hs).symm.trans hk
      exact mentionsParameter_of_findInstance? hw hfind hdefinition hclosed

-- Why a type that mentions a parameter is not closed by the arguments of the instance that it is
-- seen from.
inductive Unsettled (t : TypeTable) (declared : TypeId) : List TypeId → Prop
  | noArguments : Unsettled t declared []
  | openArgument {arguments : List TypeId} {a : TypeId} : a ∈ arguments →
      t.mentionsParameter a = true → Unsettled t declared arguments
  -- The instance that the type becomes has never been created.
  | neverCreated {arguments : List TypeId} : (t.tree declared).replaced? t arguments = none →
      Unsettled t declared arguments
  | bareDefinition {arguments : List TypeId} : t.namesDefinition declared = true →
      Unsettled t declared arguments

-- A declared type that mentions a parameter, and that what it is seen from leaves open.
structure StaysOpen (t : TypeTable) (declared : TypeId) (context : Option TypeId) : Prop where
  mentionsParameter : t.mentionsParameter declared = true
  unsettled : t.Unsettled declared (context.elim [] t.genericArguments)

theorem seenFrom_eq (declared «instance» : TypeId) :
    t.seenFrom declared «instance» = if t.genericArguments «instance» = [] then declared
      else ((t.tree declared).replaced? t (t.genericArguments «instance»)).getD declared := by
  unfold seenFrom
  split
  · rename_i hnil
    rw [if_pos hnil]
  · rename_i hne
    rw [if_neg hne]

theorem staysOpen_of_seenFrom (hw : t.WellFormed) {declared «instance» : TypeId}
    (h : t.mentionsParameter (t.seenFrom declared «instance») = true) :
    t.StaysOpen declared (some «instance») := by
  rw [seenFrom_eq] at h
  split at h
  · rename_i hnil
    exact ⟨h, by simpa only [Option.elim_some, hnil] using .noArguments⟩
  cases hr : (t.tree declared).replaced? t (t.genericArguments «instance») with
  | none =>
      rw [hr] at h
      exact ⟨h, .neverCreated hr⟩
  | some result =>
      rw [hr, Option.getD_some] at h
      constructor
      · cases hm : t.mentionsParameter declared with
        | true => rfl
        | false =>
            -- what has been closed before is not replaced
            rw [replaced?_of_closed hw hm, Option.some.injEq] at hr
            rw [← hr, hm] at h
            cases h
      · by_cases ha : ∃ a ∈ t.genericArguments «instance», t.mentionsParameter a = true
        · obtain ⟨a, hm, hopen⟩ := ha
          exact .openArgument hm hopen
        cases hn : t.namesDefinition declared with
        | true => exact .bareDefinition hn
        | false =>
            have hclosed := mentionsParameter_of_replaced? hw (by simpa using ha) hn hr
            rw [hclosed] at h
            cases h

end TypeTable

end EventScript
