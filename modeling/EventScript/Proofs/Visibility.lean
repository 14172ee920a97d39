import EventScript.Proofs.FullName.Words

namespace EventScript

namespace NamespaceTree.IsTreeOf

variable {t : TypeTable} {tree : NamespaceTree} {home : NamespaceId} {name : String} {id : TypeId}

-- The names on the way to a namespace come from the paths of the types below it.
theorem isSegment_of_mem_segments (h : tree.IsTreeOf t) (hc : tree.contains home) :
    ∀ name ∈ tree.segments home, IsSegment name := by
  intro name hm
  rcases (h.holds_iff (tree.segments home)).mp ⟨home, hc, rfl⟩ with hroot | hbelow
  · rw [hroot] at hm
    exact absurd hm List.not_mem_nil
  · obtain ⟨type, whole, _, _, hspot, hbegins⟩ := hbelow
    obtain ⟨-, -, path, -, rfl, -⟩ := TypeDef.spot?_eq_some_iff.mp hspot
    exact isSegment_of_mem_pathSegments (hbegins.subset hm)

theorem pathSegments_fullName (h : tree.IsTreeOf t) (hc : tree.contains home) :
    pathSegments (tree.get home).fullName = tree.segments home := by
  rw [h.fullName_eq home hc, pathSegments_of_segments (h.isSegment_of_mem_segments hc)]

-- The group of a name in a namespace has a type if that is the last one at its spot.
theorem any_typeGroup_iff (h : tree.IsTreeOf t) :
    (tree.typeGroup home name).any (·.type = id) = true ↔
      tree.contains home ∧ ∃ arity, t.IsLastAt t.size (tree.segments home, name, arity) id := by
  have hlast (arity : Nat) : tree.type? home name arity = some id ↔ tree.contains home ∧
      t.IsLastAt t.size (tree.segments home, name, arity) id := by
    rw [h.type?_eq_some_iff, TypeTable.isLastAt_size_iff]
  rw [List.any_eq_true, ← exists_and_left]
  constructor
  · rintro ⟨p, hp, hid⟩
    obtain rfl := of_decide_eq_true hid
    exact ⟨p.arity, (hlast p.arity).mp ((h.mem_typeGroup_iff home name p).mp hp).2.2⟩
  · rintro ⟨arity, hid⟩
    refine ⟨⟨home, name, arity, id⟩, (h.mem_typeGroup_iff home name _).mpr ⟨rfl, rfl, ?_⟩, ?_⟩
    · exact (hlast arity).mpr hid
    · exact decide_eq_true rfl

end NamespaceTree.IsTreeOf

-- A runtime of a table has its types, and the namespaces that lead to them.
structure Runtime.IsOf (r : Runtime) (t : TypeTable) : Prop where
  types_eq : r.types = t
  tree_eq : r.tree = .ofTable t

theorem Runtime.IsOf.isTreeOf {r : Runtime} {t : TypeTable} (h : r.IsOf t) :
    r.tree.IsTreeOf t := by
  rw [h.tree_eq]
  exact NamespaceTree.isTreeOf_ofTable t

theorem Runtime.Reachable.isOf {r : Runtime} (h : r.Reachable) : r.IsOf r.types :=
  ⟨rfl, h.reached.2⟩

-- A type has its place in a tree if its namespace is written there as it is written by the type,
-- and no later type has taken the spot.
structure TypeTable.KeepsPlace (t : TypeTable) (id : TypeId) : Prop where
  home_eq : ∀ home ∈ (t.get id).home, home = ".".intercalate (pathSegments home)
  isLastAt : ∀ spot ∈ (t.get id).spot?, t.IsLastAt t.size spot id

namespace TypeTable

variable {t : TypeTable} {id : TypeId}

-- Where all namespaces are written as in a tree, every type has its place.
theorem Consistent.keepsPlace (ht : t.Consistent)
    (h : ∀ id, ∀ home ∈ (t.get id).home, home = ".".intercalate (pathSegments home))
    (id : TypeId) : t.KeepsPlace id := by
  have hapart : t.KeepsHomesApart := by
    intro id other home home' hh hh' hsame
    rw [h id home hh, h other home' hh', hsame]
  refine ⟨h id, fun spot hspot => isLastAt_size_iff.mpr ⟨hspot, fun other hother => ?_⟩⟩
  exact Nat.le_of_eq (congrArg TypeId.index (eq_of_spot? ht hapart hother hspot))

-- A type that keeps its place is placed, if at all, under the name it gives to its namespace.
theorem KeepsPlace.isLastAt_iff (h : t.KeepsPlace id) {tree : NamespaceTree}
    (htree : tree.IsTreeOf t) {home : NamespaceId} (hc : tree.contains home) :
    (∃ arity, t.IsLastAt t.size (tree.segments home, (t.get id).name, arity) id) ↔
      ((t.get id).isPublic ∧ (t.get id).isNamed) ∧
        (t.get id).home = some (tree.get home).fullName := by
  constructor
  · rintro ⟨arity, hlast⟩
    obtain ⟨hpublic, hnamed, written, hwritten, hpath, -⟩ :=
      TypeDef.spot?_eq_some_iff.mp hlast.spot?_eq
    refine ⟨⟨hpublic, hnamed⟩, ?_⟩
    rw [htree.fullName_eq home hc, ← hpath, ← h.home_eq written hwritten, hwritten]
  · rintro ⟨⟨hpublic, hnamed⟩, hwritten⟩
    refine ⟨(t.get id).arity, h.isLastAt _ (TypeDef.spot?_eq_some_iff.mpr ?_)⟩
    exact ⟨hpublic, hnamed, _, hwritten, htree.pathSegments_fullName hc, rfl, rfl⟩

end TypeTable

namespace NameScope

variable {t : TypeTable} {r host : Runtime} {scope bare : NameScope} {home : NamespaceId}
  {type : TypeId}

-- A visible namespace shows what is placed in it. An import goes by the name that a type gives to
-- its namespace.
theorem isTypeVisible_iff (h : r.IsOf t) : scope.isTypeVisible r type = true ↔
    (∃ home ∈ r.visible, r.tree.contains home ∧ ∃ arity,
      t.IsLastAt t.size (r.tree.segments home, (t.get (t.openDefinition type)).name, arity)
        (t.openDefinition type)) ∨
    ∃ home ∈ scope.imports,
      (t.get (t.openDefinition type)).home = some (r.tree.get home).fullName := by
  have hshown : r.isScriptVisible type = true ↔ ∃ home ∈ r.visible, r.tree.contains home ∧
      ∃ arity, t.IsLastAt t.size (r.tree.segments home, (t.get (t.openDefinition type)).name, arity)
        (t.openDefinition type) := by
    rw [Runtime.isScriptVisible, h.types_eq, List.any_eq_true]
    simp only [h.isTreeOf.any_typeGroup_iff]
  rw [isTypeVisible, Bool.or_eq_true, hshown, h.types_eq]
  cases (t.get (t.openDefinition type)).home with
  | none => simp
  | some written =>
      simp only [List.any_eq_true, decide_eq_true_eq, Option.some.injEq, eq_comm (a := written)]

theorem isTypeVisible_imported_iff (h : r.IsOf t) (hvisible : r.visible = [])
    (himports : scope.imports = [home]) : scope.isTypeVisible r type = true ↔
      (t.get (t.openDefinition type)).home = some (r.tree.get home).fullName := by
  simp [isTypeVisible_iff h, hvisible, himports]

theorem isTypeVisible_shown_iff (h : host.IsOf t) (hvisible : host.visible = [home])
    (himports : bare.imports = []) (hc : host.tree.contains home)
    (hplace : t.KeepsPlace (t.openDefinition type)) : bare.isTypeVisible host type = true ↔
      ((t.get (t.openDefinition type)).isPublic ∧ (t.get (t.openDefinition type)).isNamed) ∧
        (t.get (t.openDefinition type)).home = some (host.tree.get home).fullName := by
  rw [← hplace.isLastAt_iff h.isTreeOf hc]
  simp [isTypeVisible_iff h, hvisible, himports, NamespaceTree.contains_iff.mp hc]

-- An import and a visible namespace expose the same public types. What is not public is exposed by
-- an import only.
theorem isTypeVisible_imported_eq_shown (scope bare : NameScope) (type : TypeId)
    (hr : r.IsOf t) (hhost : host.IsOf t) (hc : r.tree.contains home)
    (hunseen : r.visible = []) (himports : scope.imports = [home])
    (hvisible : host.visible = [home]) (hbare : bare.imports = [])
    (hplace : t.KeepsPlace (t.openDefinition type)) :
    let d := t.get (t.openDefinition type)
    (d.isPublic ∧ d.isNamed →
      scope.isTypeVisible r type = bare.isTypeVisible host type) ∧
    (¬ (d.isPublic ∧ d.isNamed) → bare.isTypeVisible host type = false ∧
      scope.isTypeVisible r type = decide (d.home = some (r.tree.get home).fullName)) := by
  intro d
  have htree : host.tree = r.tree := hhost.tree_eq.trans hr.tree_eq.symm
  have himported : scope.isTypeVisible r type = true ↔ d.home = some (r.tree.get home).fullName :=
    isTypeVisible_imported_iff hr hunseen himports
  have hshown := isTypeVisible_shown_iff hhost hvisible hbare (htree ▸ hc) hplace
  rw [htree] at hshown
  constructor
  · intro hoffered
    rw [Bool.eq_iff_iff, himported, hshown]
    exact (and_iff_right hoffered).symm
  · intro hhidden
    refine ⟨?_, ?_⟩
    · rw [← Bool.not_eq_true, hshown]
      exact fun hboth => hhidden hboth.1
    · rw [Bool.eq_iff_iff, himported, decide_eq_true_iff]

-- A public type, and one that is not, in the same namespace.
def openAndSecret : Runtime :=
  .ofTable ([BuildStep.define "Demo" "Open" .classType, .define "Demo" "Secret" .classType,
    .setPublic ⟨22⟩ false].foldl
      (fun t step => (Building.outcome (step.run Building.nestingLimit) t).2) .initial)

-- The same types with their namespace visible to all scripts.
def openAndSecretShown : Runtime :=
  (Runtime.load { name := "Demo", visible := ["Demo"] } openAndSecret).2

theorem reachable_openAndSecret : openAndSecret.Reachable :=
  .ofTable (.foldl .initial (by decide +kernel))

theorem isTypeVisible_imported_eq_shown_demo :
    let t := openAndSecret.types
    let importing : NameScope := ⟨[], [⟨4⟩]⟩
    (openAndSecret.IsOf t ∧ openAndSecretShown.IsOf t ∧ openAndSecret.tree.contains ⟨4⟩ ∧
      openAndSecret.visible = [] ∧ openAndSecretShown.visible = [⟨4⟩] ∧
      ∀ id, t.KeepsPlace id) ∧
    importing.isTypeVisible openAndSecret ⟨21⟩ = empty.isTypeVisible openAndSecretShown ⟨21⟩ ∧
    empty.isTypeVisible openAndSecretShown ⟨22⟩ = false ∧
      importing.isTypeVisible openAndSecret ⟨22⟩ = true := by
  intro t importing
  have hr : openAndSecret.IsOf t := reachable_openAndSecret.isOf
  have hhost : openAndSecretShown.IsOf t := by
    have hload := Runtime.types_tree_load openAndSecret { name := "Demo", visible := ["Demo"] }
    exact ⟨hload.1, hload.2.trans hr.tree_eq⟩
  have hc : openAndSecret.tree.contains ⟨4⟩ := by decide +kernel
  have hvisible : openAndSecretShown.visible = [⟨4⟩] := by decide +kernel
  have hwritten : ∀ id, ∀ home ∈ (t.get id).home, home = ".".intercalate (pathSegments home) :=
    TypeTable.forall_get
      (P := fun d => ∀ home ∈ d.home, home = ".".intercalate (pathSegments home))
      (by decide +kernel) (by decide)
  have hplace := reachable_openAndSecret.reached.1.consistent.keepsPlace hwritten
  have hsame (id : TypeId) := isTypeVisible_imported_eq_shown importing empty id hr hhost hc rfl rfl
    hvisible rfl (hplace _)
  refine ⟨⟨hr, hhost, hc, rfl, hvisible, hplace⟩, (hsame ⟨21⟩).1 (by decide +kernel), ?_⟩
  obtain ⟨hshown, himported⟩ := (hsame ⟨22⟩).2 (by decide +kernel)
  exact ⟨hshown, himported.trans (by decide +kernel)⟩

-- An import exposes a type that a visible namespace does not.
theorem secret_exposed_by_import :
    openAndSecret.Reachable ∧ openAndSecretShown.Reachable ∧
      openAndSecretShown.visible = [⟨4⟩] ∧
      NameScope.isTypeVisible ⟨[], [⟨4⟩]⟩ openAndSecret ⟨22⟩ ≠
        NameScope.empty.isTypeVisible openAndSecretShown ⟨22⟩ :=
  ⟨reachable_openAndSecret, reachable_openAndSecret.load _, by decide +kernel, by decide +kernel⟩

end NameScope

end EventScript
