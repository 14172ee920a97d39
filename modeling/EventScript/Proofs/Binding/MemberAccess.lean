import EventScript.Proofs.Binding.Binder
import EventScript.Proofs.Host.Reached

namespace EventScript

open Compiling MemberSearch

namespace TypeTable

-- Whether the type, or the definition that it is made from, declares such a property of its values.
def DeclaresProperty (t : TypeTable) (type : TypeId) (name : String) : Prop :=
  ∃ p ∈ (t.get (t.openDefinition type)).properties, p.name = name ∧ p.isStatic = false

instance (t : TypeTable) (type : TypeId) (name : String) : Decidable (t.DeclaresProperty type name) :=
  inferInstanceAs (Decidable (∃ _ ∈ _, _))

end TypeTable

namespace Compiling

variable {t : TypeTable} {s : Compilation} {α : Type}

-- A search changes nothing but the indices.
theorem exists_search {m : MemberSearch α} (hm : Steady t m) (hs : s.Ready t) :
    ∃ s', search m s = (m.answer, s') ∧ s'.Ready t ∧ s'.diagnostics = s.diagnostics := by
  obtain ⟨ha, hc⟩ := hm s.caches.members hs.1
  exact ⟨_, Prod.ext ha rfl, ⟨hc, hs.2⟩, rfl⟩

end Compiling

namespace Binding

variable {t : TypeTable} {type : TypeId} {name : String}

-- Properties are searched in all types that a type has anything from.
theorem isSome_property?_iff : (property? t type name false).isSome = true ↔
    ∃ current ∈ t.lineage type, t.DeclaresProperty current name := by
  simp only [property?, List.findSome?_isSome_iff, Option.isSome_map, List.find?_isSome,
    TypeTable.DeclaresProperty, Bool.and_eq_true, decide_eq_true_eq]

-- Methods are searched in the type and its base types.
theorem answer_lookup_eq_nil
    (h : ∀ owner ∈ t.selfAndBases type, t.methodsNamed (t.openDefinition owner) name = []) :
    (MemberCache.lookup t type name).answer = [] := by
  have happend := answer_lookupAlong_append h []
  rw [List.append_nil] at happend
  exact happend

variable {scope : BindingScope} {s : Compilation} {target : Expr} {value : BoundExpr}

theorem exists_methodsNamed (hs : s.Ready scope.types) (isStatic : Bool) :
    ∃ s', methodsNamed scope type name isStatic s =
        ((MemberCache.lookup scope.types type name).answer.filter fun id =>
          (scope.types.method id).isPublic && (scope.types.method id).isStatic = isStatic, s') ∧
      s'.Ready scope.types ∧ s'.diagnostics = s.diagnostics := by
  obtain ⟨s', hsearch, hready, hsame⟩ := exists_search (steady_lookup type name) hs
  refine ⟨s', ?_, hready, hsame⟩
  rw [methodsNamed, Compiling.bind_apply, hsearch]
  rfl

theorem exists_extensionGroup (hs : s.Ready scope.types) (name : String) (span : Span) :
    ∃ s', extensionGroup scope value name span s =
        (if (scope.names.extensionMethods scope.runtime value.type name).answer = [] then none
          else some ⟨name, .extension value,
            (scope.names.extensionMethods scope.runtime value.type name).answer, span⟩, s') ∧
      s'.Ready scope.types ∧ s'.diagnostics = s.diagnostics := by
  have hsteady : Steady scope.types
      (scope.names.extensionMethods scope.runtime value.type name) :=
    scope.names.steady_extensionMethods value.type name
  obtain ⟨s', hsearch, hready, hsame⟩ := exists_search hsteady hs
  refine ⟨s', ?_, hready, hsame⟩
  rw [extensionGroup, Compiling.bind_apply, hsearch]
  cases (scope.names.extensionMethods scope.runtime value.type name).answer <;> rfl

theorem memberOf_of_property (he : value.isError = false) (ho : value.type ≠ .object)
    {found : FoundProperty} {name : Ident} (h : property? scope.types value.type name.name false =
      some found) (span : Span) (suppressErrors : Bool) :
    memberOf scope (.value value) name span suppressErrors s =
      (.value (.node (.property found.declaring name.name) found.type span [value]), s) := by
  rw [memberOf, instanceMember, if_neg (by simp [he]), if_neg ho, h]
  rfl

-- Where the type and its base types have no method of the name, only extensions are left.
theorem memberOf_of_nothing (hs : s.Ready scope.types) (he : value.isError = false)
    (ho : value.type ≠ .object) {name : Ident}
    (hp : property? scope.types value.type name.name false = none)
    (hm : (MemberCache.lookup scope.types value.type name.name).answer = []) (span : Span)
    (suppressErrors : Bool) :
    let extensions := (scope.names.extensionMethods scope.runtime value.type name.name).answer
    let access := memberOf scope (.value value) name span suppressErrors s
    (extensions ≠ [] → access.1 = .methods ⟨name.name, .extension value, extensions, span⟩) ∧
    (extensions = [] → access.1 = .value (.failed span) ∧ access.2.diagnostics = s.diagnostics ++
      [(BindingFault.unknownMember value.type name.name).toDiagnostic scope.runtime name.span]) := by
  intro extensions access
  obtain ⟨s₁, hmethods, hs₁, hsame₁⟩ := exists_methodsNamed hs false
  obtain ⟨s₂, hgroup, hs₂, hsame₂⟩ := exists_extensionGroup hs₁ name.name span
  have haccess : access = (extensionGroup scope value name.name span >>= fun group =>
      group.elim (missingMember scope value.type name span) fun group =>
        pure (.methods group)) s₁ := by
    change memberOf scope (.value value) name span suppressErrors s = _
    rw [memberOf, instanceMember, if_neg (by simp [he]), if_neg ho, hp]
    dsimp only
    rw [Compiling.bind_apply, hmethods, hm]
    dsimp only [List.filter_nil]
    rw [Compiling.bind_apply, Compiling.bind_apply]
    cases (extensionGroup scope value name.name span s₁).1 <;> rfl
  rw [Compiling.bind_apply, hgroup] at haccess
  constructor
  · intro hne
    rw [haccess, if_neg hne]
    rfl
  · intro hnil
    rw [haccess, if_pos hnil]
    dsimp only [Option.elim_none, missingMember]
    rw [Compiling.bind_apply, fault_kept _ _ _ hs₂.2]
    exact ⟨rfl, by rw [Compiling.pure_apply, hsame₂, hsame₁]⟩

theorem denote_member_value (hs : s.Ready scope.types)
    (hv : (denote scope target s).1 = .value value) (name : Ident) (span : Span) :
    (denote scope target s).2.Ready scope.types ∧ denote scope (.member target name span) s =
      memberOf scope (.value value) name span false (denote scope target s).2 := by
  refine ⟨(@ensures_denote scope 0 target s hs).1, ?_⟩
  rw [denote, Compiling.bind_apply, hv]

-- What scripts get of the interfaces of a type. A property of an interface is found as a property
-- of the type is. A method of an interface is not: what is found is the same as without it, which
-- are extension methods or nothing at all.
theorem denote_member_of_interface (hs : s.Ready scope.types)
    (hv : (denote scope target s).1 = .value value) (he : value.isError = false)
    (ho : value.type ≠ .object) {face : TypeId}
    (hface : face ∈ scope.types.allInterfaces value.type) (name : Ident) (span : Span) :
    let t := scope.types
    let access := denote scope (.member target name span) s
    let extensions := (scope.names.extensionMethods scope.runtime value.type name.name).answer
    (t.DeclaresProperty face name.name → ∃ declaring type,
      access.1 = .value (.node (.property declaring name.name) type span [value])) ∧
    ∀ m ∈ t.methodsNamed (t.openDefinition face) name.name, (t.method m).isStatic = false →
      (∀ current ∈ t.lineage value.type, ¬t.DeclaresProperty current name.name) →
      (∀ owner ∈ t.selfAndBases value.type,
        t.methodsNamed (t.openDefinition owner) name.name = []) →
      m ∉ extensions ∧
      (extensions ≠ [] → access.1 = .methods ⟨name.name, .extension value, extensions, span⟩) ∧
      (extensions = [] → access.1 = .value (.failed span) ∧
        access.2.diagnostics = (denote scope target s).2.diagnostics ++
          [(BindingFault.unknownMember value.type name.name).toDiagnostic scope.runtime
            name.span]) := by
  intro t access extensions
  obtain ⟨hready, haccess⟩ := denote_member_value hs hv name span
  constructor
  · intro hp
    have hlineage : face ∈ t.lineage value.type := List.mem_append_right _ hface
    obtain ⟨found, hfound⟩ :=
      Option.isSome_iff_exists.mp (isSome_property?_iff.mpr ⟨face, hlineage, hp⟩)
    simp only [access, haccess, memberOf_of_property he ho hfound]
    exact ⟨_, _, rfl⟩
  · intro m _ hm hproperties hmethods
    have hproperty : property? t value.type name.name false = none := by
      rw [← Option.not_isSome_iff_eq_none, isSome_property?_iff]
      rintro ⟨current, hc, hp⟩
      exact hproperties current hc hp
    refine ⟨fun hmem => ?_, ?_⟩
    · have husable : (t.method m).isUsableExtension = true :=
        NameScope.isUsableExtension_of_mem_extensionMethods .empty hmem
      simp [MethodDef.isUsableExtension, hm] at husable
    · simp only [access, haccess]
      exact memberOf_of_nothing hready he ho hproperty (answer_lookup_eq_nil hmethods) span false

-- An interface with a method and a property, and one that extends it.
def shapeSteps : List BuildStep :=
  [.define "Demo" "IShape" .interfaceType,
    .addMethod ⟨21⟩ { name := "Area", parameters := [], returns := .numeric .int32 },
    .addProperty ⟨21⟩ "Sides" (.numeric .int32) false,
    .define "Demo" "ISquare" .interfaceType,
    .addInterface ⟨22⟩ ⟨21⟩]

def shapes : TypeTable :=
  shapeSteps.foldl (fun t s => (Building.outcome (s.run Building.nestingLimit) t).2) .initial

-- A script with a square.
def squareScope : BindingScope := ⟨.ofTable shapes, .empty, [("square", ⟨22⟩)]⟩

def square : Expr := .name ⟨"square", ⟨0, 6⟩⟩ ⟨0, 6⟩

def squareStart : Compilation := ⟨.empty, .empty, []⟩

def squareValue : BoundExpr := .node (.parameter "square") ⟨22⟩ ⟨0, 6⟩ []

theorem ready_squareStart : squareStart.Ready squareScope.types := ⟨sound_empty shapes, rfl⟩

theorem denote_square : (denote squareScope square squareStart).1 = .value squareValue := rfl

-- Neither squares nor extensions for them have an area of their own.
theorem not_declares_area :
    (∀ current ∈ shapes.lineage ⟨22⟩, ¬shapes.DeclaresProperty current "Area") ∧
      (∀ owner ∈ shapes.selfAndBases ⟨22⟩,
        shapes.methodsNamed (shapes.openDefinition owner) "Area" = []) ∧
      (NameScope.empty.extensionMethods (.ofTable shapes) ⟨22⟩ "Area").answer = [] := by
  decide +kernel

-- A square has the sides of a shape and not its area.
theorem denote_member_of_interface_square :
    squareStart.Ready squareScope.types ∧
      (denote squareScope square squareStart).1 = .value squareValue ∧
      ⟨21⟩ ∈ shapes.allInterfaces ⟨22⟩ ∧
      (shapes.DeclaresProperty ⟨21⟩ "Sides" ∧ ∃ declaring type,
        (denote squareScope (.member square ⟨"Sides", ⟨7, 12⟩⟩ ⟨0, 12⟩) squareStart).1 =
          .value (.node (.property declaring "Sides") type ⟨0, 12⟩ [squareValue])) ∧
      (⟨0⟩ ∈ shapes.methodsNamed ⟨21⟩ "Area" ∧
        (denote squareScope (.member square ⟨"Area", ⟨7, 11⟩⟩ ⟨0, 11⟩) squareStart).1 =
          .value (.failed ⟨0, 11⟩)) := by
  have hface : ⟨21⟩ ∈ shapes.allInterfaces ⟨22⟩ := by decide +kernel
  have hsides : shapes.DeclaresProperty ⟨21⟩ "Sides" := by decide +kernel
  have harea : ⟨0⟩ ∈ shapes.methodsNamed ⟨21⟩ "Area" := by decide +kernel
  obtain ⟨hproperties, hmethods, hextensions⟩ := not_declares_area
  obtain ⟨hproperty, -⟩ := @denote_member_of_interface squareScope squareStart square squareValue
    ready_squareStart denote_square rfl (by decide) ⟨21⟩ hface ⟨"Sides", ⟨7, 12⟩⟩ ⟨0, 12⟩
  obtain ⟨-, hmethod⟩ := @denote_member_of_interface squareScope squareStart square squareValue
    ready_squareStart denote_square rfl (by decide) ⟨21⟩ hface ⟨"Area", ⟨7, 11⟩⟩ ⟨0, 11⟩
  obtain ⟨-, -, hfailed⟩ := hmethod ⟨0⟩ harea (by decide +kernel) hproperties hmethods
  exact ⟨ready_squareStart, denote_square, hface, ⟨hsides, hproperty hsides⟩, harea,
    (hfailed hextensions).1⟩

-- The area is an instance method of an interface that squares have, and nothing stands before it.
theorem not_denote_member_of_interface :
    ¬∀ (scope : BindingScope) (s : Compilation) (target : Expr) (value : BoundExpr) (face : TypeId)
        (m : MethodId) (name : Ident) (span : Span),
      scope.types.Reached → s.Ready scope.types → (denote scope target s).1 = .value value →
      value.isError = false → face ∈ scope.types.allInterfaces value.type →
      m ∈ scope.types.methodsNamed (scope.types.openDefinition face) name.name →
      (scope.types.method m).isPublic = true → (scope.types.method m).isStatic = false →
      (∀ current ∈ scope.types.lineage value.type,
        ¬scope.types.DeclaresProperty current name.name) →
      (∀ owner ∈ scope.types.selfAndBases value.type,
        scope.types.methodsNamed (scope.types.openDefinition owner) name.name = []) →
      ∃ group, (denote scope (.member target name span) s).1 = .methods group ∧
        m ∈ group.methods := by
  intro hall
  have hreached : shapes.Reached := TypeTable.Reached.initial.foldl (by decide +kernel)
  obtain ⟨hproperties, hmethods, hextensions⟩ := not_declares_area
  obtain ⟨group, hgroup, -⟩ := hall squareScope squareStart square squareValue ⟨21⟩ ⟨0⟩
    ⟨"Area", ⟨7, 11⟩⟩ ⟨0, 11⟩ hreached ready_squareStart denote_square rfl
    (by decide +kernel) (by decide +kernel) (by decide +kernel) (by decide +kernel)
    hproperties hmethods
  obtain ⟨hready, haccess⟩ := denote_member_value ready_squareStart denote_square
    ⟨"Area", ⟨7, 11⟩⟩ ⟨0, 11⟩
  have hproperty : property? shapes ⟨22⟩ "Area" false = none := by decide +kernel
  have hfailed := (@memberOf_of_nothing squareScope _ squareValue hready rfl (by decide)
    ⟨"Area", ⟨7, 11⟩⟩ hproperty (answer_lookup_eq_nil hmethods) ⟨0, 11⟩ false).2 hextensions
  rw [haccess, hfailed.1] at hgroup
  cases hgroup

end Binding

end EventScript
