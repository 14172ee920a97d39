import EventScript.Binding.Naming
import EventScript.Proofs.Runtime
import EventScript.Proofs.Settling.Compiling

namespace EventScript.Binding

open Compiling

-- A scope in which all that a script can name is closed.
structure ClosedScope (scope : BindingScope) : Prop where
  tidy : scope.runtime.Tidy
  aliases : scope.names.ClosedAliases scope.types
  parameters : ∀ p ∈ scope.parameters, scope.types.mentionsParameter p.2 = false

variable {scope : BindingScope}

theorem ClosedScope.wellFormed (hscope : ClosedScope scope) : scope.types.WellFormed :=
  hscope.tidy.wellFormed

theorem ClosedScope.grown (hscope : ClosedScope scope) : TypeTable.initial.GrowsTo scope.types :=
  hscope.tidy.grown

section

variable (hscope : ClosedScope scope)

include hscope

theorem yields_resolveName (name : String) (span : Span) (arity : Nat) :
    Yields (resolveName scope name span arity) fun found =>
      ∀ entity ∈ found, entity.StandsFor scope.types arity := by
  have hresolved : NameScope.ResolvesTo scope.types arity
      (scope.names.resolve scope.runtime name arity) :=
    NameScope.resolvesTo_resolve hscope.tidy hscope.aliases name
  unfold resolveName
  split
  · rename_i entity he
    rw [he] at hresolved
    refine .pure fun found hf => ?_
    exact Option.some.inj hf ▸ hresolved
  · exact .pure nofun
  · exact .andThen fun _ => .pure nofun

theorem yields_resolvePath (path : DottedName) (arity : Nat) :
    Yields (resolvePath scope path arity) fun found =>
      ∀ entity ∈ found, entity.StandsFor scope.types arity := by
  unfold resolvePath
  split
  · exact yields_resolveName hscope _ _ _
  · refine .andThen fun start => .pure fun entity he => ?_
    obtain ⟨first, -, hl⟩ := Option.bind_eq_some_iff.mp he
    obtain ⟨home, -, hl⟩ := Option.bind_eq_some_iff.mp hl
    exact hscope.tidy.standsFor_of_lookupIn? hl

omit hscope in
theorem yields_existingInstance (definition : TypeId) (arguments : List TypeId)
    (name : TypeName) :
    Yields (existingInstance scope definition arguments name) fun found =>
      ∀ id ∈ found, scope.types.findInstance? definition arguments = some id := by
  unfold existingInstance
  split
  · rename_i id hf
    refine .pure fun found hfound => ?_
    rw [hf, ← Option.some.inj hfound]
  · exact .andThen fun _ => .pure nofun

theorem yields_markedNullable {type : TypeId} (h : scope.types.mentionsParameter type = false)
    (name : TypeName) :
    Yields (markedNullable scope type name) fun found =>
      ∀ id ∈ found, scope.types.mentionsParameter id = false := by
  unfold markedNullable
  split
  · refine (yields_existingInstance _ _ _).imp fun found hf id hid => ?_
    have hnullable : scope.types.isGenericParameter .nullable = false :=
      TypeTable.isGenericParameter_of_initial hscope.grown (by decide) (by decide)
    exact TypeTable.mentionsParameter_of_findInstance? hscope.wellFormed (hf id hid) hnullable
      (by simpa using h)
  · refine .pure fun id hid => ?_
    rwa [← Option.some.inj hid]

theorem yields_resolveDefinition (name : TypeName) :
    Yields (resolveDefinition scope name) fun found => ∀ id ∈ found,
      scope.types.isGenericParameter id = false ∧
        (name.arguments = [] → scope.types.mentionsParameter id = false) := by
  unfold resolveDefinition
  refine .andThen fun before => ?_
  refine (yields_resolvePath hscope name.path name.arguments.length).bind fun found hf => ?_
  split
  · rename_i definition hd
    obtain ⟨entity, he, hid⟩ := Option.bind_eq_some_iff.mp hd
    refine .pure fun id hm => ?_
    obtain rfl := Option.some.inj hm
    obtain ⟨hk, hclosed⟩ := hf entity he definition hid
    exact ⟨hk, fun ha => hclosed (by rw [ha]; rfl)⟩
  · refine .andThen fun after => ?_
    split
    · exact .andThen fun _ => .pure nofun
    · exact .pure nofun

end

mutual

-- The induction is that of the search on the type name.
theorem yields_resolveType (hscope : ClosedScope scope) (name : TypeName) :
    Yields (resolveType scope name) fun found =>
      ∀ id ∈ found, scope.types.mentionsParameter id = false := by
  match name with
  | .mk path arguments nullable span =>
      rw [resolveType]
      refine (yields_resolveDefinition hscope _).bind fun found hd => ?_
      cases found with
      | none => exact .pure nofun
      | some definition =>
          obtain ⟨hk, hclosed⟩ := hd definition rfl
          cases arguments with
          | nil => exact yields_markedNullable hscope (hclosed rfl) _
          | cons first rest =>
              refine (yields_resolveType hscope first).bind fun found hf => ?_
              cases found with
              | none => exact .pure nofun
              | some firstType =>
                  refine (yields_resolveTypes hscope rest).bind fun found hr => ?_
                  cases found with
                  | none => exact .pure nofun
                  | some restTypes =>
                      refine (yields_existingInstance _ _ _).bind fun found hi => ?_
                      cases found with
                      | none => exact .pure nofun
                      | some type =>
                          have harguments : ∀ a ∈ firstType :: restTypes,
                              scope.types.mentionsParameter a = false :=
                            List.forall_mem_cons.mpr ⟨hf firstType rfl, hr restTypes rfl⟩
                          exact yields_markedNullable hscope
                            (TypeTable.mentionsParameter_of_findInstance? hscope.wellFormed
                              (hi type rfl) hk harguments) _

theorem yields_resolveTypes (hscope : ClosedScope scope) (names : List TypeName) :
    Yields (resolveTypes scope names) fun found =>
      ∀ ids ∈ found, ∀ id ∈ ids, scope.types.mentionsParameter id = false := by
  match names with
  | [] =>
      rw [resolveTypes]
      refine .pure fun ids hids => ?_
      rw [← Option.some.inj hids]
      exact fun _ hm => absurd hm List.not_mem_nil
  | name :: rest =>
      rw [resolveTypes]
      refine (yields_resolveType hscope name).bind fun found hf => ?_
      cases found with
      | none => exact .pure nofun
      | some type =>
          refine (yields_resolveTypes hscope rest).bind fun found hr => .pure fun ids hids => ?_
          obtain ⟨others, ho, rfl⟩ := Option.map_eq_some_iff.mp hids
          exact List.forall_mem_cons.mpr ⟨hf type rfl, hr others ho⟩

end

end EventScript.Binding
