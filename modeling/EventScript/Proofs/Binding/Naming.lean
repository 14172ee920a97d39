import EventScript.Binding.Naming
import EventScript.Proofs.Binding.Compiling

namespace EventScript.Binding

open Compiling

variable {scope : BindingScope} {count : Nat}

theorem ensures_resolveName (name : String) (span : Span) (arity : Nat) :
    Ensures scope.types count (resolveName scope name span arity) fun _ => True := by
  unfold resolveName
  split
  · exact .pure trivial
  · exact .pure trivial
  · exact Ensures.giveUp _ _ _ _

theorem ensures_lookupName (ident : Ident) (arity : Nat) :
    Ensures scope.types count (lookupName scope ident arity) fun _ => True := by
  unfold lookupName
  refine Ensures.errorCount.bind fun before => ?_
  refine (ensures_resolveName ident.name ident.span arity).bind fun found => ?_
  cases found with
  | some entity => exact .pure fun _ _ => trivial
  | none =>
      refine Ensures.errorCount.bind fun after => ?_
      split <;> exact .pure fun _ _ _ => trivial

theorem ensures_resolvePath (path : DottedName) (arity : Nat) :
    Ensures scope.types count (resolvePath scope path arity) fun _ => True := by
  unfold resolvePath
  split
  · exact ensures_resolveName _ _ _
  · exact (ensures_lookupName _ _).bind fun start => .pure fun _ => trivial

theorem ensures_existingInstance (definition : TypeId) (arguments : List TypeId)
    (name : TypeName) :
    Ensures scope.types count (existingInstance scope definition arguments name)
      (·.isSome = true) := by
  unfold existingInstance
  split
  · exact .pure rfl
  · exact Ensures.giveUp _ _ _ _

theorem ensures_markedNullable (type : TypeId) (name : TypeName) :
    Ensures scope.types count (markedNullable scope type name) (·.isSome = true) := by
  unfold markedNullable
  split
  · exact ensures_existingInstance _ _ _
  · exact .pure rfl

-- A name that stands for nothing has been reported, at the latest here.
theorem ensures_resolveDefinition (name : TypeName) :
    Ensures scope.types count (resolveDefinition scope name) (·.isSome = true) := by
  unfold resolveDefinition
  refine Ensures.errorCount.bind fun before => ?_
  refine (ensures_resolvePath name.path name.arguments.length).bind fun found => ?_
  split
  · exact .pure fun _ _ => rfl
  · refine Ensures.errorCount.bind fun after => ?_
    split
    · exact Ensures.giveUp _ _ _ _
    · rename_i hne
      exact .pure fun ha _ hb => absurd (ha.trans hb.symm) hne

mutual

theorem ensures_resolveType (name : TypeName) :
    Ensures scope.types count (resolveType scope name) (·.isSome = true) := by
  match name with
  | .mk path [] nullable span =>
      rw [resolveType]
      refine (ensures_resolveDefinition _).bind fun found => ?_
      cases found with
      | none => exact .pure fun h => by cases h
      | some definition => exact (ensures_markedNullable _ _).imp fun _ h _ => h
  | .mk path (first :: rest) nullable span =>
      rw [resolveType]
      refine (ensures_resolveDefinition _).bind fun found => ?_
      cases found with
      | none => exact .pure fun h => by cases h
      | some definition =>
          refine (ensures_resolveType first).bind fun firstFound => ?_
          cases firstFound with
          | none => exact .pure fun h => by cases h
          | some firstType =>
              refine (ensures_resolveTypes rest).bind fun restFound => ?_
              cases restFound with
              | none => exact .pure fun h => by cases h
              | some restTypes =>
                  refine (ensures_existingInstance _ _ _).bind fun made => ?_
                  cases made with
                  | none => exact .pure fun h => by cases h
                  | some type => exact (ensures_markedNullable _ _).imp fun _ h _ _ _ _ => h

theorem ensures_resolveTypes (names : List TypeName) :
    Ensures scope.types count (resolveTypes scope names) (·.isSome = true) := by
  match names with
  | [] => exact .pure rfl
  | name :: rest =>
      rw [resolveTypes]
      refine (ensures_resolveType name).bind fun found => ?_
      cases found with
      | none => exact .pure fun h => by cases h
      | some type =>
          refine (ensures_resolveTypes rest).bind fun restFound => .pure fun h _ => ?_
          rw [Option.isSome_map]
          exact h

end

end EventScript.Binding
