import EventScript.Binding.Naming
import EventScript.Proofs.Agreement.Compiling

namespace EventScript

-- The methods that the message of a fault tells of.
def BindingFault.methods : BindingFault → List MethodId
  | ambiguousCall first second => [first, second]
  | _ => []

theorem BindingFault.message_eq {r r' : Runtime} (h : r.Agrees r') {f : BindingFault}
    (hmethods : ∀ id ∈ f.methods, r'.types.method id = r.types.method id) :
    f.message r' = f.message r := by
  -- equations for single faults would have to compare long texts
  delta message
  cases f with
  | ambiguousCall first second =>
      have hfirst := h.types.signature_eq (hmethods first List.mem_cons_self)
      have hsecond :=
        h.types.signature_eq (hmethods second (List.mem_cons_of_mem _ List.mem_cons_self))
      simp only [hfirst, hsecond]
  | _ =>
      simp only [h.types.displayName_eq, h.tree_eq,
        NamespaceTree.displayName_eq h.types.toSameTypes]

-- A step that reports a fault which tells of no methods, and gives up.
theorem Runtime.Agrees.giveUp {c : Comparison} {t t' : TypeTable} {r r' : Runtime}
    (h : r.Agrees r') {f : BindingFault} {span : Span} {α β : Type} {P : α → β → Prop} {a : α}
    {b : β} (hf : f.methods = []) (hab : P a b) :
    Compiling.Matches c t t' (do Compiling.fault r f span; return a)
      (do Compiling.fault r' f span; return b) P :=
  .giveUp (BindingFault.message_eq h (hf ▸ List.forall_mem_nil _)) hab

namespace Binding

open Compiling

variable {c : Comparison} {scope : BindingScope} {r' : Runtime}

section

variable (h : scope.runtime.Agrees r')
include h

theorem matches_resolveName (name : String) (span : Span) (arity : Nat) :
    Matches c scope.types r'.types (resolveName scope name span arity)
      (resolveName (scope.on r') name span arity) Eq := by
  unfold resolveName
  rw [scope.names_on, scope.runtime_on, NameScope.resolve_eq h]
  split
  · exact .pure rfl
  · exact .pure rfl
  · exact h.giveUp rfl rfl

theorem matches_lookupName (ident : Ident) (arity : Nat) :
    Matches c scope.types r'.types (lookupName scope ident arity)
      (lookupName (scope.on r') ident arity) Eq := by
  refine Matches.errorCount.bindSame fun before => ?_
  refine (matches_resolveName h ident.name ident.span arity).bindSame fun found => ?_
  split
  · exact .pure rfl
  · refine Matches.errorCount.bindSame fun after => ?_
    rw [scope.names_on, scope.runtime_on, NameScope.alias?_eq h]
    split <;> exact .pure rfl

theorem matches_resolvePath (path : DottedName) (arity : Nat) :
    Matches c scope.types r'.types (resolvePath scope path arity)
      (resolvePath (scope.on r') path arity) Eq := by
  unfold resolvePath
  rw [scope.runtime_on, h.tree_eq]
  dsimp only
  split
  · exact matches_resolveName h _ _ _
  · exact (matches_lookupName h _ _).bindSame fun start => .pure rfl

theorem matches_existingInstance (definition : TypeId) (arguments : List TypeId)
    (name : TypeName) :
    Matches c scope.types r'.types (existingInstance scope definition arguments name)
      (existingInstance (scope.on r') definition arguments name) Eq := by
  unfold existingInstance
  rw [scope.types_on, h.scopeTypes.findInstance?_eq]
  split
  · exact .pure rfl
  · exact h.giveUp rfl rfl

theorem matches_markedNullable (type : TypeId) (name : TypeName) :
    Matches c scope.types r'.types (markedNullable scope type name)
      (markedNullable (scope.on r') type name) Eq := by
  unfold markedNullable
  rw [scope.types_on, h.scopeTypes.isValueType_eq]
  split
  · exact matches_existingInstance h _ _ _
  · exact .pure rfl

theorem matches_resolveDefinition (name : TypeName) :
    Matches c scope.types r'.types (resolveDefinition scope name)
      (resolveDefinition (scope.on r') name) Eq := by
  refine Matches.errorCount.bindSame fun before => ?_
  refine (matches_resolvePath h name.path name.arguments.length).bindSame fun found => ?_
  split
  · exact .pure rfl
  · refine Matches.errorCount.bindSame fun after => ?_
    split
    · exact h.giveUp rfl rfl
    · exact .pure rfl

end

mutual

theorem matches_resolveType (h : scope.runtime.Agrees r') (name : TypeName) :
    Matches c scope.types r'.types (resolveType scope name) (resolveType (scope.on r') name)
      Eq := by
  obtain ⟨path, arguments, nullable, span⟩ := name
  rw [resolveType, resolveType]
  refine (matches_resolveDefinition h _).bindSame fun found => ?_
  cases found with
  | none => exact .pure rfl
  | some definition =>
      cases arguments with
      | nil => exact matches_markedNullable h _ _
      | cons first rest =>
          refine (matches_resolveType h first).bindSame fun firstType => ?_
          cases firstType with
          | none => exact .pure rfl
          | some firstType =>
              refine (matches_resolveTypes h rest).bindSame fun restTypes => ?_
              cases restTypes with
              | none => exact .pure rfl
              | some restTypes =>
                  refine (matches_existingInstance h _ _ _).bindSame fun type => ?_
                  cases type with
                  | none => exact .pure rfl
                  | some type => exact matches_markedNullable h _ _

theorem matches_resolveTypes (h : scope.runtime.Agrees r') (names : List TypeName) :
    Matches c scope.types r'.types (resolveTypes scope names) (resolveTypes (scope.on r') names)
      Eq := by
  cases names with
  | nil =>
      rw [resolveTypes, resolveTypes]
      exact .pure rfl
  | cons name rest =>
      rw [resolveTypes, resolveTypes]
      refine (matches_resolveType h name).bindSame fun type => ?_
      cases type with
      | none => exact .pure rfl
      | some type => exact (matches_resolveTypes h rest).bindSame fun types => .pure rfl

end

end Binding

end EventScript
