import EventScript.Binding.Naming
import EventScript.Proofs.Placement.Compiling
import EventScript.Proofs.Placement.Parsing

namespace EventScript.Binding

open Compilation Compiling

variable {scope : BindingScope} {P : Span → Prop}

theorem places_resolveName (name : String) {span : Span} (arity : Nat) (h : P span) :
    Gives (Reported P) (resolveName scope name span arity) fun _ => True := by
  unfold resolveName
  split
  · exact .pure trivial
  · exact .pure trivial
  · exact .giveUpAt h trivial

theorem places_lookupName {ident : Ident} (arity : Nat) (h : P ident.span) :
    Gives (Reported P) (lookupName scope ident arity) fun _ => True := by
  unfold lookupName
  refine Gives.andThenAny (.silent fun _ => rfl) fun before => ?_
  refine Gives.andThenAny (places_resolveName ident.name arity h) fun found => ?_
  cases found with
  | some entity => exact .pure trivial
  | none =>
      refine Gives.andThenAny (.silent fun _ => rfl) fun after => ?_
      split <;> exact .pure trivial

theorem places_resolvePath {path : DottedName} (arity : Nat) (h : path.Placed P) :
    Gives (Reported P) (resolvePath scope path arity) fun _ => True := by
  unfold resolvePath
  split
  · exact places_resolveName _ _ (h _ (ConcretePath.last_mem_idents path))
  · rename_i first rest hq
    have hfirst : first ∈ path.qualifiers := hq ▸ List.mem_cons_self
    exact Gives.andThenAny (places_lookupName 0 (h _ (List.dropLast_subset _ hfirst)))
      fun _ => .pure trivial

theorem places_existingInstance (definition : TypeId) (arguments : List TypeId) {name : TypeName}
    (h : P name.span) :
    Gives (Reported P) (existingInstance scope definition arguments name) fun _ => True := by
  unfold existingInstance
  split
  · exact .pure trivial
  · exact .giveUpAt h trivial

theorem places_markedNullable (type : TypeId) {name : TypeName} (h : P name.span) :
    Gives (Reported P) (markedNullable scope type name) fun _ => True := by
  unfold markedNullable
  split
  · exact places_existingInstance _ _ h
  · exact .pure trivial

theorem places_resolveDefinition {name : TypeName} (h : name.Placed P) :
    Gives (Reported P) (resolveDefinition scope name) fun _ => True := by
  unfold resolveDefinition
  refine Gives.andThenAny (.silent fun _ => rfl) fun before => ?_
  refine Gives.andThenAny (places_resolvePath _ h.path) fun found => ?_
  split
  · exact .pure trivial
  · refine Gives.andThenAny (.silent fun _ => rfl) fun after => ?_
    split
    · exact .giveUpAt h.span trivial
    · exact .pure trivial

mutual

-- The induction is that of the search on the type name.
theorem places_resolveType (name : TypeName) (h : name.Placed P) :
    Gives (Reported P) (resolveType scope name) fun _ => True := by
  match name with
  | .mk path arguments nullable span =>
      rw [resolveType]
      refine Gives.andThenAny (places_resolveDefinition h) fun found => ?_
      cases found with
      | none => exact .pure trivial
      | some definition =>
          cases arguments with
          | nil => exact places_markedNullable _ h.span
          | cons first rest =>
              have hs := h.span
              cases h with
              | mk _ ha _ =>
                  obtain ⟨hfirst, hrest⟩ := List.forall_mem_cons.mp ha
                  refine Gives.andThenAny (places_resolveType first hfirst) fun found => ?_
                  cases found with
                  | none => exact .pure trivial
                  | some firstType =>
                      refine Gives.andThenAny (places_resolveTypes rest hrest) fun found => ?_
                      cases found with
                      | none => exact .pure trivial
                      | some restTypes =>
                          refine Gives.andThenAny (places_existingInstance _ _ hs) fun found => ?_
                          cases found with
                          | none => exact .pure trivial
                          | some type => exact places_markedNullable _ hs

theorem places_resolveTypes (names : List TypeName) (h : ∀ name ∈ names, name.Placed P) :
    Gives (Reported P) (resolveTypes scope names) fun _ => True := by
  match names with
  | [] =>
      rw [resolveTypes]
      exact .pure trivial
  | name :: rest =>
      rw [resolveTypes]
      obtain ⟨hfirst, hrest⟩ := List.forall_mem_cons.mp h
      refine Gives.andThenAny (places_resolveType name hfirst) fun found => ?_
      cases found with
      | none => exact .pure trivial
      | some type =>
          exact Gives.andThenAny (places_resolveTypes rest hrest) fun _ => .pure trivial

end

end EventScript.Binding
