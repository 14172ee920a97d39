import EventScript.Binding.Naming
import EventScript.Proofs.Erasure.Compiling

namespace EventScript

-- What is written of a form does not depend on its places

theorem DottedName.map_idents_eraseSpans (path : DottedName) :
    path.eraseSpans.idents = path.idents.map Ident.eraseSpan := rfl

theorem DottedName.last_eraseSpans (path : DottedName) :
    path.eraseSpans.last = path.last.eraseSpan := by
  obtain ⟨first, rest⟩ := path
  rw [last, last, eraseSpans, List.getLast?_map]
  cases rest.getLast? <;> rfl

theorem DottedName.qualifiers_eraseSpans (path : DottedName) :
    path.eraseSpans.qualifiers = path.qualifiers.map Ident.eraseSpan := by
  rw [qualifiers, qualifiers, map_idents_eraseSpans, List.map_dropLast]

theorem DottedName.render_eraseSpans (path : DottedName) :
    path.eraseSpans.render = path.render := by
  rw [render, render, map_idents_eraseSpans, List.map_map]
  rfl

theorem TypeName.path_eraseSpans (name : TypeName) :
    name.eraseSpans.path = name.path.eraseSpans := by
  obtain ⟨path, arguments, nullable, span⟩ := name
  rw [eraseSpans, TypeName.path, TypeName.path]

theorem TypeName.length_arguments_eraseSpans (name : TypeName) :
    name.eraseSpans.arguments.length = name.arguments.length := by
  obtain ⟨path, arguments, nullable, span⟩ := name
  rw [eraseSpans, TypeName.arguments, TypeName.arguments, List.length_map]

theorem TypeName.nullable_eraseSpans (name : TypeName) :
    name.eraseSpans.nullable = name.nullable := by
  obtain ⟨path, arguments, nullable, span⟩ := name
  rw [eraseSpans, TypeName.nullable, TypeName.nullable]

theorem TypeName.span_eraseSpans (name : TypeName) : name.eraseSpans.span = .none := by
  obtain ⟨path, arguments, nullable, span⟩ := name
  rw [eraseSpans, TypeName.span]

theorem TypeName.render_eraseSpans (name : TypeName) : name.eraseSpans.render = name.render := by
  cases name with
  | mk path arguments nullable span =>
      have harguments : (arguments.map eraseSpans).map render = arguments.map render := by
        rw [List.map_map]
        exact List.map_congr_left fun argument _ => render_eraseSpans argument
      rw [eraseSpans, render, render, path.render_eraseSpans, harguments, List.isEmpty_map]

theorem Expr.render_eraseSpans (e : Expr) : e.eraseSpans.render = e.render := by
  have hall (es : List Expr) (h : ∀ e ∈ es, e.eraseSpans.render = e.render) :
      (es.map eraseSpans).map render = es.map render := by
    rw [List.map_map]
    exact List.map_congr_left h
  match e with
  | literal value span => rw [eraseSpans, render, render]
  | name ident span =>
      rw [eraseSpans, render, render]
      rfl
  | member target ident span =>
      rw [eraseSpans, render, render, render_eraseSpans target]
      rfl
  | call callee arguments span =>
      rw [eraseSpans, render, render, render_eraseSpans callee,
        hall arguments fun argument _ => render_eraseSpans argument]
  | index target arguments span =>
      rw [eraseSpans, render, render, render_eraseSpans target,
        hall arguments fun argument _ => render_eraseSpans argument]
  | unary op operand span => rw [eraseSpans, render, render, render_eraseSpans operand]
  | binary op left right span =>
      rw [eraseSpans, render, render, render_eraseSpans left, render_eraseSpans right]
  | cast type operand span =>
      rw [eraseSpans, render, render, type.render_eraseSpans, render_eraseSpans operand]
  | asType operand type span =>
      rw [eraseSpans, render, render, type.render_eraseSpans, render_eraseSpans operand]
  | guarded checked operand span => rw [eraseSpans, render, render, render_eraseSpans operand]

theorem Expr.span_eraseSpans (e : Expr) : e.eraseSpans.span = .none := by
  cases e <;> rw [eraseSpans, Expr.span]

namespace Binding

open Compiling

variable {scope : BindingScope}

theorem erases_resolveName (name : String) (span : Span) (arity : Nat) :
    Erases id (resolveName scope name span arity) (resolveName scope name .none arity) := by
  unfold resolveName
  split
  · exact .pure rfl
  · exact .pure rfl
  · exact .giveUp rfl

theorem erases_lookupName (ident : Ident) (arity : Nat) :
    Erases id (lookupName scope ident arity) (lookupName scope ident.eraseSpan arity) := by
  unfold lookupName
  refine Erases.errorCount.bindSame fun before => ?_
  refine (erases_resolveName ident.name ident.span arity).bindSame fun found => ?_
  cases found with
  | some entity => exact .pure rfl
  | none =>
      refine Erases.errorCount.bindSame fun after => ?_
      split <;> exact .pure rfl

theorem erases_resolvePath (path : DottedName) (arity : Nat) :
    Erases id (resolvePath scope path arity) (resolvePath scope path.eraseSpans arity) := by
  unfold resolvePath
  rw [path.qualifiers_eraseSpans, path.last_eraseSpans]
  cases path.qualifiers with
  | nil => exact erases_resolveName _ _ _
  | cons first rest =>
      refine (erases_lookupName first 0).bindSame fun start => .pure ?_
      simp only [List.foldlM_map]
      rfl

theorem erases_existingInstance (definition : TypeId) (arguments : List TypeId) (name : TypeName) :
    Erases id (existingInstance scope definition arguments name)
      (existingInstance scope definition arguments name.eraseSpans) := by
  unfold existingInstance
  split
  · exact .pure rfl
  · rw [name.render_eraseSpans, name.span_eraseSpans]
    exact .giveUp rfl

theorem erases_markedNullable (type : TypeId) (name : TypeName) :
    Erases id (markedNullable scope type name) (markedNullable scope type name.eraseSpans) := by
  unfold markedNullable
  rw [name.nullable_eraseSpans]
  split
  · exact erases_existingInstance _ _ _
  · exact .pure rfl

theorem erases_resolveDefinition (name : TypeName) :
    Erases id (resolveDefinition scope name) (resolveDefinition scope name.eraseSpans) := by
  unfold resolveDefinition
  rw [name.path_eraseSpans, name.length_arguments_eraseSpans, name.render_eraseSpans,
    name.span_eraseSpans]
  refine Erases.errorCount.bindSame fun before => ?_
  refine (erases_resolvePath name.path name.arguments.length).bindSame fun found => ?_
  split
  · exact .pure rfl
  · refine Erases.errorCount.bindSame fun after => ?_
    split
    · exact .giveUp rfl
    · exact .pure rfl

mutual

-- The induction is that of the search on the type name, whose shape has no places in it.
theorem erases_resolveType (name : TypeName) :
    Erases id (resolveType scope name) (resolveType scope name.eraseSpans) := by
  match name with
  | .mk path arguments nullable span =>
      have hname : (TypeName.mk path arguments nullable span).eraseSpans =
          .mk path.eraseSpans (arguments.map TypeName.eraseSpans) nullable .none := by
        rw [TypeName.eraseSpans]
      rw [hname, resolveType, resolveType, ← hname]
      refine (erases_resolveDefinition _).bindSame fun found => ?_
      cases found with
      | none => exact .pure rfl
      | some definition =>
          cases arguments with
          | nil => exact erases_markedNullable _ _
          | cons first rest =>
              refine (erases_resolveType first).bindSame fun found => ?_
              cases found with
              | none => exact .pure rfl
              | some firstType =>
                  refine (erases_resolveTypes rest).bindSame fun found => ?_
                  cases found with
                  | none => exact .pure rfl
                  | some restTypes =>
                      refine (erases_existingInstance _ _ _).bindSame fun found => ?_
                      cases found with
                      | none => exact .pure rfl
                      | some type => exact erases_markedNullable _ _

theorem erases_resolveTypes (names : List TypeName) :
    Erases id (resolveTypes scope names) (resolveTypes scope (names.map TypeName.eraseSpans)) := by
  match names with
  | [] =>
      rw [List.map_nil, resolveTypes]
      exact .pure rfl
  | name :: rest =>
      rw [List.map_cons, resolveTypes, resolveTypes]
      refine (erases_resolveType name).bindSame fun found => ?_
      cases found with
      | none => exact .pure rfl
      | some type => exact (erases_resolveTypes rest).bindSame fun types => .pure rfl

end

end Binding

end EventScript
