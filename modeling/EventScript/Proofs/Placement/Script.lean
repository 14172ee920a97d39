import EventScript.Compile
import EventScript.Proofs.Placement.Binder

namespace EventScript

open Compilation Compiling

variable {P : Span → Prop} {r : Runtime}

namespace Compile

theorem places_importPath (names : NameScope) (path : String) {span : Span} (h : P span) :
    Gives (Reported P) (importPath r names path span) fun _ => True := by
  unfold importPath
  split
  · exact .pure trivial
  · exact .giveUpAt h trivial

theorem places_declareAlias (names : NameScope) (name path : String) {span : Span} (h : P span) :
    Gives (Reported P) (declareAlias r names name path span) fun _ => True := by
  unfold declareAlias
  split
  · exact .pure trivial
  split
  · exact .pure trivial
  · exact .giveUpAt h trivial

theorem places_applyUsing (names : NameScope) {directive : UsingDirective} (h : P directive.span) :
    Gives (Reported P) (applyUsing r names directive) fun _ => True := by
  unfold applyUsing
  split
  · exact places_declareAlias _ _ _ h
  · exact places_importPath _ _ h

-- The imports of the options are reported as what has no place.
theorem places_openNames (hP : Span.Closed P) (imports : List String)
    {usings : List UsingDirective} (h : ∀ directive ∈ usings, P directive.span) :
    Gives (Reported P) (openNames r imports usings) fun _ => True := by
  unfold openNames
  refine Gives.andThenAny (.folded (fun names path _ => ?_) _) fun imported => ?_
  · exact places_importPath names path hP.none
  · exact .folded (fun names directive hd => places_applyUsing names (h directive hd)) imported

theorem places_typeNamed (hP : Span.Closed P) (names : NameScope) (name : String) :
    Gives (Reported P) (typeNamed r names name) fun _ => True := by
  unfold typeNamed
  split
  · exact .pure trivial
  · exact .giveUpAt hP.none trivial

theorem places_declareParameters (hP : Span.Closed P) (names : NameScope)
    (specs : List ParameterSpec) :
    Gives (Reported P) (declareParameters r names specs) fun _ => True := by
  refine .folded (fun declared spec _ => ?_) []
  refine Gives.andThenAny (places_typeNamed hP names spec.typeName) fun found => ?_
  cases found <;> exact .pure trivial

theorem places_bindScript (hP : Span.Closed P) (options : CompileOptions) {script : Script}
    (h : script.body.Nested) (hp : script.Placed P) :
    Gives (Reported P) (bindScript r options script) (·.Placed P) := by
  have husings : ∀ directive ∈ script.usings, P directive.span :=
    fun directive hd => (hp.usings directive hd).span
  unfold bindScript
  refine Gives.andThenAny (places_openNames hP options.imports husings) fun names => ?_
  refine Gives.andThenAny (places_declareParameters hP names options.parameters) fun declared => ?_
  cases options.resultType with
  | none => exact (Binding.places_bind hP h hp.body).imp fun _ he => he.1
  | some name =>
      refine Gives.andThenAny (places_typeNamed hP names name) fun found => ?_
      cases found with
      | none => exact (Binding.places_bind hP h hp.body).imp fun _ he => he.1
      | some type => exact (Binding.places_bindTo hP h hp.body type).imp fun _ he => he.1

end Compile

-- Whatever a compilation returns is at a place of its source, every message and every bound node.
-- A node holds what its operands hold.
theorem compile_places (r : Runtime) (options : CompileOptions) (source : String)
    (caches : Caches) :
    let output := (compile r options source caches).1
    (∀ d ∈ output.diagnostics, d.span.ValidIn source) ∧
    ∀ e ∈ output.expr, ∀ node ∈ e.nodes, node.span.ValidIn source ∧
      ∀ operand ∈ node.operands, operand.span ⊆ node.span := by
  have hread := parseScript_places source
  unfold compile
  cases hp : parseScript source with
  | error fault =>
      rw [hp] at hread
      exact ⟨List.forall_mem_singleton.mpr hread, nofun⟩
  | ok script =>
      rw [hp] at hread
      obtain ⟨hreported, hplaced⟩ := Compile.places_bindScript (r := r)
        (Span.closed_validIn source) options (parseScript_nested hp) hread
        ⟨caches, Compile.initialFlags options, []⟩ nofun
      refine ⟨hreported, ?_⟩
      rintro e ⟨⟩
      exact hplaced

end EventScript
