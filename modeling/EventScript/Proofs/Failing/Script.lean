import EventScript.Proofs.Compile
import EventScript.Proofs.Failing.Binder
import EventScript.Proofs.Host.Standard
import EventScript.Report

namespace EventScript

open Compilation Compiling

theorem Compile.gives_bindScript {r : Runtime} (hg : TypeTable.initial.GrowsTo r.types)
    (options : CompileOptions) (script : Script) :
    Gives (Ready r.types) (bindScript r options script) BoundExpr.PassesOn := by
  unfold bindScript
  refine .andThen (ensures_openNames options.imports script.usings) fun names => ?_
  refine .andThen (ensures_declareParameters names options.parameters) fun parameters => ?_
  let scope : BindingScope := ⟨r, names, parameters⟩
  have hscope : TypeTable.initial.GrowsTo scope.types := hg
  have hbind : Gives (Ready scope.types) (Binding.bind scope script.body) BoundExpr.PassesOn :=
    (Binding.carries_passesOn hscope).bind script.body
  cases options.resultType with
  | none => exact hbind
  | some name =>
      refine .andThen (ensures_typeNamed names name) fun found => ?_
      cases found with
      | none => exact hbind
      | some type => exact Binding.gives_bindTo hscope script.body type

theorem passesOn_of_compile {r : Runtime} (hg : TypeTable.initial.GrowsTo r.types)
    {options : CompileOptions} {source : String} {caches : Caches}
    (hc : caches.members.Sound r.types) {e : BoundExpr}
    (he : (compile r options source caches).1.expr = some e) : e.PassesOn := by
  unfold compile at he
  cases hp : parseScript source with
  | error fault => simp [hp] at he
  | ok script =>
      simp only [hp] at he
      have hready : Ready r.types ⟨caches, Compile.initialFlags options, []⟩ :=
        Compile.ready_initial hc
      exact Option.some.inj he ▸ (Compile.gives_bindScript hg options script _ hready).2

-- A failed operand makes every node fail but the calls and joined texts that keep it. So a tree is
-- a single error or has none just if no failure is kept in it, and a script that is reported with
-- a type has bound as a whole under the same condition.
theorem compile_allOrNothing_iff {r : Runtime} (hr : r.Reachable) (options : CompileOptions)
    (source : String) {caches : Caches} (hc : caches.Reachable r.types) :
    let output := (compile r options source caches).1
    ∀ e, output.expr = some e →
      (∀ node ∈ e.nodes, (node.isError → node.operands = []) ∧
        (node.operands.any (·.isError) → node.keepsFailure)) ∧
      (e.AllOrNothing ↔ ∀ node ∈ e.nodes, node.keepsFailure = false) ∧
      ∀ path, ((CheckReport.mk path output).resultType? r.types).isSome →
        ((∀ node ∈ e.nodes, node.isError = false) ↔
          ∀ node ∈ e.nodes, node.keepsFailure = false) := by
  intro output e he
  have hpasses : e.PassesOn := passesOn_of_compile hr.reached.1.wellFormed.2 hc.sound he
  refine ⟨hpasses, hpasses.allOrNothing_iff, fun path htype => hpasses.isError_eq_iff ?_⟩
  simpa [CheckReport.resultType?, he] using htype

theorem allOrNothing_sum :
    ∃ e, (compile Standard.host {} "1 + missing" .empty).1.expr = some e ∧ e.AllOrNothing := by
  have hrun : (compile Standard.host {} "1 + missing" .empty).1.expr.any fun e =>
      e.nodes.all fun node => !node.keepsFailure := by decide +kernel
  obtain ⟨e, he, hkeeps⟩ := (Option.any_eq_true _ _).mp hrun
  have hspec := compile_allOrNothing_iff Standard.reachable_host {} "1 + missing" (.empty _) e he
  exact ⟨e, he, hspec.2.1.mpr (by simpa using hkeeps)⟩

-- Whether a script is reported with a type although a part of it, and only a part, has failed.
def typedInPart (r : Runtime) (options : CompileOptions) (source : String) : Bool :=
  let output := (compile r options source .empty).1
  output.expr.any (fun e => !decide e.AllOrNothing) &&
    ((CheckReport.mk "" output).resultType? r.types).isSome

-- An object whose methods are not known, and what has no value at all.
def keepingOptions : CompileOptions where
  parameters := [⟨"tag", "System.Object"⟩, ⟨"nothing", "System.Void"⟩]

-- There is one script for each way in which a failure is kept: two calls of an object, and a text
-- joined with what does not become an object.
theorem failures_kept :
    typedInPart Standard.host keepingOptions "tag.Run(missing)" ∧
      typedInPart Standard.host keepingOptions "tag(missing)" ∧
      typedInPart Standard.host keepingOptions "\"\" + nothing" := by
  decide +kernel

end EventScript
