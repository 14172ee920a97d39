import EventScript.Proofs.Compile
import EventScript.Proofs.Reporting.Binder
import EventScript.Report

namespace EventScript

open Compiling

namespace Compile

variable {r : Runtime} {ds : List Diagnostic}

theorem reports_importPath (names : NameScope) (path : String) (span : Span) :
    Reports ds (importPath r names path span) fun _ _ => True := by
  unfold importPath
  split
  · exact .pure trivial
  · exact .giveUp fun _ _ _ => trivial

theorem reports_applyUsing (names : NameScope) (directive : UsingDirective) :
    Reports ds (applyUsing r names directive) fun _ _ => True := by
  unfold applyUsing
  split
  · unfold declareAlias
    split
    · exact .pure trivial
    split
    · exact .pure trivial
    · exact .giveUp fun _ _ _ => trivial
  · exact reports_importPath _ _ _

theorem reports_openNames (imports : List String) (usings : List UsingDirective) :
    Reports ds (openNames r imports usings) fun _ _ => True := by
  refine (Reports.foldlM (fun _ names path => ?_) imports NameScope.empty).bind ?_
  · exact reports_importPath names path .none
  · intro ds' imported _ _
    exact .foldlM (fun _ names directive => reports_applyUsing names directive) usings imported

theorem reports_typeNamed (names : NameScope) (name : String) :
    Reports ds (typeNamed r names name) fun _ _ => True := by
  unfold typeNamed
  split
  · exact .pure trivial
  · exact .giveUp fun _ _ _ => trivial

theorem reports_declareParameters (names : NameScope) (specs : List ParameterSpec) :
    Reports ds (declareParameters r names specs) fun _ _ => True := by
  refine .foldlM (fun ds declared spec => ?_) specs []
  refine (reports_typeNamed names spec.typeName).bind fun ds' found _ _ => ?_
  cases found <;> exact .pure trivial

theorem reports_bindScript (options : CompileOptions) {script : Script} (h : script.body.Nested) :
    Reports ds (bindScript r options script) fun ds' e => e.Explained ds' := by
  unfold bindScript
  refine (reports_openNames options.imports script.usings).bind fun ds₁ names _ _ => ?_
  refine (reports_declareParameters names options.parameters).bind fun ds₂ parameters _ _ => ?_
  cases options.resultType with
  | none => exact Binding.reports_bind script.body h
  | some name =>
      refine (reports_typeNamed names name).bind fun ds₃ found _ _ => ?_
      cases found with
      | none => exact Binding.reports_bind script.body h
      | some type => exact Binding.reports_bindTo script.body h type

end Compile

variable {r : Runtime} {options : CompileOptions} {source : String} {caches : Caches}

theorem explained_of_compile {e : BoundExpr}
    (he : (compile r options source caches).1.expr = some e) :
    e.Explained (compile r options source caches).1.diagnostics := by
  unfold compile at he ⊢
  cases hp : parseScript source with
  | error fault => simp [hp] at he
  | ok script =>
      simp only [hp] at he ⊢
      have hflags := Compile.hasAll_probingMode_initialFlags options
      obtain ⟨-, -, hq⟩ := Compile.reports_bindScript (r := r) options (parseScript_nested hp)
        ⟨caches, Compile.initialFlags options, []⟩ rfl hflags
      exact Option.some.inj he ▸ hq

-- A source that is not read is an error, so without errors there is an expression.
theorem exists_expr_of_hasErrors_eq_false
    (h : (compile r options source caches).1.hasErrors = false) :
    ∃ e, (compile r options source caches).1.expr = some e := by
  unfold compile at h ⊢
  cases hp : parseScript source with
  | error fault =>
      simp only [hp, CompileOutput.hasErrors, List.any_cons, Bool.or_eq_false_iff] at h
      cases h.1
  | ok script => exact ⟨_, rfl⟩

theorem BoundExpr.Explained.isError_eq_false {ds : List Diagnostic} {e node : BoundExpr}
    (h : e.Explained ds) (hds : ds.any Diagnostic.isError = false) (hn : node ∈ e.nodes) :
    node.isError = false := by
  rw [Bool.eq_false_iff]
  intro he
  obtain ⟨d, hd, herr, -⟩ := h node hn he
  exact List.any_eq_false.mp hds d hd herr

-- What a report prints

theorem DispatchSite.render_ne (site : DispatchSite) :
    site.render ≠ "failed: 0 diagnostic(s)" := by
  intro h
  have hchars := congrArg String.toList h
  simp only [DispatchSite.render, String.toList_append] at hchars
  cases List.head_eq_of_cons_eq hchars

namespace CheckReport

variable {t : TypeTable} {report : CheckReport}

theorem resultType?_eq_some {e : BoundExpr} (he : report.output.expr = some e)
    (herr : e.isError = false) : report.resultType? t = some (t.displayName e.type) := by
  simp [resultType?, he, herr]

theorem ok_ne (type : String) : "ok: " ++ type ≠ "failed: 0 diagnostic(s)" := by
  intro h
  have hchars := congrArg String.toList h
  rw [String.toList_append] at hchars
  cases List.head_eq_of_cons_eq hchars

theorem failed_ne {n : Nat} (h : n ≠ 0) :
    s!"failed: {n} diagnostic(s)" ≠ "failed: 0 diagnostic(s)" := by
  intro heq
  have hparts : "failed: " ++ toString n ++ " diagnostic(s)" =
      "failed: " ++ "0" ++ " diagnostic(s)" := heq
  have hdigits : n.repr = "0" :=
    (String.append_right_inj _).mp ((String.append_left_inj _).mp hparts)
  have hlt : n < 10 ^ 1 := (Nat.length_repr_le_iff Nat.one_pos).mp (hdigits ▸ Nat.le_refl 1)
  have hdigit : ∀ m < 10, m.repr = "0" → m = 0 := by decide
  exact h (hdigit n hlt hdigits)

-- A report that has succeeded knows its type, so the messages are counted only if there are some.
theorem verdict_ne (h : report.isSuccess → (report.resultType? t).isSome) :
    report.verdict t ≠ "failed: 0 diagnostic(s)" := by
  unfold verdict
  split
  · exact ok_ne _
  · rename_i hne
    refine failed_ne fun hn => ?_
    have hsuccess : report.isSuccess := by
      simp [isSuccess, CompileOutput.hasErrors, List.length_eq_zero_iff.mp hn]
    obtain ⟨type, htype⟩ := Option.isSome_iff_exists.mp (h hsuccess)
    exact hne type htype hsuccess

theorem not_mem_lines (h : report.isSuccess → (report.resultType? t).isSome)
    (showDispatch : Bool) : "failed: 0 diagnostic(s)" ∉ report.lines t showDispatch := by
  unfold lines
  refine List.not_mem_cons_of_ne_of_not_mem (verdict_ne h).symm ?_
  split
  · intro hm
    obtain ⟨site, -, hsite⟩ := List.mem_map.mp hm
    exact site.render_ne hsite
  · exact List.not_mem_nil

end CheckReport

-- Every failure in the tree that a compilation returns has been reported inside the span of the
-- failure. So a compilation without errors binds the whole script, its report knows the type of
-- the script, and no report counts zero messages.
theorem compile_reports_failures (r : Runtime) (options : CompileOptions) (source : String)
    (caches : Caches) :
    let output := (compile r options source caches).1
    (∀ e, output.expr = some e → ∀ node ∈ e.nodes, node.isError →
      ∃ d ∈ output.diagnostics, d.isError ∧ d.span ⊆ node.span) ∧
    (output.hasErrors = false → ∃ e, output.expr = some e ∧
      (∀ node ∈ e.nodes, node.isError = false) ∧
      ∀ path, (CheckReport.mk path output).resultType? r.types =
        some (r.types.displayName e.type)) ∧
    ∀ path showDispatch,
      "failed: 0 diagnostic(s)" ∉ (CheckReport.mk path output).lines r.types showDispatch := by
  intro output
  have hbound (h : output.hasErrors = false) : ∃ e, output.expr = some e ∧
      (∀ node ∈ e.nodes, node.isError = false) ∧
      ∀ path, (CheckReport.mk path output).resultType? r.types =
        some (r.types.displayName e.type) := by
    obtain ⟨e, he⟩ := exists_expr_of_hasErrors_eq_false h
    have hnodes : ∀ node ∈ e.nodes, node.isError = false :=
      fun node hn => (explained_of_compile he).isError_eq_false h hn
    have hroot : e.isError = false := hnodes e e.self_mem_nodes
    exact ⟨e, he, hnodes, fun path => CheckReport.resultType?_eq_some he hroot⟩
  refine ⟨fun e he => explained_of_compile he, hbound, fun path showDispatch => ?_⟩
  refine CheckReport.not_mem_lines (fun hsuccess => ?_) showDispatch
  obtain ⟨e, -, -, htype⟩ := hbound (by simpa [CheckReport.isSuccess] using hsuccess)
  exact htype path ▸ rfl

end EventScript
