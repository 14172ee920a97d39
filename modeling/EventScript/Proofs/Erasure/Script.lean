import EventScript.Compile
import EventScript.Host.Standard
import EventScript.Proofs.Erasure.Binder

namespace EventScript

def CompileOutput.eraseSpans (output : CompileOutput) : CompileOutput :=
  ⟨output.expr.map BoundExpr.eraseSpans, output.diagnostics.map Diagnostic.eraseSpan⟩

namespace Compile

open Compiling

variable {r : Runtime}

theorem erases_importPath (names : NameScope) (path : String) (span : Span) :
    Erases id (importPath r names path span) (importPath r names path .none) := by
  unfold importPath
  split
  · exact .pure rfl
  · exact .giveUp rfl

theorem erases_declareAlias (names : NameScope) (name path : String) (span : Span) :
    Erases id (declareAlias r names name path span) (declareAlias r names name path .none) := by
  unfold declareAlias
  split
  · exact .pure rfl
  split
  · exact .pure rfl
  · exact .giveUp rfl

theorem erases_applyUsing (names : NameScope) (directive : UsingDirective) :
    Erases id (applyUsing r names directive) (applyUsing r names directive.eraseSpans) := by
  obtain ⟨nickname, path, span⟩ := directive
  rw [UsingDirective.eraseSpans]
  unfold applyUsing
  rw [path.render_eraseSpans]
  cases nickname with
  | some nickname => exact erases_declareAlias _ _ _ _
  | none => exact erases_importPath _ _ _

theorem erases_openNames (imports : List String) (usings : List UsingDirective) :
    Erases id (openNames r imports usings)
      (openNames r imports (usings.map UsingDirective.eraseSpans)) := by
  rw [openNames, openNames]
  refine (Erases.foldlM (fun names path => ?_) imports NameScope.empty).bindSame fun imported => ?_
  · exact erases_importPath names path .none
  · rw [List.foldlM_map]
    exact .foldlM erases_applyUsing usings imported

theorem erases_typeNamed (names : NameScope) (name : String) :
    Erases id (typeNamed r names name) (typeNamed r names name) := by
  unfold typeNamed
  split
  · exact .pure rfl
  · exact .giveUp rfl

theorem erases_declareParameters (names : NameScope) (specs : List ParameterSpec) :
    Erases id (declareParameters r names specs) (declareParameters r names specs) := by
  refine .foldlM (fun declared spec => ?_) specs []
  refine (erases_typeNamed names spec.typeName).bindSame fun found => ?_
  cases found <;> exact .pure rfl

theorem erases_bindScript (options : CompileOptions) (script : Script) :
    Erases BoundExpr.eraseSpans (bindScript r options script)
      (bindScript r options script.eraseSpans) := by
  refine (erases_openNames options.imports script.usings).bindSame fun names => ?_
  refine (erases_declareParameters names options.parameters).bindSame fun parameters => ?_
  cases options.resultType with
  | none => exact Binding.erases_bind _
  | some name =>
      refine (erases_typeNamed names name).bindSame fun found => ?_
      cases found with
      | none => exact Binding.erases_bind _
      | some type => exact Binding.erases_bindTo _ _

end Compile

-- What a compilation comes to without the places, and the caches that it leaves behind.
def compileUnplaced (r : Runtime) (options : CompileOptions) (source : String) :
    StateM Caches CompileOutput := fun caches =>
  let (output, after) := compile r options source caches
  (output.eraseSpans, after)

-- The same for a script that has been read.
def bindUnplaced (r : Runtime) (options : CompileOptions) (script : Script) :
    StateM Caches CompileOutput := fun caches =>
  let (expr, after) := Compile.bindScript r options script.eraseSpans
    ⟨caches, Compile.initialFlags options, []⟩
  (⟨some expr, after.diagnostics⟩, after.caches)

section

variable {r : Runtime} {options : CompileOptions} {source : String}

theorem bindUnplaced_congr {script script' : Script} (h : script.eraseSpans = script'.eraseSpans) :
    bindUnplaced r options script = bindUnplaced r options script' := by
  unfold bindUnplaced
  rw [h]

theorem compileUnplaced_of_error {e : SyntaxError} (h : parseScript source = .error e) :
    compileUnplaced r options source =
      fun caches => (⟨none, [e.toDiagnostic.eraseSpan]⟩, caches) := by
  funext caches
  rw [compileUnplaced, compile, h]
  rfl

theorem compileUnplaced_of_ok {script : Script} (h : parseScript source = .ok script) :
    compileUnplaced r options source = bindUnplaced r options script := by
  funext caches
  have herase := Compile.erases_bindScript (r := r) options script
    ⟨caches, Compile.initialFlags options, []⟩
  change Compile.bindScript r options script.eraseSpans ⟨caches, _, []⟩ = _ at herase
  rw [compileUnplaced, compile, h, bindUnplaced, herase]
  rfl

end

-- Layout carries no meaning: of two sources that consist of the same tokens, both are refused with
-- one message or both are read, and what they are compiled to differs in places only.
theorem compile_layout (r : Runtime) (options : CompileOptions) {source source' : String}
    {tokens tokens' : List Token} (h : tokenize source = .ok tokens)
    (h' : tokenize source' = .ok tokens') (hkinds : kinds tokens = kinds tokens') :
    ((∃ e e', parseScript source = .error e ∧ parseScript source' = .error e' ∧
        e.message = e'.message) ∨
      ∃ script script', parseScript source = .ok script ∧ parseScript source' = .ok script') ∧
    compileUnplaced r options source = compileUnplaced r options source' := by
  have hparse : parseScript source = Parser.script tokens := by rw [parseScript, h]; rfl
  have hparse' : parseScript source' = Parser.script tokens' := by rw [parseScript, h']; rfl
  have halike := Parser.alike_script hkinds
  rw [← hparse, ← hparse'] at halike
  cases hread : parseScript source with
  | error e =>
      cases hread' : parseScript source' with
      | error e' =>
          have hfault : e.fault = e'.fault := by rwa [hread, hread'] at halike
          have hmessage : e.message = e'.message := congrArg SyntaxFault.message hfault
          refine ⟨.inl ⟨e, e', rfl, rfl, hmessage⟩, ?_⟩
          rw [compileUnplaced_of_error hread, compileUnplaced_of_error hread',
            SyntaxError.toDiagnostic, SyntaxError.toDiagnostic, hmessage]
          rfl
      | ok script' => rw [hread, hread'] at halike; exact halike.elim
  | ok script =>
      cases hread' : parseScript source' with
      | error e' => rw [hread, hread'] at halike; exact halike.elim
      | ok script' =>
          have hsame : script.eraseSpans = script'.eraseSpans := by rwa [hread, hread'] at halike
          refine ⟨.inr ⟨script, script', rfl, rfl⟩, ?_⟩
          rw [compileUnplaced_of_ok hread, compileUnplaced_of_ok hread', bindUnplaced_congr hsame]

theorem compile_layout_sum :
    let close := "1+missing"
    let spread := "1 /* and */ +\n  missing // in vain"
    ((∃ e e', parseScript close = .error e ∧ parseScript spread = .error e' ∧
        e.message = e'.message) ∨
      ∃ script script', parseScript close = .ok script ∧ parseScript spread = .ok script') ∧
    compileUnplaced Standard.host {} close = compileUnplaced Standard.host {} spread := by
  intro close spread
  let sum : List TokenKind := [.int 1 .none, .symbol .plus, .ident "missing", .eof]
  have hclose : (tokenize close).toOption.any (kinds · = sum) = true := by decide +kernel
  have hspread : (tokenize spread).toOption.any (kinds · = sum) = true := by decide +kernel
  obtain ⟨tokens, h, hk⟩ := Parser.exists_ok_of_any hclose
  obtain ⟨tokens', h', hk'⟩ := Parser.exists_ok_of_any hspread
  exact compile_layout Standard.host {} h h' (by rw [of_decide_eq_true hk, of_decide_eq_true hk'])

end EventScript
