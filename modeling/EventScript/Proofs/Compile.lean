import EventScript.Compile
import EventScript.Host.Standard
import EventScript.Proofs.Binding.Binder

namespace EventScript

open Compiling MemberSearch

namespace Compile

variable (r : Runtime)

-- The names and types that a script is bound with, told without the messages on the way.
def importing (names : NameScope) (path : String) : NameScope :=
  match r.tree.find? path with
  | some id => names.importNamespace id
  | none => names

def aliasing (names : NameScope) (name path : String) : NameScope :=
  match r.tree.find? path, r.findType? path with
  | some id, _ => names.addAlias name (.namespace id)
  | none, some type => names.addAlias name (.type type)
  | none, none => names

def opening (names : NameScope) (directive : UsingDirective) : NameScope :=
  match directive.nickname with
  | some nickname => aliasing r names nickname.name directive.path.render
  | none => importing r names directive.path.render

def opened (imports : List String) (usings : List UsingDirective) : NameScope :=
  usings.foldl (opening r) (imports.foldl (importing r) .empty)

def declaring (names : NameScope) (declared : List (String × TypeId)) (spec : ParameterSpec) :
    List (String × TypeId) :=
  match typeNamed? r names spec.typeName with
  | some type => (spec.name, type) :: declared
  | none => declared

def scopeOf (options : CompileOptions) (script : Script) : BindingScope :=
  let names := opened r options.imports script.usings
  ⟨r, names, options.parameters.foldl (declaring r names) []⟩

variable {r} {count : Nat}

theorem ensures_importPath (names : NameScope) (path : String) (span : Span) :
    Ensures r.types count (importPath r names path span) (· = importing r names path) := by
  unfold importPath importing
  cases r.tree.find? path with
  | some id => exact .pure rfl
  | none => exact Ensures.giveUp _ _ _ _

theorem ensures_declareAlias (names : NameScope) (name path : String) (span : Span) :
    Ensures r.types count (declareAlias r names name path span)
      (· = aliasing r names name path) := by
  unfold declareAlias aliasing
  cases r.tree.find? path with
  | some id => exact .pure rfl
  | none =>
      cases r.findType? path with
      | some type => exact .pure rfl
      | none => exact Ensures.giveUp _ _ _ _

theorem ensures_applyUsing (names : NameScope) (directive : UsingDirective) :
    Ensures r.types count (applyUsing r names directive) (· = opening r names directive) := by
  unfold applyUsing opening
  cases directive.nickname with
  | some nickname => exact ensures_declareAlias _ _ _ _
  | none => exact ensures_importPath _ _ _

theorem ensures_openNames (imports : List String) (usings : List UsingDirective) :
    Ensures r.types count (openNames r imports usings) (· = opened r imports usings) := by
  unfold openNames opened
  refine (Ensures.foldlM (fun _ _ => ensures_importPath _ _ _) imports .empty).bind ?_
  intro names
  refine (Ensures.foldlM ensures_applyUsing usings names).imp fun result hr hn => ?_
  rw [hr, hn]

theorem ensures_typeNamed (names : NameScope) (name : String) :
    Ensures r.types count (typeNamed r names name) (· = typeNamed? r names name) := by
  unfold typeNamed
  split
  · rename_i type ht
    exact .pure ht.symm
  · exact Ensures.giveUp _ _ _ _

theorem ensures_declareParameters (names : NameScope) (specs : List ParameterSpec) :
    Ensures r.types count (declareParameters r names specs)
      (· = specs.foldl (declaring r names) []) := by
  refine Ensures.foldlM (fun declared spec => ?_) specs []
  refine (ensures_typeNamed names spec.typeName).bind fun found => ?_
  unfold declaring
  cases found with
  | some type => exact .pure fun h => by rw [← h]
  | none => exact .pure fun h => by rw [← h]

theorem ensures_bindScript (options : CompileOptions) (script : Script) :
    Ensures r.types count (bindScript r options script)
      (BoundExpr.WellTyped r.types (scopeOf r options script).parameters) := by
  unfold bindScript
  refine (ensures_openNames options.imports script.usings).bind fun names => ?_
  refine (ensures_declareParameters names options.parameters).bind fun parameters => ?_
  let scope : BindingScope := ⟨r, names, parameters⟩
  have hscope : parameters = options.parameters.foldl (declaring r names) [] →
      names = opened r options.imports script.usings → scope = scopeOf r options script := by
    rintro rfl rfl
    rfl
  have hbind : Ensures scope.types count (Binding.bind scope script.body)
      (BoundExpr.WellTyped scope.types scope.parameters) := Binding.ensures_bind script.body
  have hbindTo : ∀ type, Ensures scope.types count (Binding.bindTo scope script.body type)
      (BoundExpr.WellTyped scope.types scope.parameters) := Binding.ensures_bindTo script.body
  cases options.resultType with
  | none => exact hbind.imp fun e he hp hn => hscope hp hn ▸ he
  | some name =>
      refine (ensures_typeNamed names name).bind fun found => ?_
      cases found with
      | none => exact hbind.imp fun e he _ hp hn => hscope hp hn ▸ he
      | some type => exact (hbindTo type).imp fun e he _ hp hn => hscope hp hn ▸ he

end Compile

-- The caches that compilations on hosts with these types, and the other questions that can be put
-- to them, leave behind.
inductive Caches.Reachable : TypeTable → Caches → Prop
  | empty (t : TypeTable) : Reachable t .empty
  | lookup {t : TypeTable} {caches : Caches} (type : TypeId) (name : String) :
      Reachable t caches →
      Reachable t { caches with members := (MemberCache.lookup t type name caches.members).2 }
  | resolve {t : TypeTable} {caches : Caches} (source target : TypeId) (mode : ConversionMode) :
      Reachable t caches →
      Reachable t
        { caches with members := (Conversion.resolve t source target mode caches.members).2 }
  | isPossible {t : TypeTable} {caches : Caches} (source target : TypeId)
      (level : NarrowingLevel) : Reachable t caches →
      Reachable t
        { caches with members := (Conversion.isPossible t source target level caches.members).2 }
  | extensionMethods {r : Runtime} {caches : Caches} (names : NameScope) (receiver : TypeId)
      (name : String) : Reachable r.types caches →
      Reachable r.types
        { caches with members := (names.extensionMethods r receiver name caches.members).2 }
  | request {t : TypeTable} {caches : Caches} (key : DispatchKey) : Reachable t caches →
      Reachable t
        { caches with descriptors := (DescriptorCache.request key caches.descriptors).2 }
  | compile {r : Runtime} {caches : Caches} (options : CompileOptions) (source : String) :
      Reachable r.types caches → Reachable r.types (compile r options source caches).2

namespace Compile

variable {r : Runtime} {options : CompileOptions} {caches : Caches}

theorem hasAll_probingMode_initialFlags (options : CompileOptions) :
    (initialFlags options).hasAll .probingMode = false := by
  unfold initialFlags
  split <;> decide

theorem ready_initial (h : caches.members.Sound r.types) :
    Compilation.Ready r.types ⟨caches, initialFlags options, []⟩ :=
  ⟨h, hasAll_probingMode_initialFlags options⟩

theorem bindScript_spec (script : Script) (h : caches.members.Sound r.types) :
    let run := bindScript r options script ⟨caches, initialFlags options, []⟩
    run.2.caches.members.Sound r.types ∧ (Diagnostic.countErrors run.2.diagnostics = 0 →
      run.1.WellTyped r.types (scopeOf r options script).parameters) := by
  have hrun : Ensures r.types 0 _ _ := ensures_bindScript options script
  obtain ⟨hr, _, hq⟩ := hrun _ (ready_initial h)
  exact ⟨hr.1, hq rfl⟩

end Compile

theorem Caches.Reachable.sound {t : TypeTable} {caches : Caches} (h : caches.Reachable t) :
    caches.members.Sound t := by
  induction h with
  | empty t => exact sound_empty t
  | lookup type name _ ih => exact (steady_lookup type name _ ih).2
  | resolve source target mode _ ih => exact (Conversion.steady_resolve source target mode _ ih).2
  | isPossible source target level _ ih =>
      exact (Conversion.steady_isPossible source target level _ ih).2
  | extensionMethods names receiver name _ ih =>
      exact (names.steady_extensionMethods receiver name _ ih).2
  | request key _ ih => exact ih
  | compile options source _ ih =>
      unfold EventScript.compile
      cases parseScript source with
      | error e => exact ih
      | ok script =>
          exact (Compile.bindScript_spec script ih).1

-- A compilation without errors has read the script, and every node of what it returns is typed.
theorem compile_wellTyped (r : Runtime) (options : CompileOptions) (source : String)
    (caches : Caches) (hc : caches.Reachable r.types)
    (he : (compile r options source caches).1.hasErrors = false) :
    ∃ script e, parseScript source = .ok script ∧
      (compile r options source caches).1.expr = some e ∧
      e.WellTyped r.types (Compile.scopeOf r options script).parameters := by
  unfold compile at he ⊢
  cases hp : parseScript source with
  | error e =>
      simp only [hp, CompileOutput.hasErrors, List.any_cons, Bool.or_eq_false_iff] at he
      cases he.1
  | ok script =>
      simp only [hp] at he ⊢
      refine ⟨script, _, rfl, rfl, ?_⟩
      refine (Compile.bindScript_spec script hc.sound).2 ?_
      rw [CompileOutput.hasErrors, List.any_eq_false] at he
      exact List.countP_eq_zero.mpr he

theorem compile_wellTyped_standard :
    ∃ script e,
      parseScript "-1 + 2.5 > 3 && !(5 as System.Int32? == null)" = .ok script ∧
      (compile Standard.host {} "-1 + 2.5 > 3 && !(5 as System.Int32? == null)" .empty).1.expr =
        some e ∧
      e.WellTyped Standard.host.types (Compile.scopeOf Standard.host {} script).parameters :=
  compile_wellTyped Standard.host {} _ .empty (.empty _) (by decide +kernel)

end EventScript
