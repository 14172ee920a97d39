import EventScript.Proofs.Agreement.Binder
import EventScript.Proofs.Runtime

namespace EventScript

open Compiling

-- Full names

namespace Runtime

variable {r r' : Runtime}

theorem mapM_congr_left {α β : Type} {f g : α → Option β} {as : List α}
    (h : ∀ a ∈ as, f a = g a) : as.mapM f = as.mapM g := by
  induction as with
  | nil => rfl
  | cons a as ih =>
      obtain ⟨hfirst, hrest⟩ := List.forall_mem_cons.mp h
      rw [List.mapM_cons, List.mapM_cons, hfirst, ih hrest]

variable (h : r.Agrees r')
include h

theorem findNamed?_eq (fullName : List Char) (arity : Nat) :
    r'.findNamed? fullName arity = r.findNamed? fullName arity := by
  simp only [findNamed?, h.types.find?_eq]

theorem findTypeChars?_eq (name : List Char) : r'.findTypeChars? name = r.findTypeChars? name := by
  induction name using findTypeChars?.induct with
  | case1 name hc =>
      rw [findTypeChars?_of_named hc, findTypeChars?_of_named hc, findNamed?_eq h]
  | case2 name fullName behind hc hd =>
      rw [findTypeChars?_of_unclosed hc hd, findTypeChars?_of_unclosed hc hd]
  | case3 name fullName behind hc inner hd ih =>
      rw [findTypeChars?_of_instance hc hd, findTypeChars?_of_instance hc hd,
        mapM_congr_left fun part hp => ih ⟨part, hp⟩]
      simp only [findNamed?_eq h, h.types.findInstance?_eq]

theorem findType?_eq (name : String) : r'.findType? name = r.findType? name :=
  findTypeChars?_eq h name.toList

end Runtime

namespace Compile

variable {c : Comparison} {t t' : TypeTable} {r r' : Runtime} (h : r.Agrees r')
include h

theorem matches_importPath (names : NameScope) (path : String) (span : Span) :
    Matches c t t' (importPath r names path span) (importPath r' names path span) Eq := by
  unfold importPath
  rw [h.tree_eq]
  split
  · exact .pure rfl
  · exact h.giveUp rfl rfl

theorem matches_declareAlias (names : NameScope) (name path : String) (span : Span) :
    Matches c t t' (declareAlias r names name path span) (declareAlias r' names name path span)
      Eq := by
  unfold declareAlias
  rw [h.tree_eq, Runtime.findType?_eq h]
  split
  · exact .pure rfl
  split
  · exact .pure rfl
  · exact h.giveUp rfl rfl

theorem matches_applyUsing (names : NameScope) (directive : UsingDirective) :
    Matches c t t' (applyUsing r names directive) (applyUsing r' names directive) Eq := by
  unfold applyUsing
  split
  · exact matches_declareAlias h _ _ _ _
  · exact matches_importPath h _ _ _

theorem matches_openNames (imports : List String) (usings : List UsingDirective) :
    Matches c t t' (openNames r imports usings) (openNames r' imports usings) Eq := by
  refine Matches.bindSame (.foldlM (fun names _ hn path => ?_) imports rfl) fun imported => ?_
  · exact hn ▸ matches_importPath h names path .none
  · exact .foldlM (fun names _ hn directive => hn ▸ matches_applyUsing h names directive) usings rfl

theorem typeNamed?_eq (names : NameScope) (name : String) :
    typeNamed? r' names name = typeNamed? r names name := by
  simp only [typeNamed?, Runtime.findType?_eq h, NameScope.resolve_eq h]

theorem matches_typeNamed (names : NameScope) (name : String) :
    Matches c t t' (typeNamed r names name) (typeNamed r' names name) Eq := by
  unfold typeNamed
  rw [typeNamed?_eq h]
  split
  · exact .pure rfl
  · exact h.giveUp rfl rfl

theorem matches_declareParameters (names : NameScope) (specs : List ParameterSpec) :
    Matches c t t' (declareParameters r names specs) (declareParameters r' names specs) Eq := by
  refine .foldlM (fun declared declared' hd spec => ?_) specs rfl
  subst hd
  refine (matches_typeNamed h names spec.typeName).bindSame fun found => ?_
  cases found <;> exact .pure rfl

theorem matches_bindScript (options : CompileOptions) (script : Script) :
    Matches c r.types r'.types (bindScript r options script) (bindScript r' options script)
      (BoundExpr.Alike c) := by
  refine (matches_openNames h options.imports script.usings).bindSame fun names => ?_
  refine (matches_declareParameters h names options.parameters).bindSame fun parameters => ?_
  let scope : BindingScope := ⟨r, names, parameters⟩
  have hscope : scope.runtime.Agrees r' := h
  cases options.resultType with
  | none => exact Binding.matches_bind hscope script.body
  | some name =>
      refine (matches_typeNamed h names name).bindSame fun found => ?_
      cases found with
      | none => exact Binding.matches_bind hscope script.body
      | some type => exact Binding.matches_bindTo hscope script.body type

end Compile

-- Whole compilations

namespace CompileOutput

def mapDescriptors (f : Descriptor → Descriptor) (output : CompileOutput) : CompileOutput :=
  { output with expr := output.expr.map (BoundExpr.mapDescriptors f) }

-- The output with the key of every descriptor, but without its number.
def unnumbered (output : CompileOutput) : CompileOutput := output.mapDescriptors .unnumbered

theorem mapDescriptors_id (output : CompileOutput) : output.mapDescriptors id = output := by
  obtain ⟨expr, diagnostics⟩ := output
  cases expr with
  | none => rfl
  | some e => rw [mapDescriptors, Option.map_some, e.mapDescriptors_id]

theorem eq_of_mapDescriptors_id {output output' : CompileOutput}
    (h : output.mapDescriptors id = output'.mapDescriptors id) : output = output' := by
  rwa [mapDescriptors_id, mapDescriptors_id] at h

end CompileOutput

section

variable {r r' : Runtime} {caches caches' : Caches} (hs : caches.members.Sound r.types)
  (options : CompileOptions) (source : String)
include hs

theorem compile_alike (c : Comparison) (h : r.Agrees r') (hs' : caches'.members.Sound r'.types) :
    caches.descriptors.Keeps (compile r options source caches).2.descriptors ∧
      (c.Starts caches.descriptors (compile r options source caches).2.descriptors
          caches'.descriptors →
        (compile r options source caches).1.mapDescriptors c.view =
            (compile r' options source caches').1.mapDescriptors c.view ∧
          (compile r options source caches).2.members.Sound r.types ∧
          c.Leaves (compile r options source caches).2.descriptors caches'.descriptors
            (compile r' options source caches').2.descriptors) := by
  unfold compile
  cases parseScript source with
  | error e => exact ⟨.refl _, fun hstart => ⟨rfl, hs, hstart.leaves_self⟩⟩
  | ok script =>
      let start (caches : Caches) : Compilation := ⟨caches, Compile.initialFlags options, []⟩
      have hstart : (start caches).Beside r.types r'.types (start caches') := ⟨hs, hs', rfl, rfl⟩
      obtain ⟨hk, hrun⟩ := Compile.matches_bindScript h options script _ _ hstart
      refine ⟨hk, fun hstarts => ?_⟩
      obtain ⟨he, hb, hl⟩ := hrun hstarts
      exact ⟨congrArg₂ CompileOutput.mk (congrArg some he) hb.diagnostics_eq.symm, hb.sound, hl⟩

theorem keeps_compile :
    caches.descriptors.Keeps (compile r options source caches).2.descriptors :=
  (compile_alike hs options source .keys (.refl r) hs).1

theorem sound_compile : (compile r options source caches).2.members.Sound r.types :=
  ((compile_alike hs options source .keys (.refl r) hs).2 trivial).2.1

-- Whatever the caches hold, only the numbers of descriptors depend on it.
theorem unnumbered_compile (h : r.Agrees r') (hs' : caches'.members.Sound r'.types) :
    (compile r options source caches).1.unnumbered =
      (compile r' options source caches').1.unnumbered :=
  ((compile_alike hs options source .keys h hs').2 trivial).1

-- Where all descriptors of a compilation are known, it is repeated with these and needs no others.
theorem compile_replay (hs' : caches'.members.Sound r.types)
    (hk : (compile r options source caches).2.descriptors.Keeps caches'.descriptors) :
    (compile r options source caches').1 = (compile r options source caches).1 ∧
      (compile r options source caches').2.descriptors = caches'.descriptors := by
  obtain ⟨ho, -, hl⟩ := (compile_alike hs options source .replay (.refl r) hs').2 hk
  exact ⟨CompileOutput.eq_of_mapDescriptors_id ho.symm, hl⟩

theorem compile_lockstep (h : r.Agrees r') (hs' : caches'.members.Sound r'.types)
    (hd : caches'.descriptors = caches.descriptors) :
    (compile r' options source caches').1 = (compile r options source caches).1 ∧
      (compile r' options source caches').2.descriptors =
        (compile r options source caches).2.descriptors := by
  obtain ⟨ho, -, hl⟩ := (compile_alike hs options source .lockstep h hs').2 hd
  exact ⟨CompileOutput.eq_of_mapDescriptors_id ho.symm, hl⟩

end

end EventScript
