import EventScript.Proofs.Host.Standard
import EventScript.Proofs.Settling.Binder

namespace EventScript

open Compiling

namespace Compile

variable {r : Runtime}

theorem yields_importPath {names : NameScope} (h : names.ClosedAliases r.types) (path : String)
    (span : Span) :
    Yields (importPath r names path span) (NameScope.ClosedAliases r.types) := by
  unfold importPath
  split
  · exact .pure h
  · exact .andThen fun _ => .pure h

variable (ht : r.Tidy)

include ht

theorem yields_applyUsing {names : NameScope} (h : names.ClosedAliases r.types)
    (directive : UsingDirective) :
    Yields (applyUsing r names directive) (NameScope.ClosedAliases r.types) := by
  unfold applyUsing
  split
  · unfold declareAlias
    split
    · exact .pure (h.addAlias _ fun _ => .of_namespace _)
    split
    · rename_i type hf
      have hclosed := ht.mentionsParameter_of_findType? hf
      exact .pure (h.addAlias _ fun _ => .of_closed hclosed)
    · exact .andThen fun _ => .pure h
  · exact yields_importPath h _ _

theorem yields_openNames (imports : List String) (usings : List UsingDirective) :
    Yields (openNames r imports usings) (NameScope.ClosedAliases r.types) := by
  have hempty : NameScope.empty.ClosedAliases r.types := fun _ hm => absurd hm List.not_mem_nil
  refine (Yields.foldlM (fun names path h => ?_) imports hempty).bind fun imported h => ?_
  · exact yields_importPath h path .none
  · exact .foldlM (fun names directive h => yields_applyUsing ht h directive) usings h

theorem yields_typeNamed {names : NameScope} (h : names.ClosedAliases r.types) (name : String) :
    Yields (typeNamed r names name) fun found =>
      ∀ type ∈ found, r.types.mentionsParameter type = false := by
  unfold typeNamed
  split
  · rename_i type hf
    refine .pure fun found hm => ?_
    rw [← Option.some.inj hm]
    exact mentionsParameter_of_typeNamed? ht h hf
  · refine .andThen fun _ => .pure fun found hm => ?_
    cases hm

theorem yields_declareParameters {names : NameScope} (h : names.ClosedAliases r.types)
    (specs : List ParameterSpec) :
    Yields (declareParameters r names specs) fun parameters =>
      ∀ p ∈ parameters, r.types.mentionsParameter p.2 = false := by
  refine .foldlM (fun declared spec hd => ?_) specs (by simp)
  refine (yields_typeNamed ht h spec.typeName).bind fun found hf => ?_
  cases found with
  | some type => exact .pure (List.forall_mem_cons.mpr ⟨hf type rfl, hd⟩)
  | none => exact .pure hd

theorem yields_bindScript (options : CompileOptions) (script : Script) :
    Yields (bindScript r options script) (BoundExpr.Settled r.types) := by
  unfold bindScript
  refine (yields_openNames ht options.imports script.usings).bind fun names hn => ?_
  refine (yields_declareParameters ht hn options.parameters).bind fun parameters hp => ?_
  have hscope : Binding.ClosedScope ⟨r, names, parameters⟩ := ⟨ht, hn, hp⟩
  cases options.resultType with
  | none => exact Binding.yields_bind hscope script.body
  | some name =>
      refine (yields_typeNamed ht hn name).bind fun found hf => ?_
      cases found with
      | none => exact Binding.yields_bind hscope script.body
      | some type => exact Binding.yields_bindTo hscope script.body (hf type rfl)

end Compile

-- On a host whose definitions all take parameters, a script only gets an open type where it uses
-- a member whose declared type mentions a parameter in a way that does not close it, and where an
-- equality brings its other side to that type.
theorem compile_open_types {r : Runtime} (hr : r.Reachable)
    (hd : r.types.DefinitionsTakeParameters) (options : CompileOptions) (source : String)
    (caches : Caches) :
    ∀ e, (compile r options source caches).1.expr = some e →
      (r.types.mentionsParameter e.type = true → e.LeavesOpen r.types) ∧
      ∀ node ∈ e.nodes, ∀ operand ∈ node.operands,
        r.types.mentionsParameter operand.type = true → operand.LeavesOpen r.types ∨
          node.op.isEquality = true ∧
            ∃ other ∈ node.operands, other.type = operand.type ∧ other.LeavesOpen r.types := by
  intro e he
  unfold compile at he
  cases hp : parseScript source with
  | error fault => simp [hp] at he
  | ok script =>
      simp only [hp] at he
      have hsettled : e.Settled r.types := Option.some.inj he ▸
        Compile.yields_bindScript (hr.tidy hd) options script
          ⟨caches, Compile.initialFlags options, []⟩
      exact ⟨hsettled.leavesOpen, hsettled.settlesOperands⟩

-- The first number of a list, asked of the type that declares the method and not of the list.
def listOptions : CompileOptions where
  parameters := [⟨"xs", "System.Collections.Generic.List<System.Int32>"⟩]

theorem compile_open_types_first :
    ∃ e, (compile Standard.host listOptions "Enumerable.First(xs)" .empty).1.expr = some e ∧
      Standard.host.types.mentionsParameter e.type = true ∧ e.LeavesOpen Standard.host.types ∧
      ∀ node ∈ e.nodes, ∀ operand ∈ node.operands,
        Standard.host.types.mentionsParameter operand.type = true →
          operand.LeavesOpen Standard.host.types ∨ node.op.isEquality = true ∧
            ∃ other ∈ node.operands, other.type = operand.type ∧
              other.LeavesOpen Standard.host.types := by
  have hrun : (compile Standard.host listOptions "Enumerable.First(xs)" .empty).1.expr.any
      fun e => Standard.host.types.mentionsParameter e.type := by decide +kernel
  have hparameters : Standard.host.types.DefinitionsTakeParameters :=
    TypeTable.definitionsTakeParameters_of_forall (by decide +kernel)
  obtain ⟨e, he, hopen⟩ := (Option.any_eq_true _ _).mp hrun
  obtain ⟨hroot, hinside⟩ := compile_open_types Standard.reachable_host hparameters listOptions
    "Enumerable.First(xs)" .empty e he
  exact ⟨e, he, hopen, hroot hopen, hinside⟩

-- Whether a script that has parameters of closed types only compiles without errors, and yet some
-- expression in it has an open type.
def compilesOpen (r : Runtime) (options : CompileOptions) (source : String) : Bool :=
  let output := (compile r options source .empty).1
  let isOpen := r.types.mentionsParameter
  !output.hasErrors &&
    options.parameters.all (fun spec => (r.findType? spec.typeName).any (!isOpen ·)) &&
    output.expr.any fun e => e.nodes.any fun node => isOpen node.type

-- A box of numbers that is meant to have a crate of numbers as its content, which nobody has ever
-- asked for. It also has the definition of crates, as it is, for its shape.
def crates : TypeTable :=
  let build : Building Unit := do
    let crate ← Building.defineGeneric "Demo" "Crate" .classType ["T"]
    let box ← Building.defineGeneric "Demo" "Box" .classType ["T"]
    let content ← Building.instantiate crate [⟨box.index + 1⟩]
    Building.addProperty crate "Item" ⟨crate.index + 1⟩ false
    Building.addProperty box "Content" content false
    Building.addProperty box "Shape" crate false
    let _ ← Building.instantiate box [.numeric .int32]
  (Building.outcome build .initial).2

def boxOptions : CompileOptions where
  parameters := [⟨"box", "Demo.Box<System.Int32>"⟩]

-- A class that has been declared as a definition, but without any parameters.
def parameterless : TypeTable :=
  let build := Building.defineGeneric "Demo" "Unit" .classType []
  (Building.outcome build .initial).2

-- There is one script for each way in which a type stays open, for an equality with such a type,
-- and for a definition that takes no parameters.
theorem open_types_without_errors :
    compilesOpen Standard.host listOptions "Enumerable.First(xs)" ∧
      (∀ source ∈ ["box.Content", "box.Content.Item", "box.Shape", "box.Content == null"],
        compilesOpen (.ofTable crates) boxOptions source) ∧
      compilesOpen (.ofTable parameterless) {} "(Demo.Unit)null" := by
  decide +kernel

end EventScript
