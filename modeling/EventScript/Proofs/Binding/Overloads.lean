import EventScript.Binding.Calls
import EventScript.Proofs.Conversion.Steadiness

namespace EventScript.Binding

open MemberSearch

variable {scope : BindingScope} {level : NarrowingLevel} {receiver : Option TypeId}

theorem steady_accepts (parameter argument : TypeId) :
    Steady scope.types (accepts scope level parameter argument) := by
  unfold accepts
  split
  · exact .pure _
  · exact Conversion.steady_isPossible argument parameter level

theorem steady_acceptsEach (pairs : List (TypeId × TypeId)) :
    Steady scope.types (acceptsEach scope level pairs) := by
  induction pairs with
  | nil => exact .pure true
  | cons pair rest ih =>
      refine (steady_accepts pair.1 pair.2).bind ?_
      split
      · exact ih
      · exact .pure false

theorem steady_acceptsAll (parameters arguments : List TypeId) :
    Steady scope.types (acceptsAll scope level parameters arguments) := by
  unfold acceptsAll
  split
  · exact steady_acceptsEach _
  · exact .pure false

theorem steady_applicable (arguments : List TypeId) (methods : List MethodId) :
    Steady scope.types (applicable scope level receiver arguments methods) := by
  induction methods with
  | nil => exact .pure []
  | cons method methods ih => exact (steady_acceptsAll _ arguments).bind (ih.bind (.pure _))

theorem steady_chooseAt (group : MethodGroup) (arguments : List TypeId)
    (levels : List NarrowingLevel) :
    Steady scope.types (chooseAt scope group arguments levels) := by
  induction levels with
  | nil => exact .pure Overload.noMatch
  | cons level levels ih =>
      refine (steady_applicable arguments group.methods).bind ?_
      split
      · exact ih
      · exact .pure _
      · exact .pure _

section

variable (scope)

-- How parameters and the arguments that can be passed for them are related.
def Accepting (I : MemberCache → Prop) (R : TypeId → TypeId → Prop) (level : NarrowingLevel) :
    Prop :=
  ∀ parameter argument, Finds I (accepts scope level parameter argument) fun fits =>
    fits = true → R parameter argument

end

section

variable {I : MemberCache → Prop} {R : TypeId → TypeId → Prop} (h : Accepting scope I R level)

include h

theorem finds_acceptsEach {parameters arguments : List TypeId}
    (hlen : parameters.length = arguments.length) :
    Finds I (acceptsEach scope level (parameters.zip arguments)) fun fits =>
      fits = true → List.Forall₂ R parameters arguments := by
  induction parameters generalizing arguments with
  | nil =>
      obtain rfl := List.eq_nil_of_length_eq_zero hlen.symm
      exact .pure fun _ => .nil
  | cons parameter parameters ih =>
      cases arguments with
      | nil => cases hlen
      | cons argument arguments =>
          rw [List.zip_cons_cons, acceptsEach]
          refine (h parameter argument).bind fun fits hfirst => ?_
          cases fits with
          | false => exact .pure nofun
          | true => exact (ih (Nat.succ.inj hlen)).imp fun _ hrest hf => .cons (hfirst rfl) (hrest hf)

theorem finds_acceptsAll (parameters arguments : List TypeId) :
    Finds I (acceptsAll scope level parameters arguments) fun fits =>
      fits = true → List.Forall₂ R parameters arguments := by
  unfold acceptsAll
  split
  · rename_i hlen
    exact finds_acceptsEach h hlen
  · exact .pure nofun

theorem finds_applicable (arguments : List TypeId) (methods : List MethodId) :
    Finds I (applicable scope level receiver arguments methods) fun found =>
      ∀ method ∈ found, method ∈ methods ∧
        List.Forall₂ R (parameterTypes scope.types method receiver) arguments := by
  induction methods with
  | nil => exact .pure nofun
  | cons candidate methods ih =>
      rw [applicable]
      refine (finds_acceptsAll h _ arguments).bind fun fits hfits => ?_
      refine ih.bind fun others ho => .pure ?_
      have hothers : ∀ method ∈ others, method ∈ candidate :: methods ∧
          List.Forall₂ R (parameterTypes scope.types method receiver) arguments :=
        fun method hm => (ho method hm).imp_left (List.mem_cons_of_mem _)
      split
      · rename_i hf
        exact List.forall_mem_cons.mpr ⟨⟨List.mem_cons_self, hfits hf⟩, hothers⟩
      · exact hothers

end

-- No parameter type is ever preferred, so of two applicable methods neither is chosen.
theorem better_eq (first second : MethodId) :
    better scope receiver first second = .ambiguous first second := by
  unfold better
  dsimp only
  generalize List.find? _ _ = found
  cases found <;> rfl

-- A chosen method is one of the group that takes the arguments at some level.
theorem finds_chooseAt {I : MemberCache → Prop} {R : TypeId → TypeId → Prop} (group : MethodGroup)
    (arguments : List TypeId) {levels : List NarrowingLevel}
    (h : ∀ level ∈ levels, Accepting scope I R level) :
    Finds I (chooseAt scope group arguments levels) fun overload =>
      ∀ method, overload = .found method → method ∈ group.methods ∧
        List.Forall₂ R (parameterTypes scope.types method group.receiverType?) arguments := by
  induction levels with
  | nil => exact .pure nofun
  | cons level levels ih =>
      obtain ⟨hlevel, hlevels⟩ := List.forall_mem_cons.mp h
      rw [chooseAt]
      refine (finds_applicable hlevel arguments group.methods).bind fun found hf => ?_
      split
      · exact ih hlevels
      · rename_i only
        refine .pure fun method hm => ?_
        obtain rfl := Overload.found.inj hm
        exact hf only (List.mem_singleton_self only)
      · rw [better_eq]
        exact .pure nofun

-- An open parameter only takes an argument that fits its shape. For a closed one this says nothing:
-- there the argument is converted, which has its own outcome.
def FitsOpen (t : TypeTable) (parameter argument : TypeId) : Prop :=
  t.mentionsParameter parameter = true → t.isAssignableOpen parameter argument = true

theorem fitsOpen_of_accepts {parameter argument : TypeId} (cache : MemberCache)
    (h : (accepts scope level parameter argument cache).1 = true) :
    FitsOpen scope.types parameter argument := by
  intro hm
  simpa [accepts, hm] using h

theorem fits_of_chooseAt {group : MethodGroup} {arguments : List TypeId}
    {levels : List NarrowingLevel} {method : MethodId} (cache : MemberCache)
    (h : (chooseAt scope group arguments levels cache).1 = .found method) :
    method ∈ group.methods ∧ List.Forall₂ (FitsOpen scope.types)
      (parameterTypes scope.types method group.receiverType?) arguments := by
  have haccepts (level : NarrowingLevel) :
      Accepting scope (fun _ => True) (FitsOpen scope.types) level :=
    fun _ _ cache hc => ⟨fitsOpen_of_accepts cache, hc⟩
  exact (finds_chooseAt group arguments fun level _ => haccepts level) cache trivial |>.1 method h

end EventScript.Binding
