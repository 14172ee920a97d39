import EventScript.Proofs.Binding.Overloads
import EventScript.Proofs.Host.Standard

namespace EventScript

open MemberSearch

theorem TypeTable.isAssignableOpen_self (t : TypeTable) (type : TypeId) :
    t.isAssignableOpen type type = true := by
  unfold isAssignableOpen
  split
  · rfl
  split
  · refine List.any_eq_true.mpr ⟨type, ?_, decide_eq_true rfl⟩
    exact List.mem_append_left _ List.mem_cons_self
  · exact if_pos rfl

namespace Binding

-- The argument can stand for the parameter: it has the shape of an open one; for a closed one it is
-- assignable, or converts in the mode of the level.
def Passes (t : TypeTable) (level : NarrowingLevel) (parameter argument : TypeId) : Prop :=
  (if t.mentionsParameter parameter then t.isAssignableOpen parameter argument
  else match level.mode? with
    | none => t.isAssignable parameter argument
    | some mode => (Conversion.resolve t argument parameter mode).answer.isSuccess) = true

instance (t : TypeTable) (level : NarrowingLevel) (parameter argument : TypeId) :
    Decidable (Passes t level parameter argument) :=
  inferInstanceAs (Decidable (_ = true))

-- The method has a parameter for each argument, and each argument passes.
def Applicable (t : TypeTable) (level : NarrowingLevel) (receiver : Option TypeId)
    (arguments : List TypeId) (method : MethodId) : Prop :=
  (parameterTypes t method receiver).length = arguments.length ∧
    ∀ pair ∈ (parameterTypes t method receiver).zip arguments, Passes t level pair.1 pair.2

instance (t : TypeTable) (level : NarrowingLevel) (receiver : Option TypeId)
    (arguments : List TypeId) : DecidablePred (Applicable t level receiver arguments) :=
  fun _ => inferInstanceAs (Decidable (_ ∧ _))

-- The methods of the group that take the arguments.
def MethodGroup.takers (t : TypeTable) (group : MethodGroup) (arguments : List TypeId)
    (level : NarrowingLevel) : List MethodId :=
  group.methods.filter (Applicable t level group.receiverType? arguments)

-- The choice among methods that all take the arguments; where there is none it is put off.
def Overload.among (otherwise : Overload) : List MethodId → Overload
  | [] => otherwise
  | [only] => .found only
  | first :: second :: _ => .ambiguous first second

variable {scope : BindingScope} {level : NarrowingLevel} {receiver : Option TypeId}

theorem answer_accepts (parameter argument : TypeId) :
    (accepts scope level parameter argument).answer = true ↔
      Passes scope.types level parameter argument := by
  unfold accepts Passes
  split
  · exact Iff.rfl
  · cases level <;> exact Iff.rfl

theorem answer_acceptsEach (pairs : List (TypeId × TypeId)) :
    (acceptsEach scope level pairs).answer = true ↔
      ∀ pair ∈ pairs, Passes scope.types level pair.1 pair.2 := by
  induction pairs with
  | nil => exact ⟨fun _ => List.forall_mem_nil _, fun _ => rfl⟩
  | cons pair rest ih =>
      have hsteady : Steady scope.types (if (accepts scope level pair.1 pair.2).answer then
          acceptsEach scope level rest else pure false) := by
        split
        · exact steady_acceptsEach rest
        · exact .pure false
      rw [List.forall_mem_cons, ← ih, acceptsEach,
        (steady_accepts pair.1 pair.2).answer_bind hsteady]
      by_cases hpair : Passes scope.types level pair.1 pair.2
      · rw [if_pos ((answer_accepts _ _).mpr hpair), and_iff_right hpair]
      · rw [if_neg fun h => hpair ((answer_accepts _ _).mp h)]
        exact ⟨fun h => (Bool.false_ne_true h).elim, fun h => (hpair h.1).elim⟩

theorem answer_acceptsAll (method : MethodId) (arguments : List TypeId) :
    (acceptsAll scope level (parameterTypes scope.types method receiver) arguments).answer = true ↔
      Applicable scope.types level receiver arguments method := by
  unfold acceptsAll Applicable
  split
  · rename_i hlen
    rw [answer_acceptsEach, and_iff_right hlen]
  · rename_i hlen
    exact ⟨fun h => (Bool.false_ne_true h).elim, fun h => (hlen h.1).elim⟩

theorem answer_applicable (arguments : List TypeId) (methods : List MethodId) :
    (applicable scope level receiver arguments methods).answer =
      methods.filter (Applicable scope.types level receiver arguments) := by
  induction methods with
  | nil => rfl
  | cons method methods ih =>
      have htail (fits : Bool) : Steady scope.types do
          let others ← applicable scope level receiver arguments methods
          return if fits then method :: others else others :=
        (steady_applicable arguments methods).bind (.pure _)
      rw [applicable, (steady_acceptsAll _ arguments).answer_bind (htail _), answer_bind_pure, ih]
      rw [List.filter_cons]
      exact if_congr ((answer_acceptsAll method arguments).trans decide_eq_true_iff.symm) rfl rfl

theorem answer_chooseAt_cons (group : MethodGroup) (arguments : List TypeId)
    (levels : List NarrowingLevel) :
    (chooseAt scope group arguments (level :: levels)).answer =
      Overload.among (chooseAt scope group arguments levels).answer
        (group.takers scope.types arguments level) := by
  have happlicable : (applicable scope level group.receiverType? arguments group.methods).answer =
      group.takers scope.types arguments level := answer_applicable arguments group.methods
  rw [chooseAt, (steady_applicable arguments group.methods).answer_bind]
  · rw [happlicable]
    cases group.takers scope.types arguments level with
    | nil => rfl
    | cons first others =>
        cases others with
        | nil => rfl
        | cons second others => exact better_eq first second
  · split
    · exact steady_chooseAt group arguments levels
    · exact .pure _
    · exact .pure _

-- Methods that take the arguments as they are come before those that convert them.
theorem selectOverload_eq (group : MethodGroup) (arguments : List TypeId) {s : Compilation}
    (hs : s.caches.members.Sound scope.types) :
    (selectOverload scope group arguments s).1 =
      (Overload.among (Overload.among .noMatch (group.takers scope.types arguments .one))
        (group.takers scope.types arguments .none)) := by
  have hanswer : (selectOverload scope group arguments s).1 =
      (chooseAt scope group arguments [.none, .one]).answer :=
    (steady_chooseAt group arguments [.none, .one] s.caches.members hs).1
  rw [hanswer, answer_chooseAt_cons, answer_chooseAt_cons]
  rfl

-- Without any conversion a type passes for itself.
theorem passes_none_self (t : TypeTable) (type : TypeId) : Passes t .none type type := by
  unfold Passes
  split
  · exact t.isAssignableOpen_self type
  · exact if_pos rfl

-- The parameters of the method are of the very types of the arguments.
def Exact (t : TypeTable) (receiver : Option TypeId) (arguments : List TypeId)
    (method : MethodId) : Prop :=
  parameterTypes t method receiver = arguments

instance (t : TypeTable) (receiver : Option TypeId) (arguments : List TypeId) :
    DecidablePred (Exact t receiver arguments) :=
  fun _ => inferInstanceAs (Decidable (_ = _))

theorem Exact.applicable {t : TypeTable} {arguments : List TypeId} {method : MethodId}
    (h : Exact t receiver arguments method) : Applicable t .none receiver arguments method := by
  subst h
  have hall : List.Forall₂ (Passes t .none) (parameterTypes t method receiver)
      (parameterTypes t method receiver) :=
    List.forall₂_same.mpr fun type _ => passes_none_self t type
  exact ⟨rfl, fun pair hpair => List.forall₂_zip hall hpair⟩

-- Of a single exact method and others that take the arguments without a conversion as well none is
-- preferred; without such others the exact method is chosen, whatever others could convert.
theorem selectOverload_exact {group : MethodGroup} {arguments : List TypeId} {method : MethodId}
    {s : Compilation} (hs : s.caches.members.Sound scope.types)
    (h : group.methods.filter (Exact scope.types group.receiverType? arguments) = [method]) :
    let chosen := (selectOverload scope group arguments s).1
    let takers := group.takers scope.types arguments .none
    (takers = [method] ∧ chosen = .found method) ∨
      ∃ first second others, takers = first :: second :: others ∧ method ∈ takers ∧
        chosen = .ambiguous first second := by
  intro chosen takers
  have hchosen : chosen = Overload.among _ takers := selectOverload_eq group arguments hs
  have hmem : method ∈ takers := by
    have hexact : method ∈
        group.methods.filter (Exact scope.types group.receiverType? arguments) := by
      rw [h]
      exact List.mem_singleton_self method
    obtain ⟨hgroup, hmethod⟩ := List.mem_filter.mp hexact
    have happlicable := (of_decide_eq_true hmethod).applicable
    exact List.mem_filter.mpr ⟨hgroup, decide_eq_true happlicable⟩
  generalize takers = takers at hchosen hmem
  cases takers with
  | nil => cases hmem
  | cons first others =>
      cases others with
      | nil =>
          obtain rfl := List.mem_singleton.mp hmem
          exact .inl ⟨rfl, hchosen⟩
      | cons second others => exact .inr ⟨first, second, others, rfl, hmem, hchosen⟩

-- The greater of two whole numbers is one of them, although numbers of the other kind would do.
theorem selectOverload_exact_standard :
    let scope : BindingScope := ⟨Standard.host, .empty, []⟩
    let group : MethodGroup := ⟨"Max", .static, [⟨1⟩, ⟨2⟩], ⟨0, 8⟩⟩
    let arguments : List TypeId := [.numeric .int32, .numeric .int32]
    let start : Compilation := ⟨.empty, .empty, []⟩
    start.caches.members.Sound scope.types ∧
      group.methods.filter (Exact scope.types group.receiverType? arguments) = [⟨1⟩] ∧
      group.takers scope.types arguments .one = [⟨1⟩, ⟨2⟩] ∧
      (selectOverload scope group arguments start).1 = .found ⟨1⟩ := by
  intro scope group arguments start
  have hsound : start.caches.members.Sound scope.types := sound_empty scope.types
  have hexact : group.methods.filter (Exact scope.types group.receiverType? arguments) =
      [⟨1⟩] := by decide +kernel
  refine ⟨hsound, hexact, by decide +kernel, ?_⟩
  rcases selectOverload_exact hsound hexact with ⟨-, hfound⟩ | ⟨first, second, others, htakers, -⟩
  · exact hfound
  · have honly : group.takers scope.types arguments .none = [⟨1⟩] := by decide +kernel
    rw [honly] at htakers
    cases htakers

-- A class with two methods of one name, for objects and for texts.
def showSteps : List BuildStep :=
  [.define "Demo" "Tools" .classType,
    .addMethod ⟨21⟩ { name := "Show", parameters := [.object], returns := .string, isStatic := true },
    .addMethod ⟨21⟩ { name := "Show", parameters := [.string], returns := .string, isStatic := true }]

def showTools : TypeTable :=
  showSteps.foldl (fun t s => (Building.outcome (s.run Building.nestingLimit) t).2) .initial

-- A text is an object as well, so the method for texts is not chosen for one.
theorem selectOverload_ambiguous_despite_exact :
    let scope : BindingScope := ⟨.ofTable showTools, .empty, []⟩
    let group : MethodGroup := ⟨"Show", .static, [⟨0⟩, ⟨1⟩], ⟨0, 10⟩⟩
    showTools.Reached ∧
      group.methods.filter (Exact scope.types group.receiverType? [.string]) = [⟨1⟩] ∧
      (selectOverload scope group [.string] ⟨.empty, .empty, []⟩).1 = .ambiguous ⟨0⟩ ⟨1⟩ := by
  have hreached : showTools.Reached := TypeTable.Reached.initial.foldl (by decide +kernel)
  exact ⟨hreached, by decide +kernel, by decide +kernel⟩

end Binding

end EventScript
