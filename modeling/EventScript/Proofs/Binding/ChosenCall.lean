import EventScript.Proofs.Binding.Calls
import EventScript.Proofs.Binding.Choice
import EventScript.Proofs.Conversion.Success

namespace EventScript

open MemberSearch

namespace Binding

open Conversion Compiling

variable {scope : BindingScope}

-- The same outcome, with the same method if there is one. Which two methods are named in an
-- ambiguity may differ.
inductive Overload.SameOutcome : Overload → Overload → Prop
  | found (method : MethodId) : SameOutcome (.found method) (.found method)
  | ambiguous (first second first' second' : MethodId) :
      SameOutcome (.ambiguous first second) (.ambiguous first' second')
  | noMatch : SameOutcome .noMatch .noMatch

theorem Overload.SameOutcome.among {choice other : Overload} (h : choice.SameOutcome other)
    {methods methods' : List MethodId} (hp : methods.Perm methods') :
    (Overload.among choice methods).SameOutcome (Overload.among other methods') := by
  cases methods with
  | nil =>
      obtain rfl := hp.nil_eq
      exact h
  | cons first rest =>
      cases rest with
      | nil =>
          obtain rfl := hp.singleton_eq
          exact .found first
      | cons second rest =>
          cases methods' with
          | nil => cases hp.length_eq
          | cons first' rest' =>
              cases rest' with
              | nil => cases hp.length_eq
              | cons second' rest' => exact .ambiguous _ _ _ _

theorem Overload.among_eq_found_iff {otherwise : Overload} {methods : List MethodId}
    {method : MethodId} : Overload.among otherwise methods = .found method ↔
      methods = [method] ∨ (methods = [] ∧ otherwise = .found method) := by
  cases methods with
  | nil => simp [Overload.among]
  | cons first rest => cases rest <;> simp [Overload.among]

variable {group : MethodGroup} {arguments : List TypeId} {method : MethodId} {s : Compilation}

theorem selectOverload_perm {methods : List MethodId} (hp : group.methods.Perm methods)
    (hs : s.caches.members.Sound scope.types) {s' : Compilation}
    (hs' : s'.caches.members.Sound scope.types) :
    (selectOverload scope group arguments s).1.SameOutcome
      (selectOverload scope { group with methods } arguments s').1 := by
  have hnone : Overload.noMatch.SameOutcome .noMatch := .noMatch
  rw [selectOverload_eq group arguments hs, selectOverload_eq _ arguments hs']
  exact (hnone.among (hp.filter _)).among (hp.filter _)

-- A method is chosen if it alone takes the arguments, at the first level at which any method does.
theorem selectOverload_eq_found_iff (hs : s.caches.members.Sound scope.types) :
    (selectOverload scope group arguments s).1 = .found method ↔
      group.takers scope.types arguments .none = [method] ∨
        (group.takers scope.types arguments .none = [] ∧
          group.takers scope.types arguments .one = [method]) := by
  rw [selectOverload_eq group arguments hs, Overload.among_eq_found_iff,
    Overload.among_eq_found_iff]
  simp

theorem exists_applicable_of_found (hs : s.caches.members.Sound scope.types)
    (h : (selectOverload scope group arguments s).1 = .found method) :
    ∃ level ∈ [NarrowingLevel.none, .one],
      Applicable scope.types level group.receiverType? arguments method := by
  have happlicable {level : NarrowingLevel}
      (htakers : group.takers scope.types arguments level = [method]) :
      Applicable scope.types level group.receiverType? arguments method := by
    have hmem : method ∈ group.takers scope.types arguments level := by
      rw [htakers]
      exact List.mem_singleton_self method
    exact of_decide_eq_true (List.mem_filter.mp hmem).2
  rcases (selectOverload_eq_found_iff hs).mp h with hnone | ⟨-, hone⟩
  · exact ⟨.none, by decide, happlicable hnone⟩
  · exact ⟨.one, by decide, happlicable hone⟩

-- Building the call

-- The shared indices are right, and these are the messages so far.
def Silent (t : TypeTable) (ds : List Diagnostic) (s : Compilation) : Prop :=
  s.caches.members.Sound t ∧ s.diagnostics = ds

variable {ds : List Diagnostic}

-- What a call passes for an argument: the argument as it is, or a conversion of it that goes
-- through.
inductive Passed (t : TypeTable) (parameter : TypeId) (argument : BoundExpr) : BoundExpr → Prop
  | asIs : argument.isError = false → Fits t parameter argument →
      Passed t parameter argument argument
  | converted (descriptor : Descriptor) (checked : Bool) : t.mentionsParameter parameter = false →
      (resolve t argument.type parameter .implicitCast).answer.isSuccess = true →
      Passed t parameter argument (.node
        (.convert (resolve t argument.type parameter .implicitCast).answer descriptor checked)
        parameter argument.span [argument])

theorem Passed.isError_eq {t : TypeTable} {parameter : TypeId} {argument e : BoundExpr}
    (h : Passed t parameter argument e) : e.isError = false := by
  cases h with
  | asIs hargument _ => exact hargument
  | converted _ _ _ _ => rfl

theorem gives_silent_search {α : Type} {m : MemberSearch α} (h : Steady scope.types m) :
    Gives (Silent scope.types ds) (search m) (· = m.answer) := by
  intro s hs
  obtain ⟨hanswer, hsound⟩ := h s.caches.members hs.1
  exact ⟨⟨hsound, hs.2⟩, hanswer⟩

theorem gives_silent_descriptor (key : DispatchKey) :
    Gives (Silent scope.types ds) (descriptor key) (·.key = key) :=
  fun s hs => ⟨hs, DescriptorCache.key_request key s.caches.descriptors⟩

theorem gives_silent_isChecked : Gives (Silent scope.types ds) isChecked fun _ => True :=
  fun _ hs => ⟨hs, trivial⟩

-- What is made of an expression that can be converted: nothing else, or a conversion of it.
inductive BroughtTo (t : TypeTable) (target : TypeId) (e : BoundExpr) : BoundExpr → Prop
  | asIs : target = e.type → BroughtTo t target e e
  | converted (descriptor : Descriptor) (checked : Bool) :
      (resolve t e.type target .implicitCast).answer.isSuccess = true →
      BroughtTo t target e (.node
        (.convert (resolve t e.type target .implicitCast).answer descriptor checked) target e.span
        [e])

theorem BroughtTo.passed {t : TypeTable} {parameter : TypeId} {argument e : BoundExpr}
    (h : BroughtTo t parameter argument e) (he : argument.isError = false)
    (hclosed : t.mentionsParameter parameter = false) : Passed t parameter argument e := by
  cases h with
  | asIs hsame =>
      refine .asIs he ?_
      rw [Fits, hclosed]
      exact hsame.symm
  | converted descriptor checked hsuccess => exact .converted descriptor checked hclosed hsuccess

-- An expression that can be converted is converted without a word.
theorem gives_silent_convert {e : BoundExpr} {target : TypeId} (he : e.isError = false)
    (hc : Convertible scope.types e.type target) :
    Gives (Silent scope.types ds) (convert scope e target .implicitCast)
      (BroughtTo scope.types target e) := by
  have hsuccess : (resolve scope.types e.type target .implicitCast).answer.isSuccess = true :=
    (Bool.not_eq_true' _).mpr hc
  have hnoError : (resolve scope.types e.type target .implicitCast).answer.isError = false :=
    Bool.and_eq_false_iff.mpr (.inl hc)
  unfold convert convertBy
  rw [he]
  refine (gives_silent_descriptor _).bind fun descriptor hk => ?_
  refine (gives_silent_search (descriptor.steady_conversion? e.type)).bind ?_
  rintro found rfl
  rw [Descriptor.answer_conversion?_convert hk]
  dsimp only
  unfold applyConversion
  split
  · rename_i hsame
    exact .pure (.asIs hsame.2)
  · rw [hnoError]
    refine gives_silent_isChecked.bind fun checked _ => .pure ?_
    exact .converted descriptor checked hsuccess

-- What passes for a closed parameter when a method is chosen can be converted to it.
theorem convertible_of_passes {t : TypeTable} {level : NarrowingLevel} (hl : level ∈ [.none, .one])
    {parameter argument : TypeId} (hclosed : t.mentionsParameter parameter = false)
    (h : Passes t level parameter argument) : Convertible t argument parameter := by
  rw [Passes, hclosed] at h
  rcases List.mem_pair.mp hl with rfl | rfl
  · exact convertible_of_isAssignable h
  · exact (Bool.not_eq_true' _).mp h

-- One argument: it is converted to a closed parameter and stays as it is for an open one.
theorem gives_silent_convertArgument {argument : BoundExpr} {parameter : TypeId}
    {level : NarrowingLevel} (hl : level ∈ [.none, .one]) (he : argument.isError = false)
    (h : Passes scope.types level parameter argument.type) :
    Gives (Silent scope.types ds)
      (if scope.types.mentionsParameter parameter then pure argument
        else convert scope argument parameter .implicitCast)
      (Passed scope.types parameter argument) := by
  split
  · rename_i hopen
    rw [Passes, if_pos hopen] at h
    refine .pure (.asIs he ?_)
    rwa [Fits, if_pos hopen]
  · rename_i hopen
    have hclosed : scope.types.mentionsParameter parameter = false := Bool.eq_false_iff.mpr hopen
    refine (gives_silent_convert he (convertible_of_passes hl hclosed h)).imp fun e hbrought => ?_
    exact hbrought.passed he hclosed

theorem gives_silent_convertArguments {level : NarrowingLevel} (hl : level ∈ [.none, .one])
    {parameters : List TypeId} {arguments : List BoundExpr}
    (he : ∀ a ∈ arguments, a.isError = false)
    (h : ∀ pair ∈ parameters.zip (arguments.map (·.type)),
      Passes scope.types level pair.1 pair.2) :
    Gives (Silent scope.types ds) (convertArguments scope parameters arguments) fun converted =>
      List.Forall₂ (fun pair e => Passed scope.types pair.1 pair.2 e) (parameters.zip arguments)
        converted := by
  induction parameters generalizing arguments with
  | nil => exact .pure .nil
  | cons parameter parameters ih =>
      cases arguments with
      | nil => exact .pure .nil
      | cons argument arguments =>
          obtain ⟨hargument, harguments⟩ := List.forall_mem_cons.mp he
          obtain ⟨hpass, hpasses⟩ := List.forall_mem_cons.mp h
          rw [convertArguments_cons]
          refine (gives_silent_convertArgument hl hargument hpass).bind fun first hfirst => ?_
          refine (ih harguments hpasses).bind fun rest hrest => ?_
          exact .pure (.cons hfirst hrest)

variable {given : List BoundExpr}

-- A call without a failure, in which every argument has been passed for its parameter.
structure CallBuilt (t : TypeTable) (group : MethodGroup) (method : MethodId)
    (given : List BoundExpr) (call : BoundExpr) : Prop where
  isError_eq : call.isError = false
  operands : ∀ operand ∈ call.operands, operand.isError = false
  length_eq : (parameterTypes t method group.receiverType?).length = (group.arguments given).length
  passed : ∃ converted, converted <:+ call.operands ∧
    List.Forall₂ (fun pair e => Passed t pair.1 pair.2 e)
      ((parameterTypes t method group.receiverType?).zip (group.arguments given)) converted

-- What a group is called on has not failed.
def MethodGroup.Whole (group : MethodGroup) : Prop :=
  ∀ receiver ∈ group.target.receiver?, receiver.isError = false

theorem MethodGroup.Whole.forall_mem_arguments (h : group.Whole)
    (hg : ∀ a ∈ given, a.isError = false) : ∀ a ∈ group.arguments given, a.isError = false := by
  obtain ⟨name, target, methods, span⟩ := group
  cases target with
  | extension receiver => exact List.forall_mem_cons.mpr ⟨h receiver rfl, hg⟩
  | _ => exact hg

theorem gives_silent_buildCall (hgroup : group.Whole) (hg : ∀ a ∈ given, a.isError = false)
    {level : NarrowingLevel} (hl : level ∈ [.none, .one])
    (h : Applicable scope.types level group.receiverType? ((group.arguments given).map (·.type))
      method) (span : Span) :
    Gives (Silent scope.types ds) (buildCall scope group method given span)
      (CallBuilt scope.types group method given) := by
  obtain ⟨hlen, hpasses⟩ := h
  rw [List.length_map] at hlen
  unfold buildCall
  have hall := hgroup.forall_mem_arguments hg
  refine (gives_silent_convertArguments hl hall hpasses).bind fun converted hc => ?_
  have hwhole : ∀ e ∈ converted, e.isError = false := by
    have hboth := (hc.imp fun _ _ hpassed => And.intro hpassed.isError_eq hpassed).flip
    exact (List.forall₂_and_left _ _).mp hboth |>.1
  split
  · exact .pure ⟨rfl, hwhole, hlen, converted, List.suffix_rfl, hc⟩
  split
  · rename_i receiver ht
    have hreceiver : receiver.isError = false := hgroup receiver (by rw [ht]; rfl)
    exact .pure ⟨rfl, List.forall_mem_cons.mpr ⟨hreceiver, hwhole⟩, hlen, converted,
      List.suffix_cons receiver converted, hc⟩
  · exact .pure ⟨rfl, hwhole, hlen, converted, List.suffix_rfl, hc⟩

-- Neither the order of the methods nor what has been searched for before matters for the choice. A
-- chosen method alone takes the arguments at its level, where no method takes them at a stricter
-- one, and the call of it is built without a message and without a failed argument.
theorem selectOverload_buildCall (hgroup : group.Whole) (hgiven : ∀ a ∈ given, a.isError = false)
    (hs : s.caches.members.Sound scope.types) :
    let arguments := (group.arguments given).map (·.type)
    let chosen := (selectOverload scope group arguments s).1
    (∀ methods, group.methods.Perm methods →
      ∀ s' : Compilation, s'.caches.members.Sound scope.types →
        chosen.SameOutcome (selectOverload scope { group with methods } arguments s').1) ∧
    ∀ method, chosen = .found method →
      (group.takers scope.types arguments .none = [method] ∨
        (group.takers scope.types arguments .none = [] ∧
          group.takers scope.types arguments .one = [method])) ∧
      ∀ (span : Span) (s' : Compilation), s'.caches.members.Sound scope.types →
        (buildCall scope group method given span s').2.diagnostics = s'.diagnostics ∧
          CallBuilt scope.types group method given
            (buildCall scope group method given span s').1 := by
  intro arguments chosen
  refine ⟨fun methods hp s' hs' => selectOverload_perm hp hs hs', fun method hfound => ?_⟩
  refine ⟨(selectOverload_eq_found_iff hs).mp hfound, fun span s' hs' => ?_⟩
  obtain ⟨level, hl, happlicable⟩ := exists_applicable_of_found hs hfound
  obtain ⟨⟨-, hdiagnostics⟩, hbuilt⟩ :=
    gives_silent_buildCall hgroup hgiven hl happlicable span s' ⟨hs', rfl⟩
  exact ⟨hdiagnostics, hbuilt⟩

-- The greater of a whole number and a rate is a real number, so the whole number is widened.
theorem selectOverload_buildCall_standard :
    let scope : BindingScope := ⟨Standard.host, .empty, [("rate", .numeric .double)]⟩
    let group : MethodGroup := ⟨"Max", .static, [⟨1⟩, ⟨2⟩], ⟨0, 8⟩⟩
    let given : List BoundExpr :=
      [.node (.literal (.int 1 .none)) (.numeric .int32) ⟨9, 10⟩ [],
        .node (.parameter "rate") (.numeric .double) ⟨12, 16⟩ []]
    let start : Compilation := ⟨.empty, .empty, []⟩
    let types := (group.arguments given).map (·.type)
    group.Whole ∧ (∀ a ∈ given, a.isError = false) ∧
      start.caches.members.Sound scope.types ∧
      (selectOverload scope group types start).1 = .found ⟨2⟩ ∧
      Overload.SameOutcome (.found ⟨2⟩)
        (selectOverload scope { group with methods := [⟨2⟩, ⟨1⟩] } types start).1 ∧
      group.takers scope.types types .none = [] ∧
      group.takers scope.types types .one = [⟨2⟩] ∧
      (buildCall scope group ⟨2⟩ given ⟨0, 17⟩ start).2.diagnostics = [] ∧
      CallBuilt scope.types group ⟨2⟩ given (buildCall scope group ⟨2⟩ given ⟨0, 17⟩ start).1 := by
  intro scope group given start types
  have hgroup : group.Whole := fun receiver hreceiver => by cases hreceiver
  have hgiven : ∀ a ∈ given, a.isError = false := by decide
  have hsound : start.caches.members.Sound scope.types := sound_empty scope.types
  have hfound : (selectOverload scope group types start).1 = .found ⟨2⟩ := by decide +kernel
  have hnone : group.takers scope.types types .none = [] := by decide +kernel
  obtain ⟨hperm, hchosen⟩ := selectOverload_buildCall hgroup hgiven hsound
  have hsame := hperm [⟨2⟩, ⟨1⟩] (.swap _ _ _) start hsound
  rw [hfound] at hsame
  obtain ⟨htakers, hbuild⟩ := hchosen ⟨2⟩ hfound
  have hone : group.takers scope.types types .one = [⟨2⟩] := by
    refine (htakers.resolve_left fun h => ?_).2
    rw [hnone] at h
    cases h
  exact ⟨hgroup, hgiven, hsound, hfound, hsame, hnone, hone, hbuild ⟨0, 17⟩ start hsound⟩

end Binding

end EventScript
