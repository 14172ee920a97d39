import EventScript.Proofs.Agreement.Compiling
import EventScript.Proofs.Agreement.Naming
import EventScript.Proofs.Binding.Overloads

namespace EventScript.Binding

open Compiling MemberSearch TypeTable

variable {c : Comparison} {t t' : TypeTable} {scope : BindingScope} {r' : Runtime}

-- Members

theorem property?_eq (h : t.SameTypes t') (type : TypeId) (name : String) (isStatic : Bool) :
    property? t' type name isStatic = property? t type name isStatic := by
  simp only [property?, h.lineage_eq, h.openDefinition_eq, h.properties_eq, h.seenFrom_eq]

section

variable {method : MethodId} (h : t.SameTypes t') (hm : t'.method method = t.method method)
include h hm

theorem genericContext?_eq (receiver : Option TypeId) :
    genericContext? t' method receiver = genericContext? t method receiver := by
  simp only [genericContext?, genericOwner?, hm, funext h.openDefinition_eq, h.lineage_eq]

omit hm in
theorem seenIn_eq (context : Option TypeId) (type : TypeId) :
    seenIn t' context type = seenIn t context type := by
  cases context with
  | none => rfl
  | some «instance» => exact h.seenFrom_eq type «instance»

theorem parameterTypes_eq (receiver : Option TypeId) :
    parameterTypes t' method receiver = parameterTypes t method receiver := by
  simp only [parameterTypes, hm, genericContext?_eq h hm, funext (seenIn_eq h _)]

theorem returnType_eq (receiver : Option TypeId) :
    returnType t' method receiver = returnType t method receiver := by
  simp only [returnType, hm, genericContext?_eq h hm, seenIn_eq h]

end

-- The choice among overloads

section

variable {level : NarrowingLevel} {receiver : Option TypeId} (h : scope.runtime.Agrees r')
include h

theorem concur_accepts (parameter argument : TypeId) :
    Concur scope.types r'.types (accepts scope level parameter argument)
      (accepts (scope.on r') level parameter argument) Eq := by
  unfold accepts
  rw [scope.types_on, h.scopeTypes.mentionsParameter_eq, h.scopeTypes.isAssignableOpen_eq]
  split
  · exact .pure rfl
  · exact Conversion.concur_isPossible h.scopeTypes _ _ _

theorem concur_acceptsEach (pairs : List (TypeId × TypeId)) :
    Concur scope.types r'.types (acceptsEach scope level pairs)
      (acceptsEach (scope.on r') level pairs) Eq := by
  induction pairs with
  | nil => exact .pure rfl
  | cons pair rest ih =>
      refine (concur_accepts h pair.1 pair.2).bindSame fun fits => ?_
      split
      · exact ih
      · exact .pure rfl

theorem concur_acceptsAll (parameters arguments : List TypeId) :
    Concur scope.types r'.types (acceptsAll scope level parameters arguments)
      (acceptsAll (scope.on r') level parameters arguments) Eq := by
  unfold acceptsAll
  split
  · exact concur_acceptsEach h _
  · exact .pure rfl

theorem concur_applicable (arguments : List TypeId) {methods : List MethodId}
    (hm : ∀ id ∈ methods, r'.types.method id = scope.types.method id) :
    Concur scope.types r'.types (applicable scope level receiver arguments methods)
      (applicable (scope.on r') level receiver arguments methods)
      fun found found' => found' = found ∧ found ⊆ methods := by
  induction methods with
  | nil => exact .pure ⟨rfl, List.Subset.refl _⟩
  | cons method methods ih =>
      obtain ⟨hfirst, hrest⟩ := List.forall_mem_cons.mp hm
      rw [applicable, applicable, scope.types_on,
        parameterTypes_eq h.scopeTypes.toSameTypes hfirst]
      refine (concur_acceptsAll h _ arguments).bindSame fun fits => ?_
      refine (ih hrest).bind fun found found' hfound => .pure ?_
      obtain ⟨rfl, hsub⟩ := hfound
      refine ⟨rfl, ?_⟩
      split
      · exact List.cons_subset_cons method hsub
      · exact List.subset_cons_of_subset method hsub

end

-- The methods that a choice names.
def Overload.methods : Overload → List MethodId
  | found method => [method]
  | ambiguous first second => [first, second]
  | noMatch => []

-- Groups of methods

inductive GroupTarget.Alike (c : Comparison) : GroupTarget → GroupTarget → Prop
  | static : Alike c .static .static
  | instanceOf {e e' : BoundExpr} : e.Alike c e' → Alike c (.instanceOf e) (.instanceOf e')
  | extension {e e' : BoundExpr} : e.Alike c e' → Alike c (.extension e) (.extension e')

-- Groups of the same methods, which are the same in both tables.
structure MethodGroup.Alike (c : Comparison) (t t' : TypeTable) (group group' : MethodGroup) :
    Prop where
  name_eq : group'.name = group.name
  target : group.target.Alike c group'.target
  methods_eq : group'.methods = group.methods
  span_eq : group'.span = group.span
  known : ∀ id ∈ group.methods, t'.method id = t.method id

namespace MethodGroup.Alike

variable {group group' : MethodGroup}

theorem receiverType?_eq (hg : group.Alike c t t' group') :
    group'.receiverType? = group.receiverType? := by
  obtain ⟨name, target, methods, span⟩ := group
  obtain ⟨name', target', methods', span'⟩ := group'
  cases hg.target with
  | static => rfl
  | instanceOf he => exact congrArg some he.type_eq
  | extension he => exact congrArg some he.type_eq

theorem arguments (hg : group.Alike c t t' group') {given given' : List BoundExpr}
    (hs : List.Forall₂ (BoundExpr.Alike c) given given') :
    List.Forall₂ (BoundExpr.Alike c) (group.arguments given) (group'.arguments given') := by
  obtain ⟨name, target, methods, span⟩ := group
  obtain ⟨name', target', methods', span'⟩ := group'
  cases hg.target with
  | static => exact hs
  | instanceOf => exact hs
  | extension he => exact .cons he hs

end MethodGroup.Alike

section

variable (h : scope.runtime.Agrees r')
include h

theorem concur_chooseAt {group group' : MethodGroup}
    (hg : group.Alike c scope.types r'.types group') (arguments : List TypeId)
    (levels : List NarrowingLevel) :
    Concur scope.types r'.types (chooseAt scope group arguments levels)
      (chooseAt (scope.on r') group' arguments levels)
      fun overload overload' => overload' = overload ∧ overload.methods ⊆ group.methods := by
  induction levels with
  | nil => exact .pure ⟨rfl, List.nil_subset _⟩
  | cons level levels ih =>
      rw [chooseAt, chooseAt, hg.receiverType?_eq, hg.methods_eq]
      refine (concur_applicable h arguments hg.known).bind fun found found' hfound => ?_
      obtain ⟨rfl, hsub⟩ := hfound
      split
      · exact ih
      · exact .pure ⟨rfl, hsub⟩
      · rw [better_eq, better_eq]
        refine .pure ⟨rfl, fun id hm => hsub ?_⟩
        rcases List.mem_cons.mp hm with rfl | hm
        · exact List.mem_cons_self
        · rw [List.mem_singleton.mp hm]
          exact List.mem_cons_of_mem _ List.mem_cons_self

theorem matches_selectOverload {group group' : MethodGroup}
    (hg : group.Alike c scope.types r'.types group') (arguments : List TypeId) :
    Matches c scope.types r'.types (selectOverload scope group arguments)
      (selectOverload (scope.on r') group' arguments)
      fun overload overload' => overload' = overload ∧ overload.methods ⊆ group.methods :=
  .inScope (.search (concur_chooseAt h hg arguments _))

theorem matches_methodsNamed (type : TypeId) (name : String) (isStatic : Bool) :
    Matches c scope.types r'.types (methodsNamed scope type name isStatic)
      (methodsNamed (scope.on r') type name isStatic) scope.types.Shared := by
  refine (Matches.search (concur_lookup h.scopeTypes type name)).bind fun ids ids' hids => ?_
  let p (m : MethodDef) : Bool := m.isPublic && m.isStatic = isStatic
  exact .pure (h.scopeTypes.shared_filter hids fun m (hm : p m) => (Bool.and_eq_true_iff.mp hm).1)

theorem matches_extensionGroup {receiver receiver' : BoundExpr} (he : receiver.Alike c receiver')
    (name : String) (span : Span) :
    Matches c scope.types r'.types (extensionGroup scope receiver name span)
      (extensionGroup (scope.on r') receiver' name span)
      (Option.Rel (MethodGroup.Alike c scope.types r'.types)) := by
  unfold extensionGroup
  rw [scope.names_on, scope.runtime_on, he.type_eq]
  refine (Matches.search (NameScope.concur_extensionMethods h _ _ _)).bind fun ids ids' hids => ?_
  obtain rfl := hids.1
  split
  · exact .pure .none
  · exact .pure (.some ⟨rfl, .extension he, rfl, rfl, h.scopeTypes.method_eq_of_shared hids⟩)

-- Conversions

theorem matches_applyConversion {e e' : BoundExpr} (he : e.Alike c e') (conversion : Conversion)
    {d d' : Descriptor} (hd : c.view d = c.view d') :
    Matches c scope.types r'.types (applyConversion scope e conversion d)
      (applyConversion (scope.on r') e' conversion d') (BoundExpr.Alike c) := by
  unfold applyConversion
  rw [he.type_eq, he.span_eq]
  split
  · exact .pure he
  · split
    · exact h.giveUp rfl (.failed c e.span)
    · refine Matches.isChecked.bindSame fun checked => .pure ?_
      have hop : (BoundOp.convert conversion d checked).mapDescriptor c.view =
          (BoundOp.convert conversion d' checked).mapDescriptor c.view := by
        rw [BoundOp.mapDescriptor, BoundOp.mapDescriptor, hd]
      exact .node hop _ _ (.cons he .nil)

theorem matches_convertBy {e e' : BoundExpr} (he : e.Alike c e') {d d' : Descriptor}
    (hd : c.view d = c.view d') :
    Matches c scope.types r'.types (convertBy scope e d) (convertBy (scope.on r') e' d')
      (BoundExpr.Alike c) := by
  unfold convertBy
  rw [he.type_eq, scope.types_on]
  have hconversion := Descriptor.concur_conversion? h.scopeTypes (Comparison.key_eq_of_view hd)
    e.type
  refine (Matches.search hconversion).bindSame fun found => ?_
  cases found with
  | some conversion => exact matches_applyConversion h he conversion hd
  | none => exact .pure he

theorem matches_convert {e e' : BoundExpr} (he : e.Alike c e') (target : TypeId)
    (mode : ConversionMode) :
    Matches c scope.types r'.types (convert scope e target mode)
      (convert (scope.on r') e' target mode) (BoundExpr.Alike c) := by
  unfold convert
  rw [he.isError_eq]
  split
  · exact .pure he
  · exact (Matches.descriptor _).bind fun d d' hd => matches_convertBy h he hd

theorem matches_convertsImplicitly (source target : TypeId) :
    Matches c scope.types r'.types (convertsImplicitly scope source target)
      (convertsImplicitly (scope.on r') source target) Eq :=
  .search (Conversion.concur_isPossible h.scopeTypes _ _ _)

-- Calls

theorem matches_convertArguments (parameters : List TypeId) {arguments arguments' : List BoundExpr}
    (hs : List.Forall₂ (BoundExpr.Alike c) arguments arguments') :
    Matches c scope.types r'.types (convertArguments scope parameters arguments)
      (convertArguments (scope.on r') parameters arguments')
      (List.Forall₂ (BoundExpr.Alike c)) := by
  induction hs generalizing parameters with
  | nil => cases parameters <;> exact .pure .nil
  | @cons argument argument' rest rest' he _ ih =>
      cases parameters with
      | nil => exact .pure .nil
      | cons parameter parameters =>
          have hcons {first first' : BoundExpr} (hf : first.Alike c first') :
              Matches c scope.types r'.types
                (do return first :: (← convertArguments scope parameters rest))
                (do return first' :: (← convertArguments (scope.on r') parameters rest'))
                (List.Forall₂ (BoundExpr.Alike c)) :=
            (ih parameters).bind fun _ _ ho => .pure (.cons hf ho)
          rw [convertArguments, convertArguments, scope.types_on,
            h.scopeTypes.mentionsParameter_eq]
          split
          · exact hcons he
          · exact (matches_convert h he _ _).bind fun _ _ hf => hcons hf

section Group

variable {group group' : MethodGroup} (hg : group.Alike c scope.types r'.types group')
  {given given' : List BoundExpr} (hs : List.Forall₂ (BoundExpr.Alike c) given given') (span : Span)
include hg hs

theorem matches_buildCall {method : MethodId} (hm : method ∈ group.methods) :
    Matches c scope.types r'.types (buildCall scope group method given span)
      (buildCall (scope.on r') group' method given' span) (BoundExpr.Alike c) := by
  have hsame := h.scopeTypes.toSameTypes
  have hmethod := hg.known method hm
  unfold buildCall
  dsimp only
  rw [scope.types_on, hg.receiverType?_eq, parameterTypes_eq hsame hmethod,
    returnType_eq hsame hmethod, hmethod]
  refine (matches_convertArguments h _ (hg.arguments hs)).bind fun converted converted' hc => ?_
  split
  · exact .pure (.node rfl _ _ hc)
  · obtain ⟨name, target, methods, groupSpan⟩ := group
    obtain ⟨name', target', methods', groupSpan'⟩ := group'
    cases hg.target with
    | static => exact .pure (.node rfl _ _ hc)
    | instanceOf he => exact .pure (.node rfl _ _ (.cons he hc))
    | extension he => exact .pure (.node rfl _ _ hc)

theorem matches_callGroupOr {otherwise otherwise' : Compiling BoundExpr}
    (ho : Matches c scope.types r'.types otherwise otherwise' (BoundExpr.Alike c)) :
    Matches c scope.types r'.types (callGroupOr scope group given span otherwise)
      (callGroupOr (scope.on r') group' given' span otherwise') (BoundExpr.Alike c) := by
  unfold callGroupOr
  rw [BoundExpr.Alike.types_eq (hg.arguments hs)]
  refine (matches_selectOverload h hg _).bind fun overload overload' hoverload => ?_
  obtain ⟨hsame, hsub⟩ := hoverload
  subst hsame
  cases overload' with
  | found method => exact matches_buildCall h hg hs span (hsub List.mem_cons_self)
  | ambiguous first second =>
      rw [hg.span_eq]
      have hmessage : (BindingFault.ambiguousCall first second).message r' =
          (BindingFault.ambiguousCall first second).message scope.runtime :=
        BindingFault.message_eq h fun id hm => hg.known id (hsub hm)
      exact .giveUp hmessage (.failed c span)
  | noMatch => exact ho

theorem matches_refuseCall :
    Matches c scope.types r'.types (refuseCall scope group given span)
      (refuseCall (scope.on r') group' given' span) (BoundExpr.Alike c) := by
  unfold refuseCall
  rw [hg.name_eq, hg.span_eq, ← hs.length_eq]
  exact h.giveUp rfl (.failed c span)

theorem matches_callGroup :
    Matches c scope.types r'.types (callGroup scope group given span)
      (callGroup (scope.on r') group' given' span) (BoundExpr.Alike c) := by
  have hrefused := matches_refuseCall h hg hs span
  unfold callGroup
  refine matches_callGroupOr h hg hs span ?_
  have hname := hg.name_eq
  have hspan := hg.span_eq
  have htarget := hg.target
  obtain ⟨name, target, methods, groupSpan⟩ := group
  obtain ⟨name', target', methods', groupSpan'⟩ := group'
  obtain rfl := hname
  obtain rfl := hspan
  cases htarget with
  | static => exact hrefused
  | extension he => exact hrefused
  | instanceOf he =>
      refine (matches_extensionGroup h he _ _).bind fun found found' hf => ?_
      cases hf with
      | none => exact hrefused
      | some hextensions =>
          exact matches_callGroupOr h hextensions hs span
            (matches_refuseCall h hextensions hs span)

end Group

end

end EventScript.Binding
