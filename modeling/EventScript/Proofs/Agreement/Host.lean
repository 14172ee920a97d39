import EventScript.Binding.Calls
import EventScript.Proofs.Conversion.Steadiness
import EventScript.Proofs.Host.SameTypes

namespace EventScript

def TypeTable.isPublicMethod (t : TypeTable) (id : MethodId) : Bool := (t.method id).isPublic

-- Two tables that have the same types and, as far as scripts can see, the same methods on them.
structure TypeTable.Agrees (t t' : TypeTable) : Prop extends t.SameTypes t' where
  method_eq : ∀ {id}, (t.method id).isPublic ∨ (t'.method id).isPublic → t'.method id = t.method id
  methods_eq : ∀ id, (t'.get id).methods.filter t'.isPublicMethod =
    (t.get id).methods.filter t.isPublicMethod
  -- Where a lookup stops, methods that scripts cannot see count as well.
  lookup_eq : ∀ type name, (MemberCache.lookup t' type name).answer.filter t'.isPublicMethod =
    (MemberCache.lookup t type name).answer.filter t.isPublicMethod

theorem TypeTable.Agrees.refl (t : TypeTable) : t.Agrees t where
  toSameTypes := .refl t
  method_eq _ := rfl
  methods_eq _ := rfl
  lookup_eq _ _ := rfl

-- Two hosts between which no script can tell a difference.
structure Runtime.Agrees (r r' : Runtime) : Prop where
  types : r.types.Agrees r'.types
  tree_eq : r'.tree = r.tree
  extensions_eq : r'.extensions = r.extensions
  visible_eq : r'.visible = r.visible
  aliasGroups_eq : r'.aliasGroups = r.aliasGroups
  loaded_eq : r'.loaded = r.loaded

theorem Runtime.Agrees.refl (r : Runtime) : r.Agrees r := ⟨.refl _, rfl, rfl, rfl, rfl, rfl⟩

namespace TypeTable

variable {t t' : TypeTable} {ids ids' : List MethodId}

-- Two lists of methods of which scripts see the same ones.
def SamePublic (t t' : TypeTable) (ids ids' : List MethodId) : Prop :=
  ids'.filter t'.isPublicMethod = ids.filter t.isPublicMethod

-- Two lists of the same methods, all of which scripts see.
def Shared (t : TypeTable) (ids ids' : List MethodId) : Prop :=
  ids' = ids ∧ ∀ id ∈ ids, (t.method id).isPublic

namespace Agrees

-- What asks for public methods only gets the same answer for both.
theorem shared_filter (h : t.Agrees t') (hids : SamePublic t t' ids ids') {p : MethodDef → Bool}
    (hp : ∀ m, p m → m.isPublic) :
    Shared t (ids.filter fun id => p (t.method id)) (ids'.filter fun id => p (t'.method id)) := by
  have hpublic (t : TypeTable) (ids : List MethodId) :
      (ids.filter fun id => p (t.method id)) =
        (ids.filter t.isPublicMethod).filter fun id => p (t.method id) := by
    rw [List.filter_filter]
    refine List.filter_congr fun id _ => ?_
    have hid := hp (t.method id)
    cases hm : p (t.method id) with
    | false => rfl
    | true => exact (Bool.and_eq_true_iff.mpr ⟨rfl, hid hm⟩).symm
  refine ⟨?_, fun id hm => hp _ (List.mem_filter.mp hm).2⟩
  rw [hpublic t', hpublic t, show _ = _ from hids]
  refine List.filter_congr fun id hm => ?_
  rw [h.method_eq (.inl (List.mem_filter.mp hm).2)]

theorem method_eq_of_shared (h : t.Agrees t') (hids : Shared t ids ids') :
    ∀ id ∈ ids, t'.method id = t.method id :=
  fun id hm => h.method_eq (.inl (hids.2 id hm))

theorem signature_eq (h : t.Agrees t') {id : MethodId} (hid : t'.method id = t.method id) :
    t'.signature id = t.signature id := by
  simp only [signature, hid, h.displayName_eq, funext h.displayName_eq]

end Agrees

end TypeTable

namespace MemberSearch

variable {t t' : TypeTable} {α β γ δ : Type} {P : α → β → Prop} {Q : γ → δ → Prop}

-- Two searches in two tables come to related results, whatever has been indexed before them.
def Concur (t t' : TypeTable) (m : MemberSearch α) (m' : MemberSearch β) (P : α → β → Prop) :
    Prop :=
  ∀ cache cache', cache.Sound t → cache'.Sound t' →
    P (m cache).1 (m' cache').1 ∧ (m cache).2.Sound t ∧ (m' cache').2.Sound t'

namespace Concur

theorem pure {a : α} {b : β} (h : P a b) :
    Concur t t' (pure a : MemberSearch α) (pure b : MemberSearch β) P :=
  fun _ _ hc hc' => ⟨h, hc, hc'⟩

theorem bind {m : MemberSearch α} {m' : MemberSearch β} {f : α → MemberSearch γ}
    {f' : β → MemberSearch δ} (hm : Concur t t' m m' P)
    (hf : ∀ a b, P a b → Concur t t' (f a) (f' b) Q) : Concur t t' (m >>= f) (m' >>= f') Q := by
  intro cache cache' hc hc'
  obtain ⟨hp, hs, hs'⟩ := hm cache cache' hc hc'
  exact hf _ _ hp _ _ hs hs'

theorem of_steady {m : MemberSearch α} {m' : MemberSearch β} (hm : Steady t m)
    (hm' : Steady t' m') (h : P m.answer m'.answer) : Concur t t' m m' P := by
  intro cache cache' hc hc'
  obtain ⟨ha, hs⟩ := hm cache hc
  obtain ⟨ha', hs'⟩ := hm' cache' hc'
  rw [ha, ha']
  exact ⟨h, hs, hs'⟩

-- Searches for the same thing, one after the other.
theorem bindSame {m m' : MemberSearch α} {f : α → MemberSearch γ} {f' : α → MemberSearch δ}
    (hm : Concur t t' m m' Eq) (hf : ∀ a, Concur t t' (f a) (f' a) Q) :
    Concur t t' (m >>= f) (m' >>= f') Q :=
  hm.bind fun a _ he => he ▸ hf a

end Concur

theorem concur_lookup (h : t.Agrees t') (type : TypeId) (name : String) :
    Concur t t' (MemberCache.lookup t type name) (MemberCache.lookup t' type name)
      (t.SamePublic t') :=
  .of_steady (steady_lookup type name) (steady_lookup type name) (h.lookup_eq type name)

end MemberSearch

open MemberSearch

-- Conversions

namespace Conversion

variable {t t' : TypeTable}

-- What makes a method a conversion, under whatever number it goes.
def isConversion (t : TypeTable) (source target : TypeId) (isImplicit : Bool) (m : MethodDef) :
    Bool :=
  m.isPublic && m.isStatic && !(isImplicit && m.explicitOnly) && m.returns = target &&
    match m.parameters with
    | [parameter] => t.isAssignable parameter source
    | _ => false

theorem converts_eq (t : TypeTable) (source target : TypeId) (isImplicit : Bool) :
    converts t source target isImplicit =
      fun id => isConversion t source target isImplicit (t.method id) := rfl

theorem isPublic_of_isConversion {source target : TypeId} {isImplicit : Bool} {m : MethodDef}
    (hm : isConversion t source target isImplicit m) : m.isPublic := by
  simp only [isConversion, Bool.and_eq_true] at hm
  exact hm.1.1.1.1

theorem isConversion_eq (h : t.SameTypes t') (source target : TypeId) (isImplicit : Bool) :
    isConversion t' source target isImplicit = isConversion t source target isImplicit := by
  funext m
  simp only [isConversion, h.isAssignable_eq]

theorem concur_firstMethod? (h : t.Agrees t') (source target : TypeId)
    (queries : List MethodQuery) :
    Concur t t' (firstMethod? t source target queries) (firstMethod? t' source target queries)
      Eq := by
  induction queries with
  | nil => exact .pure rfl
  | cons query queries ih =>
      refine (concur_lookup h query.owner query.name).bind fun ids ids' hids => ?_
      have hfind : ids'.find? (converts t' source target query.isImplicit) =
          ids.find? (converts t source target query.isImplicit) := by
        rw [← List.head?_filter, ← List.head?_filter, converts_eq, converts_eq,
          isConversion_eq h.toSameTypes]
        exact congrArg List.head? (h.shared_filter hids fun m => isPublic_of_isConversion).1
      rw [hfind]
      cases ids.find? (converts t source target query.isImplicit) with
      | some method => exact .pure rfl
      | none => exact ih

theorem concur_userDefined? (h : t.Agrees t') (source target : TypeId) (mode : ConversionMode) :
    Concur t t' (userDefined? t source target mode) (userDefined? t' source target mode) Eq := by
  have hqueries (source : TypeId) :
      methodQueries t' source target mode = methodQueries t source target mode := by
    simp only [methodQueries, h.name_eq]
  unfold userDefined?
  rw [h.extensibleUnderlying?_eq]
  cases t.extensibleUnderlying? source with
  | some underlying =>
      dsimp only
      rw [hqueries]
      exact (concur_firstMethod? h _ _ _).bindSame fun plan => .pure rfl
  | none =>
      dsimp only
      rw [hqueries]
      exact concur_firstMethod? h _ _ _

theorem widening?_eq (h : t.SameTypes t') (source target : TypeId) :
    widening? t' source target = widening? t source target := by
  simp only [widening?, h.numericKind?_eq]

theorem structural?_eq (h : t.SameTypes t') (source target : TypeId) :
    structural? t' source target = structural? t source target := by
  simp only [structural?, unwrapping?, h.isValueType_eq, h.isAssignable_eq,
    h.extensibleUnderlying?_eq, widening?_eq h]

theorem lastResort_eq (h : t.SameTypes t') (source target : TypeId) (mode : ConversionMode) :
    lastResort t' source target mode = lastResort t source target mode := by
  simp only [lastResort, forced?, h.isReferenceType_eq, h.numericKind?_eq, h.isAssignable_eq,
    h.isValueType_eq]

-- The induction is that of the choice itself: on the number of the target.
theorem concur_selectPlan (h : t.Agrees t') (source target : TypeId) (mode : ConversionMode) :
    Concur t t' (selectPlan t source target mode) (selectPlan t' source target mode) Eq := by
  induction hn : target.index using Nat.strongRecOn generalizing target with
  | _ n ih =>
      rw [selectPlan_eq, selectPlan_eq, structural?_eq h.toSameTypes]
      split
      · exact .pure rfl
      refine (concur_userDefined? h source target mode).bindSame fun found => ?_
      split
      · exact .pure rfl
      rw [widening?_eq h.toSameTypes, h.nullableUnderlying?_eq]
      split
      · exact .pure rfl
      cases hu : t.nullableUnderlying? target with
      | none => exact .pure (lastResort_eq h.toSameTypes _ _ _).symm
      | some underlying =>
          have hlt := index_lt_of_nullableUnderlying? t hu
          simp only [nullablePlan, lastResort_eq h.toSameTypes]
          split_ifs
          · exact .pure rfl
          · exact .pure rfl
          · exact (ih underlying.index (hn ▸ hlt) underlying rfl).bindSame fun inner => .pure rfl
          · exact .pure rfl

theorem concur_resolve (h : t.Agrees t') (source target : TypeId) (mode : ConversionMode) :
    Concur t t' (resolve t source target mode) (resolve t' source target mode) Eq := by
  unfold resolve
  rw [h.isValueType_eq]
  exact (concur_selectPlan h source target mode).bindSame fun plan => .pure rfl

theorem concur_isPossible (h : t.Agrees t') (source target : TypeId) (level : NarrowingLevel) :
    Concur t t' (isPossible t source target level) (isPossible t' source target level) Eq := by
  unfold isPossible
  rw [h.isAssignable_eq]
  split
  · exact .pure rfl
  · exact (concur_selectPlan h _ _ _).bindSame fun plan => .pure rfl

end Conversion

theorem Descriptor.concur_conversion? {t t' : TypeTable} (h : t.Agrees t')
    {descriptor descriptor' : Descriptor} (hkey : descriptor.key = descriptor'.key)
    (source : TypeId) :
    Concur t t' (descriptor.conversion? t source) (descriptor'.conversion? t' source) Eq := by
  unfold Descriptor.conversion?
  rw [← hkey]
  split
  · exact (Conversion.concur_resolve h _ _ _).bindSame fun conversion => .pure rfl
  · exact (Conversion.concur_resolve h _ _ _).bindSame fun conversion => .pure rfl
  · exact .pure rfl

-- Names and extension methods

namespace NameScope

variable {r r' : Runtime}

theorem alias?_eq (h : r.Agrees r') (names : NameScope) (name : String) :
    names.alias? r' name = names.alias? r name := by
  simp only [alias?, Runtime.aliasEntity?, Runtime.aliasGroup?, h.aliasGroups_eq]

theorem resolve_eq (h : r.Agrees r') (names : NameScope) (name : String) (arity : Nat) :
    names.resolve r' name arity = names.resolve r name arity := by
  simp only [resolve, resolveSearched, searched, h.tree_eq, h.visible_eq]

theorem isTypeVisible_eq (h : r.Agrees r') (names : NameScope) (type : TypeId) :
    names.isTypeVisible r' type = names.isTypeVisible r type := by
  simp only [isTypeVisible, Runtime.isScriptVisible, h.tree_eq, h.visible_eq,
    h.types.openDefinition_eq, h.types.home_eq, h.types.name_eq]

theorem extensions_searched_eq (h : r.Agrees r') (type : TypeId) :
    r'.extensions.searched r'.types type = r.extensions.searched r.types type := by
  simp only [Extensions.searched, h.extensions_eq, h.types.selfAndBases_eq,
    h.types.allInterfaces_eq, funext h.types.openDefinition_eq]

theorem concur_providedMethods (h : r.Agrees r') (name : String) (providers : List TypeId) :
    Concur r.types r'.types (providedMethods r name providers)
      (providedMethods r' name providers) (r.types.SamePublic r'.types) := by
  induction providers with
  | nil => exact .pure rfl
  | cons provider rest ih =>
      let p (m : MethodDef) : Bool := m.isPublic && m.name = name
      have hnamed (t : TypeTable) (definition : TypeId) :
          ((MemberIndex.build t definition).named name).filter t.isPublicMethod =
            (t.get definition).methods.filter fun id => p (t.method id) := by
        rw [MemberIndex.named_build, TypeTable.methodsNamed, List.filter_filter]
        rfl
      have hmembers : Concur r.types r'.types (MemberCache.members r.types provider)
          (MemberCache.members r'.types provider) fun index index' =>
            r.types.SamePublic r'.types (index.named name) (index'.named name) := by
        refine .of_steady (steady_members provider) (steady_members provider) ?_
        rw [answer_members, answer_members, TypeTable.SamePublic, hnamed, hnamed, h.types.openDefinition_eq]
        refine (h.types.shared_filter (h.types.methods_eq _) fun m hm => ?_).1
        exact (Bool.and_eq_true_iff.mp hm).1
      refine hmembers.bind fun index index' hindex => ih.bind fun ids ids' hids => .pure ?_
      rw [TypeTable.SamePublic, List.filter_append, List.filter_append, hindex, hids]

-- What makes a method an extension of a receiver, under whatever number it goes.
def isExtensionOf (t : TypeTable) (receiver : TypeId) (m : MethodDef) : Bool :=
  m.isUsableExtension &&
    match m.parameters with
    | first :: _ => t.isAssignableOpen first receiver
    | [] => false

theorem extends?_eq (r : Runtime) (receiver : TypeId) :
    extends? r receiver = fun id => isExtensionOf r.types receiver (r.types.method id) := rfl

theorem isPublic_of_isExtensionOf {t : TypeTable} {receiver : TypeId} {m : MethodDef}
    (hm : isExtensionOf t receiver m) : m.isPublic := by
  simp only [isExtensionOf, MethodDef.isUsableExtension, Bool.and_eq_true] at hm
  exact hm.1.1.1

theorem isExtensionOf_eq {t t' : TypeTable} (h : t.SameTypes t') (receiver : TypeId) :
    isExtensionOf t' receiver = isExtensionOf t receiver := by
  funext m
  simp only [isExtensionOf, h.isAssignableOpen_eq]

theorem concur_extensionMethods (h : r.Agrees r') (names : NameScope) (receiver : TypeId)
    (name : String) :
    Concur r.types r'.types (names.extensionMethods r receiver name)
      (names.extensionMethods r' receiver name) r.types.Shared := by
  have hproviders : r'.extensions.providers r'.types (r'.types.openDefinition receiver) =
      r.extensions.providers r.types (r.types.openDefinition receiver) := by
    rw [Extensions.providers, Extensions.providers, h.types.openDefinition_eq,
      extensions_searched_eq h, h.extensions_eq]
  unfold extensionMethods
  rw [hproviders, funext (isTypeVisible_eq h names)]
  refine (concur_providedMethods h name _).bind fun ids ids' hids => .pure ?_
  rw [extends?_eq, extends?_eq, isExtensionOf_eq h.types.toSameTypes]
  exact h.types.shared_filter hids fun m => isPublic_of_isExtensionOf

end NameScope

end EventScript
