import EventScript.Proofs.Compile
import EventScript.Proofs.Host.BaseChain
import EventScript.Proofs.Host.Standard

namespace EventScript

-- The types under which the extension methods of a type are searched

namespace Extensions

variable {extensions : Extensions} {t : TypeTable} {type provider : TypeId}

theorem mem_providersOf {extended : TypeId} :
    provider ∈ extensions.providersOf extended ↔ ⟨extended, provider⟩ ∈ extensions.pairs := by
  simp only [providersOf, List.mem_map, List.mem_filter, decide_eq_true_eq]
  constructor
  · rintro ⟨⟨_, _⟩, ⟨hm, rfl⟩, rfl⟩
    exact hm
  · exact fun hm => ⟨_, ⟨hm, rfl⟩, rfl⟩

theorem mem_providers :
    provider ∈ extensions.providers t type ↔
      ∃ extended ∈ extensions.searched t type, ⟨extended, provider⟩ ∈ extensions.pairs := by
  rw [providers, mem_foldl_insertNew]
  simp [mem_providersOf]

theorem openDefinition_mem_searched {id : TypeId} (h : id ∈ t.selfAndBases type) :
    t.openDefinition id ∈ extensions.searched t type :=
  List.mem_flatMap.mpr ⟨id, h, List.mem_map_of_mem List.mem_cons_self⟩

-- The interfaces of a type are those that its own search finds.
theorem openDefinition_mem_searched_of_onInterfaces (hi : extensions.onInterfaces) {id : TypeId}
    (h : id ∈ t.lineage type) : t.openDefinition id ∈ extensions.searched t type := by
  rcases List.mem_append.mp h with h | h
  · exact openDefinition_mem_searched h
  · refine List.mem_flatMap.mpr ⟨type, List.mem_cons_self, List.mem_map_of_mem ?_⟩
    rw [if_pos hi]
    exact List.mem_cons_of_mem _ h

end Extensions

namespace TypeTable

variable {t : TypeTable} {target source : TypeId}

-- Whether a type has another, in whatever form, as itself, a base type or an interface.
def Inherits (t : TypeTable) (id other : TypeId) : Prop :=
  ∃ ancestor ∈ t.lineage id, t.openDefinition ancestor = t.openDefinition other

instance (t : TypeTable) (id other : TypeId) : Decidable (t.Inherits id other) :=
  inferInstanceAs (Decidable (∃ ancestor ∈ t.lineage id, _))

-- What accepts a type without being one of its ancestors is a parameter or takes all objects.
theorem inherits_of_isAssignableOpen (h : t.isAssignableOpen target source)
    (hp : t.isGenericParameter target = false) (hk : t.kind target ≠ .object) :
    t.Inherits source target := by
  unfold isAssignableOpen at h
  rw [hp] at h
  simp only [Bool.false_eq_true, if_false] at h
  split at h
  · obtain ⟨ancestor, hm, he⟩ := List.any_eq_true.mp h
    exact ⟨ancestor, hm, of_decide_eq_true he⟩
  · have hmem : target ∈ t.lineage source := by
      unfold isAssignable at h
      split at h
      · rename_i he
        exact he ▸ List.mem_cons_self
      · split at h
        · cases h
        · cases h
        · cases h
        · rename_i ho _ _
          exact absurd ho hk
        · rcases Bool.or_eq_true_iff.mp h with h | h
          · have hbase : target ∈ t.baseChain source := List.contains_iff_mem.mp h
            exact List.mem_append_left _ (List.mem_cons_of_mem _ hbase)
          · have hface := List.contains_iff_mem.mp (Bool.and_eq_true_iff.mp h).2
            exact List.mem_append_right _ hface
    exact ⟨target, hmem, rfl⟩

end TypeTable

-- What has been registered

-- The registry of a host: with one method of a provider all its methods are registered, and pairs
-- with interfaces are taken note of.
structure Runtime.RegistersAll (r : Runtime) : Prop where
  pairs : ∀ pair ∈ r.extensions.pairs, ∀ id ∈ (r.types.get pair.provider).methods,
    ∀ own, r.types.extensionPair? pair.provider id = some own → own ∈ r.extensions.pairs
  onInterfaces : ∀ pair ∈ r.extensions.pairs, r.types.isInterface pair.extended →
    r.extensions.onInterfaces

namespace Runtime.RegistersAll

variable {r : Runtime}

theorem including (h : r.RegistersAll) (m : HostModule) : (r.including m).RegistersAll where
  pairs pair hm id hid own hown := by
    rcases Extensions.mem_foldl_insertNew.mp hm with hm | hm
    · exact Extensions.mem_foldl_insertNew.mpr (.inl (h.pairs pair hm id hid own hown))
    · refine Extensions.mem_foldl_insertNew.mpr (.inr ?_)
      have hprovider := (TypeTable.mem_extensionPairs.mp hm).1
      exact List.mem_flatMap.mpr ⟨_, hprovider, List.mem_filterMap.mpr ⟨id, hid, hown⟩⟩
  onInterfaces pair hm hi := by
    refine Bool.or_eq_true_iff.mpr ?_
    rcases Extensions.mem_foldl_insertNew.mp hm with hm | hm
    · exact .inl (h.onInterfaces pair hm hi)
    · exact .inr (List.any_eq_true.mpr ⟨pair, hm, hi⟩)

theorem of_reachable (h : r.Reachable) : r.RegistersAll := by
  induction h with
  | ofTable => exact ⟨nofun, nofun⟩
  | @loadModule r r' m load _ hl ih =>
      unfold Runtime.loadModule at hl
      obtain ⟨-, he⟩ | ⟨-, -, he⟩ | ⟨-, -, e, he⟩ := load_cases r m <;> rw [he] at hl <;> cases hl
      · exact ih
      · exact ih.including m

end Runtime.RegistersAll

-- The search

namespace NameScope

open MemberSearch

variable {r : Runtime} {scope : NameScope} {receiver first provider : TypeId} {name : String}
  {id : MethodId}

theorem answer_providedMethods (name : String) (providers : List TypeId) :
    (providedMethods r name providers).answer = providers.flatMap fun provider =>
      (r.types.get (r.types.openDefinition provider)).methods.filter
        fun id => (r.types.method id).name = name := by
  induction providers with
  | nil => rfl
  | cons provider rest ih =>
      let index := MemberIndex.build r.types (r.types.openDefinition provider)
      have hrest : Steady r.types
          (providedMethods r name rest >>= fun methods => pure (index.named name ++ methods)) :=
        (steady_providedMethods name rest).bind (.pure _)
      rw [providedMethods, (steady_members provider).answer_bind hrest, answer_bind_pure, ih,
        answer_members, MemberIndex.named_build, TypeTable.methodsNamed, List.flatMap_cons]

-- A method of that name that scripts can call on the receiver as an extension.
def Extends (r : Runtime) (receiver : TypeId) (name : String) (id : MethodId) : Prop :=
  (r.types.method id).name = name ∧ extends? r receiver id

-- The type of the first parameter of a method that can be called on a receiver accepts it.
theorem Extends.receiver_accepted (h : Extends r receiver name id) :
    ∃ first, (r.types.method id).parameters.head? = some first ∧
      (r.types.method id).isUsableExtension ∧ r.types.isAssignableOpen first receiver := by
  obtain ⟨hu, ha⟩ := Bool.and_eq_true_iff.mp h.2
  cases hp : (r.types.method id).parameters with
  | nil => simp [hp] at ha
  | cons first rest =>
      rw [hp] at ha
      exact ⟨first, rfl, hu, ha⟩

-- Whether a provider is one of those that a search looks through: the script sees it, and it is
-- registered for a type on the way from the definition of the receiver to its ancestors.
def Searches (scope : NameScope) (r : Runtime) (receiver provider : TypeId) : Prop :=
  scope.isTypeVisible r provider ∧
    ∃ extended ∈ r.extensions.searched r.types (r.types.openDefinition receiver),
      ⟨extended, provider⟩ ∈ r.extensions.pairs

theorem mem_answer_extensionMethods :
    id ∈ (scope.extensionMethods r receiver name).answer ↔
      Extends r receiver name id ∧ ∃ provider, scope.Searches r receiver provider ∧
        id ∈ (r.types.get (r.types.openDefinition provider)).methods := by
  rw [extensionMethods, answer_bind_pure, answer_providedMethods]
  simp only [List.mem_filter, List.mem_flatMap, Extensions.mem_providers, decide_eq_true_eq,
    Extends, Searches]
  constructor
  · rintro ⟨⟨provider, ⟨hp, hv⟩, hid, hn⟩, he⟩
    exact ⟨⟨hn, he⟩, provider, ⟨hv, hp⟩, hid⟩
  · rintro ⟨⟨hn, he⟩, provider, ⟨hv, hp⟩, hid⟩
    exact ⟨⟨provider, ⟨hp, hv⟩, hid, hn⟩, he⟩

-- The ways in which a type that accepts a receiver can lie off the path of the search.
inductive Astray (r : Runtime) (receiver first : TypeId) : Prop
  -- A parameter accepts everything.
  | parameter : r.types.isGenericParameter first → Astray r receiver first
  -- The type of all objects accepts types that do not derive from it.
  | object : r.types.kind first = .object → ¬r.types.Inherits receiver first →
      Astray r receiver first
  -- An instance may have been given ancestors that its definition does not have.
  | ofInstance : r.types.Inherits receiver first →
      ¬r.types.Inherits (r.types.openDefinition receiver) first → Astray r receiver first
  -- What stands among the interfaces only is visited when some interface is extended.
  | unvisited : r.extensions.onInterfaces = false →
      r.types.isInterface (r.types.openDefinition first) = false →
      (∀ ancestor ∈ r.types.selfAndBases (r.types.openDefinition receiver),
        r.types.openDefinition ancestor ≠ r.types.openDefinition first) → Astray r receiver first

-- The search comes by every type that accepts the receiver, unless the type is astray.
theorem mem_searched_or_astray (hr : r.RegistersAll)
    (ha : r.types.isAssignableOpen first receiver)
    (hp : ⟨r.types.openDefinition first, provider⟩ ∈ r.extensions.pairs) :
    r.types.openDefinition first ∈
        r.extensions.searched r.types (r.types.openDefinition receiver) ∨
      Astray r receiver first := by
  by_cases hparameter : r.types.isGenericParameter first
  · exact .inr (.parameter hparameter)
  by_cases hinherits : r.types.Inherits receiver first
  · by_cases hopen : r.types.Inherits (r.types.openDefinition receiver) first
    · obtain ⟨ancestor, hm, he⟩ := hopen
      by_cases hi : r.extensions.onInterfaces
      · exact .inl (he ▸ Extensions.openDefinition_mem_searched_of_onInterfaces hi hm)
      · have hno : r.types.isInterface (r.types.openDefinition first) = false :=
          Bool.eq_false_iff.mpr fun hinterface => hi (hr.onInterfaces _ hp hinterface)
        by_cases hbase : ∃ base ∈ r.types.selfAndBases (r.types.openDefinition receiver),
            r.types.openDefinition base = r.types.openDefinition first
        · obtain ⟨base, hmem, hsame⟩ := hbase
          exact .inl (hsame ▸ Extensions.openDefinition_mem_searched hmem)
        · exact .inr (.unvisited (Bool.eq_false_iff.mpr hi) hno
            fun base hmem hsame => hbase ⟨base, hmem, hsame⟩)
    · exact .inr (.ofInstance hinherits hopen)
  · by_cases hk : r.types.kind first = .object
    · exact .inr (.object hk hinherits)
    · have hno := Bool.eq_false_iff.mpr hparameter
      exact absurd (TypeTable.inherits_of_isAssignableOpen ha hno hk) hinherits

-- A call for an extension method of a provider.
structure ExtensionCall where
  receiver : TypeId
  provider : TypeId
  method : MethodId

def addExtension (owner : TypeId) (name : String) (receiver : TypeId) : Building MethodId :=
  Building.addMethod owner
    { name, parameters := [receiver], returns := .void : MethodSpec }.asExtension

-- A module with methods that lie astray, and calls for them: one on all objects, for a number, for a
-- structure and for an interface; one on whatever there is; one on an ancestor that only an instance
-- has; one on a class that stands among interfaces; and one that has been given to an instance.
def declareStrays : Building (HostModule × List ExtensionCall) := do
  let point ← Building.define "Demo" "Point" .structType
  let shape ← Building.define "Demo" "Shape" .interfaceType
  let root ← Building.define "Demo" "Root" .classType
  let box ← Building.defineGeneric "Demo" "Box" .classType ["T"]
  let boxed ← Building.instantiate box [.numeric .int32]
  Building.setBase boxed root
  let odd ← Building.define "Demo" "Odd" .classType
  Building.addInterface odd boxed
  let tools ← Building.define "Demo" "Tools" .classType
  let tag ← addExtension tools "Tag" .object
  let wrap ← addExtension tools "Wrap" ⟨box.index + 1⟩
  let stray ← addExtension boxed "Stray" .object
  let links ← Building.define "Demo" "Links" .classType
  let join ← addExtension links "Join" root
  let keys ← Building.define "Demo" "Keys" .classType
  let unlock ← addExtension keys "Unlock" box
  return ({ name := "Demo", types := [tools, boxed, links, keys], visible := ["Demo"] },
    [⟨.numeric .int32, tools, tag⟩, ⟨point, tools, tag⟩, ⟨shape, tools, tag⟩,
      ⟨point, tools, wrap⟩, ⟨boxed, links, join⟩, ⟨odd, keys, unlock⟩, ⟨root, boxed, stray⟩])

def strays : Runtime × List ExtensionCall :=
  match Building.outcome declareStrays .initial with
  | (.ok (m, calls), t) => ((Runtime.load m (.ofTable t)).2, calls)
  | (.error _, _) => (.ofTable .initial, [])

open Building in
theorem reaches_declareStrays : Reaches declareStrays := by
  have hextension (owner : TypeId) (name : String) (receiver : TypeId) :
      Reaches (addExtension owner name receiver) := Reaches.addMethod _ _
  unfold declareStrays
  refine (Reaches.define _ _ _).bind fun point => ?_
  refine (Reaches.define _ _ _).bind fun shape => ?_
  refine (Reaches.define _ _ _).bind fun root => ?_
  refine (Reaches.defineGeneric _ _ _ _).bind fun box => ?_
  refine (Reaches.instantiate _ _).bind fun boxed => ?_
  refine (Reaches.setBase _ _).bind fun _ => ?_
  refine (Reaches.define _ _ _).bind fun odd => ?_
  refine (Reaches.addInterface _ _).bind fun _ => ?_
  refine (Reaches.define _ _ _).bind fun tools => ?_
  refine (hextension _ _ _).bind fun tag => ?_
  refine (hextension _ _ _).bind fun wrap => ?_
  refine (hextension _ _ _).bind fun stray => ?_
  refine (Reaches.define _ _ _).bind fun links => ?_
  refine (hextension _ _ _).bind fun join => ?_
  refine (Reaches.define _ _ _).bind fun keys => ?_
  exact (hextension _ _ _).bind fun unlock => .pure _

theorem reachable_strays : strays.1.Reachable := by
  unfold strays
  split
  · rename_i m calls t hbuild
    exact Runtime.Reachable.load (.ofTable (reaches_declareStrays .initial .initial _ t hbuild)) m
  · exact .ofTable .initial

-- Whether the search passes over a method of a visible registered provider that accepts the receiver.
def passesOver (r : Runtime) (call : ExtensionCall) : Bool :=
  let name := (r.types.method call.method).name
  r.extensions.pairs.any (·.provider = call.provider) &&
    empty.isTypeVisible r call.provider &&
    (r.types.get call.provider).methods.contains call.method &&
    extends? r call.receiver call.method &&
    !(empty.extensionMethods r call.receiver name .empty).1.contains call.method

end NameScope

end EventScript
