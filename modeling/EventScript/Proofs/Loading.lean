import EventScript.Runtime
import EventScript.Proofs.Host.Extensions
import Mathlib.Algebra.GroupWithZero.Nat

namespace EventScript

namespace Runtime

-- One module

-- The host with what a module declares added to what it has.
def including (r : Runtime) (m : HostModule) : Runtime :=
  let aliases := m.aliases.filterMap fun a => (r.tree.find? a.target).map fun id => (a.name, id)
  { r with
    extensions := r.extensions.addPairs r.types (r.types.extensionPairs m.types)
    visible := (m.visible.filterMap r.tree.find?).foldl Extensions.insertNew r.visible
    aliasGroups := aliases.foldl (fun groups (name, id) => addToGroup name id groups) r.aliasGroups
    loaded := r.loaded ++ [m.name] }

-- What is reported of that.
def changedBy (r : Runtime) (m : HostModule) : ModuleLoad where
  already := false
  pairs := (r.including m).extensions.pairs.length - r.extensions.pairs.length
  visible := (r.including m).visible.length - r.visible.length
  aliases := (m.aliases.filterMap fun a =>
    (r.tree.find? a.target).map fun id => (a.name, id)).length

variable {r : Runtime} {m : HostModule}

theorem addPairs_foldl (extensions : Extensions) (t : TypeTable) (found : List ExtensionPair) :
    extensions.addPairs t (found.foldl Extensions.insertNew []) = extensions.addPairs t found := by
  have hany : (found.foldl Extensions.insertNew []).any (fun pair => t.isInterface pair.extended) =
      found.any fun pair => t.isInterface pair.extended := by
    rw [Bool.eq_iff_iff]
    simp [Extensions.mem_foldl_insertNew]
  rw [Extensions.addPairs, Extensions.foldl_insertNew_foldl, hany, List.foldl_nil,
    Extensions.addPairs]

theorem length_le_foldl_insertNew (items more : List ExtensionPair) :
    items.length ≤ (more.foldl Extensions.insertNew items).length := by
  rw [Extensions.foldl_insertNew_eq, List.length_append]
  omega

-- A step that fails is the last, and the host is left as it has come to be by then.
theorem loading_bind {α β : Type} (step : Loading α) (next : α → Loading β) (r : Runtime) :
    (step >>= next) r = match step r with
      | (.ok a, r') => next a r'
      | (.error e, r') => (.error e, r') := by
  rcases hs : step r with ⟨answer, r'⟩
  have hrun : (step >>= next) r = ExceptT.bindCont next (step r).1 (step r).2 := rfl
  rw [hrun, hs]
  cases answer <;> rfl

theorem registerExtensions_apply (r : Runtime) (m : HostModule) :
    registerExtensions m r = match Extensions.scanTypes r.types m.name [] m.types with
      | .error e => (.error e, r)
      | .ok found =>
        let extensions := r.extensions.addPairs r.types found
        (.ok (extensions.pairs.length - r.extensions.pairs.length), { r with extensions }) := by
  have hrun : registerExtensions m r =
      (match Extensions.scanTypes r.types m.name [] m.types with
        | .error e => throw e
        | .ok found => do
          let extensions := r.extensions.addPairs r.types found
          set { r with extensions }
          return extensions.pairs.length - r.extensions.pairs.length : Loading Nat) r := rfl
  rw [hrun]
  cases Extensions.scanTypes r.types m.name [] m.types <;> rfl

theorem load_of_isLoaded (h : r.isLoaded m.name) : load m r = (.ok ⟨true, 0, 0, 0⟩, r) := by
  rw [load, loading_bind]
  change (if r.isLoaded m.name then _ else _ : Loading ModuleLoad) r = _
  rw [if_pos h]
  rfl

-- A module of a new name starts with its extension methods, and a fault in these is all there is.
theorem load_of_not_isLoaded (h : r.isLoaded m.name = false) :
    load m r = match registerExtensions m r with
      | (.ok pairs, r') => (do
          let visible ← showNamespaces m
          let aliases ← declareAliases m
          modify fun r => { r with loaded := r.loaded ++ [m.name] }
          return ⟨false, pairs, visible, aliases⟩ : Loading ModuleLoad) r'
      | (.error e, r') => (.error e, r') := by
  rw [load, loading_bind]
  change (if r.isLoaded m.name then _ else _ : Loading ModuleLoad) r = _
  rw [if_neg (by simp [h]), loading_bind]
  rcases registerExtensions m r with ⟨_ | _, _⟩ <;> rfl

theorem load_of_admissible (hn : r.isLoaded m.name = false) (h : m.Admissible r.types) :
    load m r = (.ok (r.changedBy m), r.including m) := by
  have hscan := Extensions.scanTypes_eq_ok m.name [] h
  rw [load_of_not_isLoaded hn, registerExtensions_apply, hscan]
  dsimp only
  rw [addPairs_foldl]
  rfl

theorem load_of_not_admissible (hn : r.isLoaded m.name = false) (h : ¬m.Admissible r.types) :
    ∃ e, load m r = (.error e, r) := by
  cases hscan : Extensions.scanTypes r.types m.name [] m.types with
  | ok found => exact absurd (Extensions.forall_mem_of_scanTypes hscan) h
  | error e =>
      refine ⟨e, ?_⟩
      rw [load_of_not_isLoaded hn, registerExtensions_apply, hscan]

theorem length_pairs_including (r : Runtime) (m : HostModule) :
    (r.including m).extensions.pairs.length =
      r.extensions.pairs.length + (r.changedBy m).pairs :=
  (Nat.add_sub_cancel' (length_le_foldl_insertNew _ _)).symm

-- What can come of a call: the module is there already, it is added as a whole, or it is refused.
theorem load_cases (r : Runtime) (m : HostModule) :
    (r.isLoaded m.name ∧ load m r = (.ok ⟨true, 0, 0, 0⟩, r)) ∨
      (r.isLoaded m.name = false ∧ m.Admissible r.types ∧
        load m r = (.ok (r.changedBy m), r.including m)) ∨
      (r.isLoaded m.name = false ∧ ¬m.Admissible r.types ∧ ∃ e, load m r = (.error e, r)) := by
  cases hn : r.isLoaded m.name with
  | true => exact .inl ⟨rfl, load_of_isLoaded hn⟩
  | false =>
      by_cases h : m.Admissible r.types
      · exact .inr (.inl ⟨rfl, h, load_of_admissible hn h⟩)
      · exact .inr (.inr ⟨rfl, h, load_of_not_admissible hn h⟩)

theorem types_tree_load (r : Runtime) (m : HostModule) :
    (load m r).2.types = r.types ∧ (load m r).2.tree = r.tree := by
  obtain ⟨-, hl⟩ | ⟨-, -, hl⟩ | ⟨-, -, e, hl⟩ := load_cases r m <;> simp [hl, including]

-- Modules in a row

-- The answers to the calls for modules that are loaded one after another.
def loadAll (modules : List HostModule) : StateM Runtime (List (Except ModuleError ModuleLoad)) :=
  modules.mapM fun m => (load m).run

-- The modules whose calls succeeded.
def successes (modules : List HostModule) (answers : List (Except ModuleError ModuleLoad)) :
    List HostModule :=
  ((modules.zip answers).filter (·.2.isOk)).map (·.1)

def sameName (m m' : HostModule) : Bool := m.name = m'.name

-- Of the calls for each name, the module of the first that succeeded.
def firstLoaded (modules : List HostModule) (answers : List (Except ModuleError ModuleLoad)) :
    List HostModule :=
  (successes modules answers).eraseDupsBy sameName

-- The number of new pairs that a call reports.
def reportedPairs : Except ModuleError ModuleLoad → Nat
  | .ok load => load.pairs
  | .error _ => 0

theorem loadAll_cons (m : HostModule) (rest : List HostModule) (r : Runtime) :
    loadAll (m :: rest) r =
      ((load m r).1 :: (loadAll rest (load m r).2).1, (loadAll rest (load m r).2).2) := by
  rw [loadAll, List.mapM_cons]
  rfl

theorem successes_cons (m : HostModule) (rest : List HostModule)
    (answer : Except ModuleError ModuleLoad) (answers : List (Except ModuleError ModuleLoad)) :
    successes (m :: rest) (answer :: answers) =
      if answer.isOk then m :: successes rest answers else successes rest answers := by
  rw [successes, List.zip_cons_cons, List.filter_cons]
  split <;> rfl

theorem filter_isLoaded_including (ms : List HostModule) :
    ms.filter (fun m' => !(r.including m).isLoaded m'.name) =
      (ms.filter fun m' => !r.isLoaded m'.name).filter fun m' => sameName m' m = false := by
  rw [List.filter_filter]
  apply List.filter_congr
  intro m' _
  rw [Bool.eq_iff_iff]
  simp [isLoaded, including, sameName, and_comm]

-- The induction is on the calls: a module that has just been added takes those of its name out.
theorem loadAll_snd (modules : List HostModule) (r : Runtime) :
    (loadAll modules r).2 =
      (((successes modules (loadAll modules r).1).filter fun m => !r.isLoaded m.name).eraseDupsBy
        sameName).foldl including r := by
  induction modules generalizing r with
  | nil => rfl
  | cons m rest ih =>
      rw [loadAll_cons, successes_cons]
      obtain ⟨hn, hl⟩ | ⟨hn, -, hl⟩ | ⟨-, -, e, hl⟩ := load_cases r m <;> rw [hl]
      · rw [if_pos (by rfl), List.filter_cons_of_neg (by simp [hn])]
        exact ih r
      · rw [if_pos (by rfl), List.filter_cons_of_pos (by simp [hn]), List.eraseDupsBy_cons,
          List.foldl_cons, ← filter_isLoaded_including]
        exact ih (r.including m)
      · rw [if_neg (by simp [Except.isOk, Except.toBool])]
        exact ih r

theorem loadAll_ofTable (t : TypeTable) (modules : List HostModule) :
    (loadAll modules (.ofTable t)).2 =
      (firstLoaded modules (loadAll modules (.ofTable t)).1).foldl including (.ofTable t) := by
  rw [loadAll_snd, firstLoaded]
  congr 2
  exact List.filter_eq_self.mpr fun _ _ => rfl

theorem length_loadAll (modules : List HostModule) (r : Runtime) :
    (loadAll modules r).1.length = modules.length := by
  induction modules generalizing r with
  | nil => rfl
  | cons m rest ih => rw [loadAll_cons, List.length_cons, List.length_cons, ih]

-- What the calls report adds up to what they have added.
theorem length_pairs_loadAll (modules : List HostModule) (r : Runtime) :
    (loadAll modules r).2.extensions.pairs.length =
      r.extensions.pairs.length + ((loadAll modules r).1.map reportedPairs).sum := by
  induction modules generalizing r with
  | nil => rfl
  | cons m rest ih =>
      rw [loadAll_cons, List.map_cons, List.sum_cons]
      dsimp only
      rw [ih]
      obtain ⟨-, hl⟩ | ⟨-, -, hl⟩ | ⟨-, -, e, hl⟩ := load_cases r m <;> rw [hl] <;>
        simp only [reportedPairs, length_pairs_including] <;> omega

-- What modules have added

-- The host with several modules added, seen as one.
def includingAll (r : Runtime) (modules : List HostModule) : Runtime :=
  let aliases := (modules.flatMap (·.aliases)).filterMap fun a =>
    (r.tree.find? a.target).map fun id => (a.name, id)
  { r with
    extensions := r.extensions.addPairs r.types (r.types.extensionPairs (modules.flatMap (·.types)))
    visible := ((modules.flatMap (·.visible)).filterMap r.tree.find?).foldl Extensions.insertNew
      r.visible
    aliasGroups := aliases.foldl (fun groups (name, id) => addToGroup name id groups) r.aliasGroups
    loaded := r.loaded ++ modules.map (·.name) }

theorem addPairs_append (extensions : Extensions) (t : TypeTable)
    (found more : List ExtensionPair) :
    extensions.addPairs t (found ++ more) = (extensions.addPairs t found).addPairs t more := by
  simp only [Extensions.addPairs, List.foldl_append, List.any_append, Bool.or_assoc]

theorem foldl_including (modules : List HostModule) (r : Runtime) :
    modules.foldl including r = r.includingAll modules := by
  induction modules generalizing r with
  | nil => simp [includingAll, TypeTable.extensionPairs, Extensions.addPairs]
  | cons m rest ih =>
      rw [List.foldl_cons, ih]
      simp only [includingAll, including, List.flatMap_cons, List.filterMap_append,
        List.foldl_append, List.map_cons, TypeTable.extensionPairs, List.flatMap_append,
        addPairs_append, List.append_assoc, List.singleton_append]

-- The providers of an open type, in the order of the types of the modules.
theorem providersOf_addPairs_none (t : TypeTable) (types : List TypeId) (extended : TypeId) :
    (Extensions.none.addPairs t (t.extensionPairs types)).providersOf extended =
      (types.filter fun provider => t.declaresExtensionOn provider extended).eraseDups := by
  let on (provider : TypeId) : List TypeId :=
    (((t.get provider).methods.filterMap (t.extensionPair? provider)).filter
      (·.extended = extended)).map (·.provider)
  have hon : ∀ provider, ∀ other ∈ on provider, other = provider := by
    intro provider other hm
    obtain ⟨pair, hp, rfl⟩ := List.mem_map.mp hm
    obtain ⟨id, -, he⟩ := List.mem_filterMap.mp (List.mem_filter.mp hp).1
    exact TypeTable.provider_of_extensionPair? he
  have hdeclares : ∀ provider, (!(on provider).isEmpty) = t.declaresExtensionOn provider extended := by
    intro provider
    rw [Bool.eq_iff_iff]
    simp only [on, TypeTable.declaresExtensionOn, Bool.not_eq_true', List.isEmpty_eq_false_iff,
      ne_eq, List.map_eq_nil_iff, List.filter_eq_nil_iff, List.mem_filterMap, decide_eq_true_eq,
      List.any_eq_true, not_forall, not_not]
    constructor
    · rintro ⟨pair, ⟨id, hid, he⟩, rfl⟩
      exact ⟨id, hid, TypeTable.provider_of_extensionPair? he ▸ he⟩
    · rintro ⟨id, hid, he⟩
      exact ⟨_, ⟨id, hid, he⟩, rfl⟩
  have hsplit : ((t.extensionPairs types).filter (·.extended = extended)).map (·.provider) =
      types.flatMap on := by
    rw [TypeTable.extensionPairs, List.filter_flatMap, List.map_flatMap]
  have hinj : ∀ a b : ExtensionPair, decide (a.extended = extended) →
      decide (b.extended = extended) → a.provider = b.provider → a = b := by
    rintro ⟨_, _⟩ ⟨_, _⟩ ha hb hp
    exact ExtensionPair.mk.injEq .. ▸ ⟨(of_decide_eq_true ha).trans (of_decide_eq_true hb).symm, hp⟩
  rw [Extensions.providersOf, Extensions.addPairs, Extensions.map_filter_foldl_insertNew hinj,
    hsplit, Extensions.foldl_insertNew_flatMap hon, List.filter_congr fun p _ => hdeclares p]
  exact Extensions.foldl_insertNew_nil _

theorem onInterfaces_addPairs_none (t : TypeTable) (types : List TypeId) :
    (Extensions.none.addPairs t (t.extensionPairs types)).onInterfaces ↔
      ∃ provider ∈ types, ∃ extended,
        t.declaresExtensionOn provider extended ∧ t.isInterface extended := by
  simp only [Extensions.addPairs, Extensions.none, Bool.false_or, List.any_eq_true,
    TypeTable.mem_extensionPairs]
  constructor
  · rintro ⟨pair, ⟨hp, hd⟩, hi⟩
    exact ⟨pair.provider, hp, pair.extended, hd, hi⟩
  · rintro ⟨provider, hp, extended, hd, hi⟩
    exact ⟨⟨extended, provider⟩, ⟨hp, hd⟩, hi⟩

-- Groups of namespaces under one alias

-- The group of some namespaces, if there are any.
def groupOf? (name : String) (members : List NamespaceId) : Option AliasGroup :=
  if members = [] then none else some ⟨name, members⟩

theorem groupOf?_insertNew (name : String) (members : List NamespaceId) (id : NamespaceId) :
    groupOf? name (Extensions.insertNew members id) =
      some ⟨name, Extensions.insertNew members id⟩ :=
  if_neg (List.ne_nil_of_mem (Extensions.mem_insertNew.mpr (.inr rfl)))

theorem find?_addToGroup {groups : List AliasGroup} {name : String} {members : List NamespaceId}
    (h : groups.find? (·.name = name) = groupOf? name members) (id : NamespaceId) :
    (addToGroup name id groups).find? (·.name = name) =
      groupOf? name (Extensions.insertNew members id) := by
  induction groups with
  | nil =>
      have hnil : members = [] := by
        by_contra hm
        rw [groupOf?, if_neg hm] at h
        cases h
      rw [hnil, addToGroup, List.find?_cons_of_pos (by simp)]
      rfl
  | cons group groups ih =>
      rw [addToGroup]
      by_cases hg : group.name = name
      · rw [List.find?_cons_of_pos (by simpa using hg), groupOf?] at h
        split at h
        · cases h
        · obtain rfl := Option.some.inj h
          rw [if_pos rfl, List.find?_cons_of_pos (by simp), groupOf?_insertNew]
      · rw [List.find?_cons_of_neg (by simpa using hg)] at h
        rw [if_neg hg, List.find?_cons_of_neg (by simpa using hg)]
        exact ih h

theorem find?_addToGroup_of_ne {groups : List AliasGroup} {name other : String}
    (hne : name ≠ other) (id : NamespaceId) :
    (addToGroup name id groups).find? (·.name = other) = groups.find? (·.name = other) := by
  induction groups with
  | nil => simp [addToGroup, hne]
  | cons group groups ih =>
      rw [addToGroup]
      split
      · rename_i hg
        have hother : group.name ≠ other := hg ▸ hne
        rw [List.find?_cons_of_neg (by simpa using hother),
          List.find?_cons_of_neg (by simpa using hother)]
      · rw [List.find?_cons, List.find?_cons, ih]

-- A group has the namespaces that have been put under its alias.
theorem find?_foldl_addToGroup {groups : List AliasGroup} {name : String}
    {members : List NamespaceId} (h : groups.find? (·.name = name) = groupOf? name members)
    (aliases : List (String × NamespaceId)) :
    (aliases.foldl (fun groups (name, id) => addToGroup name id groups) groups).find?
        (·.name = name) =
      groupOf? name
        (((aliases.filter (·.1 = name)).map (·.2)).foldl Extensions.insertNew members) := by
  induction aliases generalizing groups members with
  | nil => exact h
  | cons entry aliases ih =>
      rw [List.foldl_cons]
      by_cases he : entry.1 = name
      · rw [List.filter_cons_of_pos (by simpa using he)]
        exact ih (he ▸ find?_addToGroup (he.symm ▸ h) entry.2)
      · rw [List.filter_cons_of_neg (by simpa using he)]
        exact ih ((find?_addToGroup_of_ne he entry.2).trans h)

theorem map_name_addToGroup (name : String) (id : NamespaceId) (groups : List AliasGroup) :
    (addToGroup name id groups).map (·.name) = Extensions.insertNew (groups.map (·.name)) name := by
  induction groups with
  | nil => rfl
  | cons group groups ih =>
      rw [addToGroup]
      split
      · rename_i hg
        rw [List.map_cons, List.map_cons, hg, Extensions.insertNew_of_mem List.mem_cons_self]
      · rename_i hg
        rw [List.map_cons, ih]
        by_cases hm : name ∈ groups.map (·.name)
        · rw [Extensions.insertNew_of_mem hm, List.map_cons,
            Extensions.insertNew_of_mem (List.mem_cons_of_mem _ hm)]
        · rw [Extensions.insertNew_of_not_mem hm, List.map_cons,
            Extensions.insertNew_of_not_mem (List.not_mem_cons_of_ne_of_not_mem (Ne.symm hg) hm),
            List.cons_append]

theorem nodup_names_foldl_addToGroup {groups : List AliasGroup}
    (h : (groups.map (·.name)).Nodup) (aliases : List (String × NamespaceId)) :
    ((aliases.foldl (fun groups (name, id) => addToGroup name id groups) groups).map
      (·.name)).Nodup := by
  induction aliases generalizing groups with
  | nil => exact h
  | cons entry aliases ih =>
      exact ih (map_name_addToGroup entry.1 entry.2 groups ▸ Extensions.nodup_insertNew h entry.1)

-- A host that has what some modules of a table declare, and nothing else.
structure HoldsExactly (r : Runtime) (t : TypeTable) (modules : List HostModule) : Prop where
  types : r.types = t
  tree : r.tree = .ofTable t
  loaded : r.loaded = modules.map (·.name)
  pairs : r.extensions.pairs.Nodup
  providers : ∀ extended, r.extensions.providersOf extended =
    ((modules.flatMap (·.types)).filter (t.declaresExtensionOn · extended)).eraseDups
  onInterfaces : r.extensions.onInterfaces ↔ ∃ m ∈ modules, ∃ provider ∈ m.types, ∃ extended,
    t.declaresExtensionOn provider extended ∧ t.isInterface extended
  visible : r.visible = ((modules.flatMap (·.visible)).filterMap r.tree.find?).eraseDups
  aliasNames : (r.aliasGroups.map (·.name)).Nodup
  aliasGroups : ∀ name, r.aliasGroup? name = groupOf? name
    (((modules.flatMap (·.aliases)).filter (·.name = name)).filterMap fun a =>
      r.tree.find? a.target).eraseDups

theorem holdsExactly_includingAll (t : TypeTable) (modules : List HostModule) :
    ((ofTable t).includingAll modules).HoldsExactly t modules where
  types := rfl
  tree := rfl
  loaded := rfl
  pairs := Extensions.nodup_foldl_insertNew List.nodup_nil _
  providers := providersOf_addPairs_none t _
  onInterfaces := by
    refine (onInterfaces_addPairs_none t _).trans ?_
    simp only [List.mem_flatMap]
    constructor
    · rintro ⟨provider, ⟨m, hm, hp⟩, h⟩
      exact ⟨m, hm, provider, hp, h⟩
    · rintro ⟨m, hm, provider, hp, h⟩
      exact ⟨provider, ⟨m, hm, hp⟩, h⟩
  visible := Extensions.foldl_insertNew_nil _
  aliasNames :=
    have hnone : (([] : List AliasGroup).map (·.name)).Nodup := List.nodup_nil
    nodup_names_foldl_addToGroup hnone _
  aliasGroups := by
    intro name
    have hnone : ([] : List AliasGroup).find? (·.name = name) = groupOf? name [] := rfl
    refine (find?_foldl_addToGroup hnone _).trans ?_
    rw [Extensions.foldl_insertNew_nil, List.filter_filterMap, List.map_filterMap,
      List.filterMap_filter]
    congr 2
    refine List.filterMap_congr fun a _ => ?_
    dsimp only [includingAll, ofTable]
    by_cases ha : a.name = name <;> cases (NamespaceTree.ofTable t).find? a.target <;> simp [ha]

-- Loading is all or nothing, and once for each name: a call that is refused leaves the host as it
-- is, as does one for a name that is loaded; and modules loaded in a row on a fresh host leave there
-- exactly what the first successful one of each name declares.
theorem loadAll_exact (t : TypeTable) (modules : List HostModule) :
    (∀ (r : Runtime) (m : HostModule),
      ((load m r).1.isOk ↔ r.isLoaded m.name ∨ m.Admissible r.types) ∧
        ((load m r).1.isOk = false ∨ r.isLoaded m.name → (load m r).2 = r)) ∧
      (loadAll modules (.ofTable t)).1.length = modules.length ∧
      (loadAll modules (.ofTable t)).2.HoldsExactly t
        (firstLoaded modules (loadAll modules (.ofTable t)).1) ∧
      ((loadAll modules (.ofTable t)).1.map reportedPairs).sum =
        (loadAll modules (.ofTable t)).2.extensions.pairs.length := by
  refine ⟨fun r m => ?_, length_loadAll _ _, ?_, ?_⟩
  · obtain ⟨hn, hl⟩ | ⟨hn, ha, hl⟩ | ⟨hn, ha, e, hl⟩ := load_cases r m <;>
      simp [Except.isOk, Except.toBool, *]
  · rw [loadAll_ofTable, foldl_including]
    exact holdsExactly_includingAll t _
  · rw [length_pairs_loadAll]
    exact (Nat.zero_add _).symm

end Runtime

end EventScript
