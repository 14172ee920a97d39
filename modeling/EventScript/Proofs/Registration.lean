import EventScript.Proofs.ExtensionSearch
import EventScript.Proofs.Host.BaseChain

namespace EventScript

namespace TypeTable

variable {t : TypeTable}

-- Whether only interfaces are declared as interfaces of types.
def InterfacesOnly (t : TypeTable) : Prop :=
  ∀ id, ∀ face ∈ (t.get id).interfaces, t.isInterface face

-- The induction is that of the search: what it adds is declared by what it has found.
theorem isInterface_of_mem_searchInterfaces (h : t.InterfacesOnly) {found pending : List TypeId}
    (hfound : ∀ face ∈ found, t.isInterface face)
    (hpending : ∀ face ∈ pending, t.isInterface face) :
    ∀ face ∈ t.searchInterfaces found pending, t.isInterface face := by
  induction found, pending using searchInterfaces.induct t with
  | case1 found =>
      rw [searchInterfaces]
      exact hfound
  | case2 found id rest hmem ih =>
      rw [searchInterfaces, if_pos hmem]
      exact ih hfound (List.forall_mem_cons.mp hpending).2
  | case3 found id rest hmem ih =>
      obtain ⟨hid, hrest⟩ := List.forall_mem_cons.mp hpending
      rw [searchInterfaces, if_neg hmem]
      apply ih
      · exact List.forall_mem_append.mpr ⟨hfound, by simpa using hid⟩
      · exact List.forall_mem_append.mpr ⟨h id, hrest⟩

theorem interfacesOnly_of_forall
    (h : ∀ i < t.size, ∀ face ∈ (t.get ⟨i⟩).interfaces, t.isInterface face) :
    t.InterfacesOnly := by
  intro id face hface
  by_cases hc : id.index < t.size
  · exact h id.index hc face hface
  · rw [get_of_not_contains hc] at hface
    cases hface

theorem isInterface_of_mem_allInterfaces (h : t.InterfacesOnly) {id face : TypeId}
    (hface : face ∈ t.allInterfaces id) : t.isInterface face := by
  refine isInterface_of_mem_searchInterfaces h (by simp) (fun other hm => ?_) face hface
  obtain ⟨ancestor, -, ha⟩ := List.mem_flatMap.mp hm
  exact h ancestor other ha

-- An instance of an interface is one of a definition that is an interface.
theorem isInterface_openDefinition (hw : t.WellFormed) (id : TypeId) :
    t.isInterface (t.openDefinition id) = t.isInterface id := by
  unfold openDefinition
  split
  · rename_i definition arguments hs
    rw [isInterface, isInterface, hw.kind_of_instance (contains_of_shape hs) hs]
  · rfl

end TypeTable

namespace Extensions

variable {extensions before after : Extensions} {t : TypeTable} {provider : TypeId}

-- The search that always visits interfaces

-- The types of a walk along bases, each with all its interfaces behind it, by their open definitions.
def reachedTypes (t : TypeTable) (walked : List TypeId) : List TypeId :=
  walked.flatMap fun current => (current :: t.allInterfaces current).map t.openDefinition

-- The providers of all these types, of which first occurrences are kept.
def allProviders (extensions : Extensions) (t : TypeTable) (walked : List TypeId) : List TypeId :=
  ((reachedTypes t walked).flatMap extensions.providersOf).eraseDups

-- Whether interfaces that are extended are taken note of.
def NotesInterfaces (extensions : Extensions) (t : TypeTable) : Prop :=
  ∀ pair ∈ extensions.pairs, t.isInterface pair.extended → extensions.onInterfaces

theorem providersOf_of_isInterface (h : extensions.NotesInterfaces t)
    (hoff : extensions.onInterfaces = false) {face : TypeId} (hface : t.isInterface face) :
    extensions.providersOf face = [] := by
  refine List.eq_nil_iff_forall_not_mem.mpr fun provider hm => ?_
  have hon := h _ (mem_providersOf.mp hm) hface
  rw [hoff] at hon
  cases hon

-- What is not visited would have brought nothing.
theorem flatMap_searched (hw : t.WellFormed) (hi : t.InterfacesOnly)
    (h : extensions.NotesInterfaces t) (type : TypeId) :
    (extensions.searched t type).flatMap extensions.providersOf =
      (reachedTypes t (t.selfAndBases type)).flatMap extensions.providersOf := by
  cases hon : extensions.onInterfaces with
  | true => simp [searched, reachedTypes, hon]
  | false =>
      have hnone (current : TypeId) :
          ((t.allInterfaces current).map t.openDefinition).flatMap extensions.providersOf = [] := by
        refine List.flatMap_eq_nil_iff.mpr fun face hm => ?_
        obtain ⟨id, hid, rfl⟩ := List.mem_map.mp hm
        have hopen : t.isInterface (t.openDefinition id) := by
          rw [TypeTable.isInterface_openDefinition hw]
          exact TypeTable.isInterface_of_mem_allInterfaces hi hid
        exact providersOf_of_isInterface h hon hopen
      simp [searched, reachedTypes, hon, List.flatMap_assoc, hnone]

theorem providers_eq_allProviders (hw : t.WellFormed) (hi : t.InterfacesOnly)
    (h : extensions.NotesInterfaces t) {type : TypeId} {bases : List TypeId}
    (hwalk : t.BaseWalk type bases) :
    extensions.providers t type = extensions.allProviders t (type :: bases) := by
  rw [providers, flatMap_searched hw hi h, foldl_insertNew_nil, allProviders,
    TypeTable.selfAndBases, hwalk.baseChain_eq]

-- What later registrations add

-- Whether anything is registered of a provider.
def registers (extensions : Extensions) (provider : TypeId) : Bool :=
  extensions.pairs.any (·.provider = provider)

-- A later state of a registry: all that is new is of providers of which nothing was registered. New
-- providers of a type therefore stand behind or between the earlier ones, and no earlier one moves.
def GrowsTo (before after : Extensions) : Prop :=
  after.pairs.filter (fun pair => before.registers pair.provider) = before.pairs

theorem registers_of_mem {pair : ExtensionPair} (h : pair ∈ extensions.pairs) :
    extensions.registers pair.provider :=
  List.any_eq_true.mpr ⟨pair, h, decide_eq_true rfl⟩

theorem filter_registers_self :
    extensions.pairs.filter (fun pair => extensions.registers pair.provider) = extensions.pairs :=
  List.filter_eq_self.mpr fun _ h => registers_of_mem h

namespace GrowsTo

theorem registers (h : before.GrowsTo after) (hp : before.registers provider) :
    after.registers provider := by
  obtain ⟨pair, hm, he⟩ := List.any_eq_true.mp hp
  have hmem : pair ∈ after.pairs := by
    rw [← h] at hm
    exact List.mem_of_mem_filter hm
  exact List.any_eq_true.mpr ⟨pair, hmem, he⟩

theorem trans {last : Extensions} (h : before.GrowsTo after) (h' : after.GrowsTo last) :
    before.GrowsTo last := by
  have hboth : last.pairs.filter (fun pair => before.registers pair.provider) =
      (last.pairs.filter fun pair => after.registers pair.provider).filter
        fun pair => before.registers pair.provider := by
    rw [List.filter_filter]
    apply List.filter_congr
    intro pair _
    by_cases hp : before.registers pair.provider
    · simp [hp, h.registers hp]
    · simp [hp]
  rw [GrowsTo, hboth, h', h]

theorem filter_providersOf (h : before.GrowsTo after) (extended : TypeId) :
    (after.providersOf extended).filter before.registers = before.providersOf extended := by
  have hcomm : (after.pairs.filter (·.extended = extended)).filter
      (fun pair => before.registers pair.provider) =
      (after.pairs.filter fun pair => before.registers pair.provider).filter
        (·.extended = extended) := List.filter_comm _ _ _
  rw [providersOf, List.filter_map, providersOf, ← h, ← hcomm]
  rfl

-- The earlier answers are what the later ones hold of providers that were registered by then.
theorem filter_allProviders (h : before.GrowsTo after) (t : TypeTable) (walked : List TypeId) :
    (after.allProviders t walked).filter before.registers = before.allProviders t walked := by
  have hcollect := map_filter_foldl_insertNew (p := before.registers) (f := id)
    (fun _ _ _ _ he => he) [] ((reachedTypes t walked).flatMap after.providersOf)
  simp only [List.map_id, List.filter_nil, foldl_insertNew_nil, List.filter_flatMap,
    h.filter_providersOf] at hcollect
  exact hcollect

theorem allProviders_sublist (h : before.GrowsTo after) (t : TypeTable) (walked : List TypeId) :
    (before.allProviders t walked).Sublist (after.allProviders t walked) := by
  rw [← h.filter_allProviders]
  exact List.filter_sublist

end GrowsTo

end Extensions

namespace Runtime

variable {r : Runtime} {m : HostModule}

-- Registrations in a row

-- The answers to the calls that register modules one after another.
def registerAll (modules : List HostModule) :
    StateM Runtime (List (Except ModuleError Nat)) :=
  modules.mapM fun m => (registerExtensions m).run

-- The host with the extension methods of a module registered, as far as its types are in order.
def registering (r : Runtime) (m : HostModule) : Runtime :=
  { r with extensions := r.extensions.addPairs r.types (r.types.extensionPairs m.types) }

-- A call registers the whole module, or it is refused and changes nothing.
theorem registerExtensions_cases (r : Runtime) (m : HostModule) :
    (registerExtensions m r).2 = r.registering m ∨ (registerExtensions m r).2 = r := by
  rw [registerExtensions_apply]
  by_cases h : m.Admissible r.types
  · have hscan := Extensions.scanTypes_eq_ok m.name [] h
    refine .inl ?_
    rw [hscan]
    dsimp only
    rw [addPairs_foldl]
    rfl
  · cases hscan : Extensions.scanTypes r.types m.name [] m.types with
    | ok found => exact absurd (Extensions.forall_mem_of_scanTypes hscan) h
    | error e => exact .inr rfl

theorem RegistersAll.registering (h : r.RegistersAll) (m : HostModule) :
    (r.registering m).RegistersAll :=
  ⟨(h.including m).pairs, (h.including m).onInterfaces⟩

-- A provider of which one method is registered already has nothing new to register.
theorem RegistersAll.growsTo_registering (h : r.RegistersAll) (m : HostModule) :
    r.extensions.GrowsTo (r.registering m).extensions := by
  have hnew := Extensions.map_filter_foldl_insertNew
    (p := fun pair : ExtensionPair => r.extensions.registers pair.provider) (f := id)
    (fun _ _ _ _ he => he) r.extensions.pairs (r.types.extensionPairs m.types)
  simp only [List.map_id, Extensions.filter_registers_self] at hnew
  have hold : ∀ pair ∈ (r.types.extensionPairs m.types).filter
      (fun pair => r.extensions.registers pair.provider), pair ∈ r.extensions.pairs := by
    intro pair hm
    obtain ⟨hpair, hregistered⟩ := List.mem_filter.mp hm
    obtain ⟨other, hother, he⟩ := List.any_eq_true.mp hregistered
    obtain ⟨provider, -, hfound⟩ := List.mem_flatMap.mp hpair
    obtain ⟨id, hid, hown⟩ := List.mem_filterMap.mp hfound
    obtain rfl := TypeTable.provider_of_extensionPair? hown
    rw [← of_decide_eq_true he] at hid hown
    exact h.pairs other hother id hid pair hown
  rw [Extensions.foldl_insertNew_of_subset hold] at hnew
  exact hnew

-- What one call leaves.
structure RegisteredFrom (r r' : Runtime) : Prop where
  types_eq : r'.types = r.types
  registersAll : r'.RegistersAll
  growsTo : r.extensions.GrowsTo r'.extensions

theorem RegisteredFrom.refl (h : r.RegistersAll) : RegisteredFrom r r :=
  ⟨rfl, h, Extensions.filter_registers_self⟩

theorem RegisteredFrom.trans {r' r'' : Runtime} (h : RegisteredFrom r r')
    (h' : RegisteredFrom r' r'') : RegisteredFrom r r'' :=
  ⟨h'.types_eq.trans h.types_eq, h'.registersAll, h.growsTo.trans h'.growsTo⟩

theorem registeredFrom_registerExtensions (h : r.RegistersAll) (m : HostModule) :
    RegisteredFrom r (registerExtensions m r).2 := by
  rcases registerExtensions_cases r m with hr | hr
  · rw [hr]
    exact ⟨rfl, h.registering m, h.growsTo_registering m⟩
  · rw [hr]
    exact .refl h

theorem registerAll_cons (m : HostModule) (rest : List HostModule) (r : Runtime) :
    (registerAll (m :: rest) r).2 = (registerAll rest (registerExtensions m r).2).2 := by
  rw [registerAll, List.mapM_cons]
  rfl

theorem registerAll_append (modules more : List HostModule) (r : Runtime) :
    (registerAll (modules ++ more) r).2 = (registerAll more (registerAll modules r).2).2 := by
  induction modules generalizing r with
  | nil => rfl
  | cons m rest ih => rw [List.cons_append, registerAll_cons, registerAll_cons, ih]

theorem registeredFrom_registerAll (h : r.RegistersAll) (modules : List HostModule) :
    RegisteredFrom r (registerAll modules r).2 := by
  induction modules generalizing r with
  | nil => exact .refl h
  | cons m rest ih =>
      have hfirst := registeredFrom_registerExtensions h m
      rw [registerAll_cons]
      exact hfirst.trans (ih hfirst.registersAll)

-- A class with a base and an interface, and a provider for each of the three.
def declareColony : Building (TypeId × List TypeId) := do
  let populated ← Building.define "Game" "Populated" .interfaceType
  let planet ← Building.define "Game" "Planet" .classType
  let colony ← Building.define "Game" "Colony" .classType
  Building.setBase colony planet
  Building.addInterface colony populated
  let onColony ← Building.define "Game" "ColonyTools" .classType
  let _ ← NameScope.addExtension onColony "Settle" colony
  let onPlanet ← Building.define "Game" "PlanetTools" .classType
  let _ ← NameScope.addExtension onPlanet "Orbit" planet
  let onPopulated ← Building.define "Game" "PopulatedTools" .classType
  let _ ← NameScope.addExtension onPopulated "Count" populated
  return (colony, [onColony, onPlanet, onPopulated])

def colonies : TypeTable × TypeId × List TypeId :=
  match Building.outcome declareColony .initial with
  | (.ok (colony, tools), t) => (t, colony, tools)
  | (.error _, _) => (.initial, .object, [])

open Building in
theorem reached_colonies : colonies.1.Reached := by
  have hbuild : Reaches declareColony := by
    have hextension (owner : TypeId) (name : String) (receiver : TypeId) :
        Reaches (NameScope.addExtension owner name receiver) := Reaches.addMethod _ _
    unfold declareColony
    refine (Reaches.define _ _ _).bind fun populated => ?_
    refine (Reaches.define _ _ _).bind fun planet => ?_
    refine (Reaches.define _ _ _).bind fun colony => ?_
    refine (Reaches.setBase _ _).bind fun _ => ?_
    refine (Reaches.addInterface _ _).bind fun _ => ?_
    refine (Reaches.define _ _ _).bind fun onColony => ?_
    refine (hextension _ _ _).bind fun _ => ?_
    refine (Reaches.define _ _ _).bind fun onPlanet => ?_
    refine (hextension _ _ _).bind fun _ => ?_
    refine (Reaches.define _ _ _).bind fun onPopulated => ?_
    exact (hextension _ _ _).bind fun _ => .pure _
  unfold colonies
  split
  · rename_i colony tools t hrun
    exact hbuild .initial .initial _ t hrun
  · exact .initial

end Runtime

end EventScript
