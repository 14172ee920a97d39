import EventScript.Compile
import EventScript.Proofs.Host.NamedTypes
import EventScript.Proofs.Loading

namespace EventScript

-- The hosts that there are: a table that has been filled, with the modules that have been loaded.
inductive Runtime.Reachable : Runtime → Prop
  | ofTable {t : TypeTable} : t.Reached → Reachable (.ofTable t)
  | loadModule {r r' : Runtime} {m : HostModule} {load : ModuleLoad} : Reachable r →
      r.loadModule m = .ok (load, r') → Reachable r'

-- A host whose types are in order and placed by their names, and whose definitions all have
-- parameters to be applied to. On such a host every type that a script can write is closed.
structure Runtime.Tidy (r : Runtime) : Prop where
  wellFormed : r.types.WellFormed
  grown : TypeTable.initial.GrowsTo r.types
  places : r.tree.Places r.types
  takeParameters : r.types.DefinitionsTakeParameters

-- What a name with a number of parameters stands for: a type is no parameter, and it is closed if
-- it takes no parameters.
def Entity.StandsFor (t : TypeTable) (arity : Nat) (entity : Entity) : Prop :=
  ∀ id, entity.type? = some id →
    t.isGenericParameter id = false ∧ (arity = 0 → t.mentionsParameter id = false)

namespace Runtime

variable {r r' : Runtime} {id : TypeId}

theorem eq_load_of_loadModule {m : HostModule} {load : ModuleLoad}
    (h : r.loadModule m = .ok (load, r')) : r' = (Runtime.load m r).2 := by
  unfold loadModule at h
  split at h
  · rename_i hl
    cases h
    rw [hl]
  · cases h

theorem Reachable.load (h : r.Reachable) (m : HostModule) : (Runtime.load m r).2.Reachable := by
  obtain ⟨-, hl⟩ | ⟨-, -, hl⟩ | ⟨-, -, e, hl⟩ := load_cases r m
  · rwa [hl]
  · have hload : r.loadModule m = .ok (r.changedBy m, r.including m) := by
      rw [Runtime.loadModule, hl]
    rw [hl]
    exact .loadModule h hload
  · rwa [hl]

theorem Reachable.reached (h : r.Reachable) : r.types.Reached ∧ r.tree = .ofTable r.types := by
  induction h with
  | ofTable ht => exact ⟨ht, rfl⟩
  | @loadModule r r' m load _ hl ih =>
      obtain ⟨htypes, htree⟩ := types_tree_load r m
      rw [eq_load_of_loadModule hl, htypes, htree]
      exact ih

theorem Reachable.tidy (h : r.Reachable) (hd : r.types.DefinitionsTakeParameters) : r.Tidy := by
  obtain ⟨ht, htree⟩ := h.reached
  obtain ⟨hw, hg⟩ := ht.wellFormed
  exact ⟨hw, hg, htree ▸ NamespaceTree.places_ofTable r.types, hd⟩

-- Full names

section

variable {name fullName behind inner : List Char}

theorem findTypeChars?_of_named (hc : Text.cutFirst? '<' (Text.trimChars name) = none) :
    r.findTypeChars? name = r.findNamed? (Text.trimChars name) 0 := by
  rw [findTypeChars?]
  split <;> simp_all

theorem findTypeChars?_of_unclosed
    (hc : Text.cutFirst? '<' (Text.trimChars name) = some (fullName, behind))
    (hd : dropClosing? behind = none) : r.findTypeChars? name = none := by
  rw [findTypeChars?]
  split
  · simp_all
  · split <;> simp_all

theorem findTypeChars?_of_instance
    (hc : Text.cutFirst? '<' (Text.trimChars name) = some (fullName, behind))
    (hd : dropClosing? behind = some inner) :
    r.findTypeChars? name = (do
      let arguments ← (splitTypeArguments 0 inner).mapM r.findTypeChars?
      let definition ← r.findNamed? fullName arguments.length
      r.types.findInstance? definition arguments) := by
  rw [findTypeChars?]
  split
  · simp_all
  · split <;> simp_all

end

theorem forall₂_of_mapM {α β : Type} {f : α → Option β} {as : List α} {bs : List β}
    (h : as.mapM f = some bs) : List.Forall₂ (fun a b => f a = some b) as bs := by
  induction as generalizing bs with
  | nil =>
      obtain rfl : bs = [] := by simpa using h
      exact .nil
  | cons a as ih =>
      rw [List.mapM_cons] at h
      obtain ⟨b, hb, h⟩ := Option.bind_eq_some_iff.mp h
      obtain ⟨rest, hrest, h⟩ := Option.bind_eq_some_iff.mp h
      obtain rfl := Option.some.inj h
      exact .cons hb (ih hrest)

theorem namedAs_of_findNamed? (hw : r.types.WellFormed) {fullName : List Char} {arity : Nat}
    (h : r.findNamed? fullName arity = some id) : r.types.NamedAs id arity := by
  obtain ⟨⟨home, name⟩, -, hfind⟩ := Option.bind_eq_some_iff.mp h
  exact TypeTable.namedAs_of_find? hw hfind

-- The induction is that of the search: what an argument is written with is shorter than the name.
theorem Tidy.mentionsParameter_of_findTypeChars? (h : r.Tidy) {name : List Char}
    (hf : r.findTypeChars? name = some id) : r.types.mentionsParameter id = false := by
  induction name using findTypeChars?.induct generalizing id with
  | case1 name hc =>
      rw [findTypeChars?_of_named hc] at hf
      exact (namedAs_of_findNamed? h.wellFormed hf).mentionsParameter h.takeParameters
  | case2 name fullName behind hc hd =>
      rw [findTypeChars?_of_unclosed hc hd] at hf
      cases hf
  | case3 name fullName behind hc inner hd ih =>
      rw [findTypeChars?_of_instance hc hd] at hf
      obtain ⟨arguments, hargs, hf⟩ := Option.bind_eq_some_iff.mp hf
      obtain ⟨definition, hdefinition, hf⟩ := Option.bind_eq_some_iff.mp hf
      have hclosed : ∀ a ∈ arguments, r.types.mentionsParameter a = false := by
        intro a ha
        obtain ⟨part, hp, hfound⟩ :=
          TypeTable.exists_mem_of_forall₂ (forall₂_of_mapM hargs).flip ha
        exact ih ⟨part, hp⟩ hfound
      have hnamed := namedAs_of_findNamed? h.wellFormed hdefinition
      exact TypeTable.mentionsParameter_of_findInstance? h.wellFormed hf
        hnamed.isGenericParameter hclosed

theorem Tidy.mentionsParameter_of_findType? (h : r.Tidy) {name : String}
    (hf : r.findType? name = some id) : r.types.mentionsParameter id = false :=
  h.mentionsParameter_of_findTypeChars? hf

end Runtime

-- Names in the namespaces of a host

namespace Entity.StandsFor

variable {t : TypeTable} {arity : Nat} {id : TypeId} {entity : Entity}

theorem of_namespace (home : NamespaceId) : StandsFor t arity (.namespace home) := by
  intro found hf
  cases hf

theorem of_closed (h : t.mentionsParameter id = false) : StandsFor t arity (.type id) := by
  intro found hf
  obtain rfl := Option.some.inj hf
  exact ⟨TypeTable.isGenericParameter_of_closed h, fun _ => h⟩

theorem closed (h : StandsFor t 0 entity) (hid : entity.type? = some id) :
    t.mentionsParameter id = false :=
  (h id hid).2 rfl

end Entity.StandsFor

namespace Runtime.Tidy

variable {r : Runtime} {arity : Nat} {entity : Entity}

theorem standsFor_of_type? (h : r.Tidy) {home : NamespaceId} {name : String} {id : TypeId}
    (hf : r.tree.type? home name arity = some id) : Entity.StandsFor r.types arity (.type id) := by
  obtain ⟨p, hp, rfl⟩ := Option.map_eq_some_iff.mp hf
  have hn := h.places p (List.mem_of_find?_eq_some hp)
  have ha : p.arity = arity := by
    have := List.find?_some hp
    simp only [Bool.and_eq_true, decide_eq_true_eq] at this
    exact this.2
  rw [ha] at hn
  intro found hfound
  obtain rfl := Option.some.inj hfound
  refine ⟨hn.isGenericParameter, ?_⟩
  rintro rfl
  exact hn.mentionsParameter h.takeParameters

theorem standsFor_of_lookup? (h : r.Tidy) {home : NamespaceId} {name : String}
    (hf : r.tree.lookup? home name arity = some entity) : entity.StandsFor r.types arity := by
  unfold NamespaceTree.lookup? at hf
  split at hf
  · cases hf
    exact .of_namespace _
  · obtain ⟨id, hid, rfl⟩ := Option.map_eq_some_iff.mp hf
    exact h.standsFor_of_type? hid

theorem standsFor_of_lookupIn? (h : r.Tidy) {outer : Entity} {name : String}
    (hf : r.tree.lookupIn? outer name arity = some entity) : entity.StandsFor r.types arity := by
  obtain ⟨home, -, hl⟩ := List.exists_of_findSome?_eq_some hf
  exact h.standsFor_of_lookup? hl

end Runtime.Tidy

namespace NameScope

variable {r : Runtime} {names : NameScope} {arity : Nat} {entity : Entity}

-- The aliases of a script stand for closed types, however they are used.
def ClosedAliases (t : TypeTable) (names : NameScope) : Prop :=
  ∀ entry ∈ names.aliases, ∀ arity, entry.2.StandsFor t arity

theorem ClosedAliases.addAlias {t : TypeTable} (h : names.ClosedAliases t) (name : String)
    (he : ∀ arity, entity.StandsFor t arity) : (names.addAlias name entity).ClosedAliases t := by
  unfold NameScope.addAlias
  split
  · exact h
  · intro entry hm
    rcases List.mem_append.mp hm with hm | hm
    · exact h entry hm
    · obtain rfl := List.mem_singleton.mp hm
      exact he

theorem standsFor_of_lookup (h : names.ClosedAliases r.types) {name : String}
    (hl : names.aliases.lookup name = some entity) : entity.StandsFor r.types arity := by
  obtain ⟨before, behind, he, -⟩ := List.lookup_eq_some_iff.mp hl
  exact h (name, entity) (he ▸ List.mem_append_right _ List.mem_cons_self) arity

-- What a search for a name comes to: of an ambiguous name the first type counts.
def ResolvesTo (t : TypeTable) (arity : Nat) : NameResolution → Prop
  | .found entity => entity.StandsFor t arity
  | .ambiguous first _ => Entity.StandsFor t arity (.type first)
  | .unknown => True

theorem resolvesTo_resolveSearched (ht : r.Tidy) (name : String) :
    ResolvesTo r.types arity (names.resolveSearched r name arity) := by
  let hits := (names.searched r).filterMap fun home => r.tree.lookup? home name arity
  have hhits : ∀ entity ∈ hits, entity.StandsFor r.types arity := by
    intro entity hm
    obtain ⟨home, -, hl⟩ := List.mem_filterMap.mp hm
    exact ht.standsFor_of_lookup? hl
  have htypes : ∀ id ∈ (hits.filterMap Entity.type?).foldl Extensions.insertNew [],
      Entity.StandsFor r.types arity (.type id) := by
    intro id hm
    have hm := (Extensions.mem_foldl_insertNew.mp hm).resolve_left List.not_mem_nil
    obtain ⟨entity, he, hid⟩ := List.mem_filterMap.mp hm
    intro found hfound
    obtain rfl := Option.some.inj hfound
    exact hhits entity he id hid
  unfold resolveSearched
  dsimp only
  split
  · split
    · rename_i entity hhead
      exact hhits entity (List.mem_of_head? hhead)
    · trivial
  · rename_i only htypes'
    exact htypes only (htypes' ▸ List.mem_cons_self)
  · rename_i first second rest htypes'
    exact htypes first (htypes' ▸ List.mem_cons_self)

theorem resolvesTo_resolve (ht : r.Tidy) (h : names.ClosedAliases r.types) (name : String) :
    ResolvesTo r.types arity (names.resolve r name arity) := by
  unfold resolve
  split
  · rename_i hl
    exact standsFor_of_lookup h hl
  · split
    · exact Entity.StandsFor.of_namespace _
    · exact resolvesTo_resolveSearched ht name

end NameScope

namespace Compile

variable {r : Runtime} {names : NameScope}

theorem mentionsParameter_of_typeNamed? (ht : r.Tidy) (h : names.ClosedAliases r.types)
    {name : String} {id : TypeId} (hf : typeNamed? r names name = some id) :
    r.types.mentionsParameter id = false := by
  unfold typeNamed? at hf
  split at hf
  · rename_i type hfull
    cases hf
    exact ht.mentionsParameter_of_findType? hfull
  · have hresolved : NameScope.ResolvesTo r.types 0 (names.resolve r name 0) :=
      NameScope.resolvesTo_resolve ht h name
    split at hf
    · rename_i entity he
      rw [he] at hresolved
      exact Entity.StandsFor.closed hresolved hf
    · rename_i first second he
      rw [he] at hresolved
      exact Entity.StandsFor.closed hresolved hf
    · cases hf

end Compile

end EventScript
