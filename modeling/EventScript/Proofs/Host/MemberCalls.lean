import EventScript.Proofs.Host.Extensions
import EventScript.Proofs.Host.Inheritance
import EventScript.Proofs.Host.MemberSearch
import EventScript.Proofs.Host.Reached
import Mathlib.Data.Finset.Card

namespace EventScript

open Building Extensions Relation

-- What a lookup is to find

namespace TypeTable

variable {t : TypeTable} {type owner other : TypeId} {name : String} {owners chain : List TypeId}
  {methods : List MethodId}

-- The methods that a type has from its definition.
def ownMethods (t : TypeTable) (type : TypeId) (name : String) : List MethodId :=
  t.methodsNamed (t.openDefinition type) name

-- A search for the methods of a name that comes to an end, with the types that it comes to and with
-- what it finds: the methods of the first type that declares any, or none where the last base has been
-- passed. Nothing bounds the steps, so no search goes around in a circle.
inductive MethodSearch (t : TypeTable) (name : String) :
    TypeId → List TypeId → List MethodId → Prop
  | declared {type : TypeId} :
      t.ownMethods type name ≠ [] → MethodSearch t name type [type] (t.ownMethods type name)
  | last {type : TypeId} :
      t.ownMethods type name = [] → t.base? type = Option.none →
      MethodSearch t name type [type] []
  | passed {type base : TypeId} {owners : List TypeId} {methods : List MethodId} :
      t.ownMethods type name = [] → t.base? type = some base →
      MethodSearch t name base owners methods → MethodSearch t name type (type :: owners) methods

-- Where following the bases comes to an end, every search does.
theorem BaseWalk.exists_methodSearch (h : t.BaseWalk type chain) (name : String) :
    ∃ owners methods, t.MethodSearch name type owners methods := by
  induction h with
  | @stop type hb =>
      by_cases hnone : t.ownMethods type name = []
      · exact ⟨_, _, .last hnone hb⟩
      · exact ⟨_, _, .declared hnone⟩
  | @step type base chain hb _ ih =>
      by_cases hnone : t.ownMethods type name = []
      · obtain ⟨owners, methods, hsearch⟩ := ih
        exact ⟨_, _, .passed hnone hb hsearch⟩
      · exact ⟨_, _, .declared hnone⟩

-- A step from a type that declares no method of the name to its base.
def PassesBy (t : TypeTable) (name : String) (type base : TypeId) : Prop :=
  t.ownMethods type name = [] ∧ t.Derives type base

theorem reflTransGen_derives (h : ReflTransGen (t.PassesBy name) type owner) :
    ReflTransGen t.Derives type owner :=
  h.lift id fun _ _ hpass => hpass.2

namespace MethodSearch

-- A search comes to a type if each one before it is passed by.
theorem mem_iff (h : t.MethodSearch name type owners methods) :
    owner ∈ owners ↔ ReflTransGen (t.PassesBy name) type owner := by
  have hend {type : TypeId} (hstuck : ∀ base, ¬t.PassesBy name type base) :
      owner ∈ [type] ↔ ReflTransGen (t.PassesBy name) type owner := by
    rw [List.mem_singleton]
    constructor
    · rintro rfl
      exact .refl
    · intro hup
      rcases hup.cases_head with rfl | ⟨base, hpass, -⟩
      · rfl
      · exact absurd hpass (hstuck base)
  induction h with
  | declared hsome => exact hend fun base hpass => hsome hpass.1
  | @last type _ hb => exact hend fun base hpass => by cases hb.symm.trans hpass.2
  | @passed type base owners methods hnone hb _ ih =>
      rw [List.mem_cons]
      constructor
      · rintro (rfl | hm)
        · exact .refl
        · exact .head ⟨hnone, hb⟩ (ih.mp hm)
      · intro hup
        rcases hup.cases_head with rfl | ⟨next, hpass, hrest⟩
        · exact .inl rfl
        · obtain rfl := Option.some.inj (hb.symm.trans hpass.2)
          exact .inr (ih.mpr hrest)

theorem eq_of_declared (h : t.MethodSearch name type owners methods)
    (hup : ReflTransGen (t.PassesBy name) type owner) (hsome : t.ownMethods owner name ≠ []) :
    methods = t.ownMethods owner name := by
  induction h with
  | declared hown =>
      rcases hup.cases_head with rfl | ⟨base, hpass, -⟩
      · rfl
      · exact absurd hpass.1 hown
  | last hnone hb =>
      rcases hup.cases_head with rfl | ⟨base, hpass, -⟩
      · exact absurd hnone hsome
      · cases hb.symm.trans hpass.2
  | passed hnone hb _ ih =>
      rcases hup.cases_head with rfl | ⟨base, hpass, hrest⟩
      · exact absurd hnone hsome
      · obtain rfl := Option.some.inj (hb.symm.trans hpass.2)
        exact ih hrest

theorem eq_nil (h : t.MethodSearch name type owners methods)
    (hnone : ∀ owner, ReflTransGen t.Derives type owner → t.ownMethods owner name = []) :
    methods = [] := by
  induction h with
  | declared hsome => exact absurd (hnone _ .refl) hsome
  | last => rfl
  | passed _ hb _ ih => exact ih fun owner hup => hnone owner (.head hb hup)

end MethodSearch

end TypeTable

namespace MemberCache

open TypeTable

variable {t : TypeTable} {type owner : TypeId} {name : String} {owners : List TypeId}
  {methods : List MethodId} {cache : MemberCache}

-- The types that a lookup along others comes to: all up to the first that declares the name.
def consulted (t : TypeTable) (name : String) : List TypeId → List TypeId
  | [] => []
  | owner :: owners =>
    if t.ownMethods owner name = [] then owner :: consulted t name owners else [owner]

theorem consulted_of_undeclared (h : ∀ owner ∈ owners, t.ownMethods owner name = []) :
    consulted t name owners = owners := by
  induction owners with
  | nil => rfl
  | cons owner owners ih =>
      obtain ⟨howner, howners⟩ := List.forall_mem_cons.mp h
      rw [consulted, if_pos howner, ih howners]

theorem passesBy_of_mem_consulted {bound : Nat}
    (h : owner ∈ consulted t name (type :: t.baseChainWithin bound type)) :
    ReflTransGen (t.PassesBy name) type owner := by
  induction bound generalizing type with
  | zero =>
      rw [baseChainWithin, consulted, consulted, ite_self, List.mem_singleton] at h
      rw [h]
  | succ bound ih =>
      rw [consulted] at h
      split at h
      · rename_i hnone
        rcases List.mem_cons.mp h with rfl | h
        · exact .refl
        · rw [baseChainWithin] at h
          split at h
          · rename_i base hb
            exact .head ⟨hnone, hb⟩ (ih h)
          · cases h
      · rw [List.mem_singleton.mp h]

-- A walk that goes on where the chain has been cut off has passed all of the chain by.
theorem mem_consulted_or_undeclared {bound : Nat}
    (h : ReflTransGen (t.PassesBy name) type owner) :
    owner ∈ consulted t name (type :: t.baseChainWithin bound type) ∨
      ∀ passed ∈ type :: t.baseChainWithin bound type, t.ownMethods passed name = [] := by
  induction bound generalizing type with
  | zero =>
      rw [baseChainWithin, consulted, consulted, ite_self, List.forall_mem_singleton]
      rcases h.cases_head with rfl | ⟨base, hpass, -⟩
      · exact .inl List.mem_cons_self
      · exact .inr hpass.1
  | succ bound ih =>
      rcases h.cases_head with rfl | ⟨base, ⟨hnone, hb⟩, hrest⟩
      · rw [consulted]
        split
        · exact .inl List.mem_cons_self
        · exact .inl List.mem_cons_self
      · rw [baseChainWithin, show t.base? type = some base from hb, consulted, if_pos hnone]
        rcases ih hrest with hm | hall
        · exact .inl (List.mem_cons_of_mem _ hm)
        · exact .inr (List.forall_mem_cons.mpr ⟨hnone, hall⟩)

-- The chain is long enough for every lookup, also where bases run in a circle.
theorem mem_consulted_iff :
    owner ∈ consulted t name (t.selfAndBases type) ↔
      ReflTransGen (t.PassesBy name) type owner := by
  refine ⟨passesBy_of_mem_consulted, fun h => ?_⟩
  rcases mem_consulted_or_undeclared h with hm | hnone
  · exact hm
  · have hall : consulted t name (t.selfAndBases type) = t.selfAndBases type :=
      consulted_of_undeclared hnone
    rw [hall]
    exact mem_selfAndBases_iff.mpr (reflTransGen_derives h)

theorem answer_lookupAlong_cases (t : TypeTable) (name : String) (owners : List TypeId) :
    (∃ owner ∈ consulted t name owners, t.ownMethods owner name ≠ [] ∧
        (lookupAlong t name owners).answer = t.ownMethods owner name) ∨
      (∀ owner ∈ owners, t.ownMethods owner name = []) ∧
        (lookupAlong t name owners).answer = [] := by
  induction owners with
  | nil => exact .inr ⟨List.forall_mem_nil _, rfl⟩
  | cons owner owners ih =>
      rw [MemberSearch.answer_lookupAlong_cons, consulted, ← ownMethods]
      by_cases hnone : t.ownMethods owner name = []
      · rw [if_pos hnone, if_pos hnone]
        rcases ih with ⟨found, hm, hsome, hanswer⟩ | ⟨hall, hanswer⟩
        · exact .inl ⟨found, List.mem_cons_of_mem _ hm, hsome, hanswer⟩
        · exact .inr ⟨List.forall_mem_cons.mpr ⟨hnone, hall⟩, hanswer⟩
      · rw [if_neg hnone, if_neg hnone]
        exact .inl ⟨owner, List.mem_cons_self, hnone, rfl⟩

-- The lookup finds what every search finds that comes to an end.
theorem answer_lookup (h : t.MethodSearch name type owners methods) :
    (lookup t type name).answer = methods := by
  rcases answer_lookupAlong_cases t name (t.selfAndBases type) with
    ⟨owner, hm, hsome, hanswer⟩ | ⟨hnone, hanswer⟩
  · rw [lookup, hanswer, h.eq_of_declared (mem_consulted_iff.mp hm) hsome]
  · rw [lookup, hanswer, h.eq_nil fun owner hup => hnone owner (mem_selfAndBases_iff.mpr hup)]

-- What a search leaves in the cache

-- The definitions that have an index, in the order in which they came to it.
def definitions (cache : MemberCache) : List TypeId := cache.entries.map (·.1)

theorem length_definitions (cache : MemberCache) : cache.definitions.length = cache.size :=
  List.length_map _

theorem lookup_eq_none_iff {definition : TypeId} :
    cache.entries.lookup definition = Option.none ↔ definition ∉ cache.definitions := by
  rw [List.lookup_eq_none_iff, definitions, List.mem_map, not_exists]
  refine forall_congr' fun entry => ?_
  rw [not_and, bne_iff_ne, ne_comm]

theorem definitions_members (t : TypeTable) (type : TypeId) (cache : MemberCache) :
    (members t type cache).2.definitions =
      insertNew cache.definitions (t.openDefinition type) := by
  unfold members
  cases hl : cache.entries.lookup (t.openDefinition type) with
  | some index =>
      have hm : t.openDefinition type ∈ cache.definitions := by
        by_contra hn
        rw [lookup_eq_none_iff.mpr hn] at hl
        cases hl
      simp only [hl, insertNew_of_mem hm]
  | none =>
      rw [insertNew_of_not_mem (lookup_eq_none_iff.mp hl)]
      simp only [hl, definitions, List.map_append, List.map_cons, List.map_nil]

-- A definition that has an index is not indexed again.
theorem members_of_mem (hs : cache.Sound t) (hm : t.openDefinition type ∈ cache.definitions) :
    members t type cache = (MemberIndex.build t (t.openDefinition type), cache) := by
  refine Prod.ext (MemberSearch.steady_members type cache hs).1 ?_
  unfold members
  cases hl : cache.entries.lookup (t.openDefinition type) with
  | some index => simp only [hl]
  | none => exact absurd hm (lookup_eq_none_iff.mp hl)

theorem definitions_lookupAlong (hs : cache.Sound t) (owners : List TypeId) :
    (lookupAlong t name owners cache).2.definitions =
      ((consulted t name owners).map t.openDefinition).foldl insertNew cache.definitions := by
  induction owners generalizing cache with
  | nil => rfl
  | cons owner owners ih =>
      obtain ⟨hindex, hsound⟩ := MemberSearch.steady_members (t := t) owner cache hs
      have hcontains := MemberIndex.contains_build t (t.openDefinition owner) name
      rw [MemberSearch.answer_members] at hindex
      rw [lookupAlong, MemberSearch.bind_apply, hindex, consulted]
      by_cases hnone : t.ownMethods owner name = []
      · rw [if_neg fun hc => hcontains.mp hc hnone, if_pos hnone, ih hsound, definitions_members]
        rfl
      · rw [if_pos (hcontains.mpr hnone), if_neg hnone, MemberSearch.pure_apply,
          definitions_members]
        rfl

end MemberCache

-- Calls one after another

-- What a cache can be asked for.
inductive MemberCall where
  | members (type : TypeId)
  | lookup (type : TypeId) (name : String)

namespace MemberCall

open MemberCache

variable {t : TypeTable} {cache : MemberCache}

-- The cache that a call leaves.
def run (t : TypeTable) (cache : MemberCache) : MemberCall → MemberCache
  | members type => (MemberCache.members t type cache).2
  | lookup type name => (MemberCache.lookup t type name cache).2

-- The cache that calls leave which begin with an empty one.
def runAll (t : TypeTable) (calls : List MemberCall) : MemberCache := calls.foldl (run t) .empty

-- A call that returns, with the definitions that it comes to.
inductive Visits (t : TypeTable) : MemberCall → List TypeId → Prop
  | members (type : TypeId) : Visits t (members type) [t.openDefinition type]
  | lookup {type : TypeId} {name : String} {owners : List TypeId} {methods : List MethodId} :
      t.MethodSearch name type owners methods →
      Visits t (lookup type name) (owners.map t.openDefinition)

def visited (t : TypeTable) : MemberCall → List TypeId
  | members type => [t.openDefinition type]
  | lookup type name => (consulted t name (t.selfAndBases type)).map t.openDefinition

theorem Visits.mem_iff {call : MemberCall} {definitions : List TypeId}
    (h : call.Visits t definitions) {definition : TypeId} :
    definition ∈ call.visited t ↔ definition ∈ definitions := by
  cases h with
  | members type => rfl
  | lookup hsearch =>
      rw [visited, List.mem_map, List.mem_map]
      exact exists_congr fun owner =>
        and_congr_left fun _ => mem_consulted_iff.trans hsearch.mem_iff.symm

theorem mem_flatten_iff {calls : List MemberCall} {visits : List (List TypeId)}
    (h : List.Forall₂ (Visits t) calls visits) {definition : TypeId} :
    definition ∈ calls.flatMap (visited t) ↔ definition ∈ visits.flatten := by
  induction h with
  | nil => rfl
  | cons hvisits _ ih =>
      rw [List.flatMap_cons, List.flatten_cons, List.mem_append, List.mem_append, hvisits.mem_iff,
        ih]

theorem sound_run (hs : cache.Sound t) (call : MemberCall) : (call.run t cache).Sound t := by
  cases call with
  | members type => exact (MemberSearch.steady_members type cache hs).2
  | lookup type name => exact (MemberSearch.steady_lookup type name cache hs).2

theorem definitions_run (hs : cache.Sound t) (call : MemberCall) :
    (call.run t cache).definitions = (call.visited t).foldl insertNew cache.definitions := by
  cases call with
  | members type => exact definitions_members t type cache
  | lookup type name => exact definitions_lookupAlong hs _

-- By induction on the calls: every index is right, and what has been visited is indexed in the order
-- of the first visits.
theorem foldl_run (hs : cache.Sound t) (calls : List MemberCall) :
    (calls.foldl (run t) cache).Sound t ∧
      (calls.foldl (run t) cache).definitions =
        (calls.flatMap (visited t)).foldl insertNew cache.definitions := by
  induction calls generalizing cache with
  | nil => exact ⟨hs, rfl⟩
  | cons call calls ih =>
      obtain ⟨hsound, hdefinitions⟩ := ih (sound_run hs call)
      refine ⟨hsound, ?_⟩
      rw [List.foldl_cons, hdefinitions, definitions_run hs, List.flatMap_cons, List.foldl_append]

theorem sound_runAll (t : TypeTable) (calls : List MemberCall) : (runAll t calls).Sound t :=
  (foldl_run (MemberSearch.sound_empty t) calls).1

theorem size_runAll {calls : List MemberCall} {visits : List (List TypeId)}
    (h : List.Forall₂ (Visits t) calls visits) :
    (runAll t calls).size = visits.flatten.toFinset.card := by
  obtain hdefinitions := (foldl_run (MemberSearch.sound_empty t) calls).2
  have hnodup : (runAll t calls).definitions.Nodup := by
    rw [runAll, hdefinitions]
    exact nodup_foldl_insertNew List.nodup_nil _
  have hset : (runAll t calls).definitions.toFinset = visits.flatten.toFinset := by
    ext definition
    rw [List.mem_toFinset, List.mem_toFinset, ← mem_flatten_iff h, runAll, hdefinitions,
      mem_foldl_insertNew]
    exact or_iff_right List.not_mem_nil
  rw [← hset, List.toFinset_card_of_nodup hnodup, length_definitions]

-- A class with a base, a method of each, and a generic class with an instance.
def colonySteps : List BuildStep :=
  [.define "Game" "Planet" .classType,
    .define "Game" "Colony" .classType,
    .setBase ⟨22⟩ ⟨21⟩,
    .addMethod ⟨21⟩ { name := "Size", parameters := [], returns := .numeric .int32 },
    .addMethod ⟨22⟩ { name := "Grow", parameters := [], returns := .numeric .int32 },
    .defineGeneric "Game" "Crew" .classType ["T"],
    .instantiate ⟨23⟩ [.numeric .int32]]

def colonies : TypeTable :=
  colonySteps.foldl (fun t s => (outcome (s.run nestingLimit) t).2) .initial

end MemberCall

end EventScript
