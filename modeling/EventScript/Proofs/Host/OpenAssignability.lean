import EventScript.Proofs.Host.Assignability
import EventScript.Proofs.Host.OpenTypes
import EventScript.Proofs.Host.Parameters
import Mathlib.Logic.Function.Basic

namespace EventScript

open Building

namespace TypeTree

mutual

-- The parameters that occur in a type, each with what stands in its place in the other type; none
-- if the types differ in anything else.
def pairing? (t : TypeTable) : TypeTree → TypeTree → Option (List (TypeId × TypeId))
  | node id arguments, other =>
    if t.isGenericParameter id then some [(id, other.id)]
    else
      match (t.get id).shape with
      | .plain => if other.id = id then some [] else none
      | .definition parameters =>
        if other.id = id then some (parameters.zip parameters)
        else if t.isInstanceOf other.id id then some (parameters.zip (t.genericArguments other.id))
        else none
      | .instanceOf definition _ =>
        if t.isInstanceOf other.id definition then allPairings? t arguments other.arguments
        else none

def allPairings? (t : TypeTable) :
    List TypeTree → List TypeTree → Option (List (TypeId × TypeId))
  | [], [] => some []
  | tree :: rest, other :: others => do
    let first ← pairing? t tree other
    some (first ++ (← allPairings? t rest others))
  | _, _ => none

end

end TypeTree

namespace TypeTable

variable {t : TypeTable} {assigned : TypeId → TypeId}
  {pattern type target source candidate id definition : TypeId}
  {own results parameters : List TypeId} {pairs : List (TypeId × TypeId)}

-- The second type is the first with assigned types in the place of its generic parameters. A
-- definition becomes its instances, and itself if its parameters stay as they are.
inductive Becomes (t : TypeTable) (assigned : TypeId → TypeId) : TypeId → TypeId → Prop
  | parameter {id : TypeId} : t.isGenericParameter id = true → Becomes t assigned id (assigned id)
  | plain {id : TypeId} : t.isGenericParameter id = false → (t.get id).shape = .plain →
      Becomes t assigned id id
  | unchanged {id : TypeId} {parameters : List TypeId} : t.isGenericParameter id = false →
      (t.get id).shape = .definition parameters → parameters.map assigned = parameters →
      Becomes t assigned id id
  | instantiated {id result : TypeId} {parameters : List TypeId} :
      t.isGenericParameter id = false → (t.get id).shape = .definition parameters →
      (t.get result).shape = .instanceOf id (parameters.map assigned) →
      Becomes t assigned id result
  | applied {id result definition : TypeId} {own results : List TypeId} :
      t.isGenericParameter id = false → (t.get id).shape = .instanceOf definition own →
      (t.get result).shape = .instanceOf definition results → own.length = results.length →
      (∀ a b, (a, b) ∈ own.zip results → Becomes t assigned a b) →
      Becomes t assigned id result

-- Whether the places of one parameter in the first type hold one type in the second, and everything
-- else is the same.
def agrees (t : TypeTable) (pattern type : TypeId) : Bool :=
  ((t.tree pattern).pairing? t (t.tree type)).any fun pairs =>
    pairs.all fun pair => pairs.all fun other => pair.1 ≠ other.1 || pair.2 = other.2

theorem exists_assigned_iff :
    (∃ assigned : TypeId → TypeId, ∀ pair ∈ pairs, assigned pair.1 = pair.2) ↔
      ∀ pair ∈ pairs, ∀ other ∈ pairs, pair.1 = other.1 → pair.2 = other.2 := by
  constructor
  · rintro ⟨assigned, h⟩ pair hp other ho he
    rw [← h pair hp, ← h other ho, he]
  · intro h
    have hfactors : (fun pair : {pair // pair ∈ pairs} => pair.1.2).FactorsThrough
        fun pair => pair.1.1 := fun pair other he => h pair.1 pair.2 other.1 other.2 he
    obtain ⟨assigned, ha⟩ := (Function.factorsThrough_iff _).mp hfactors
    exact ⟨assigned, fun pair hp => (congrFun ha ⟨pair, hp⟩).symm⟩

theorem map_eq_iff_forall_mem_zip (hl : parameters.length = own.length) :
    parameters.map assigned = own ↔ ∀ pair ∈ parameters.zip own, assigned pair.1 = pair.2 := by
  rw [← List.forall₂_eq_eq_eq, List.forall₂_map_left_iff, List.forall₂_iff_zip]
  simp [hl]

@[simp] theorem isInstanceOf_iff :
    t.isInstanceOf id definition = true ↔ ∃ own, (t.get id).shape = .instanceOf definition own := by
  unfold isInstanceOf
  cases (t.get id).shape <;> simp [eq_comm]

-- What pairing makes of each kind of type

theorem pairing?_parameter (hk : t.isGenericParameter pattern = true) :
    (t.tree pattern).pairing? t (t.tree type) = some [(pattern, type)] := by
  rw [tree_eq, TypeTree.pairing?, if_pos hk, id_tree]

theorem pairing?_plain (hk : t.isGenericParameter pattern = false)
    (hs : (t.get pattern).shape = .plain) :
    (t.tree pattern).pairing? t (t.tree type) = if type = pattern then some [] else none := by
  rw [tree_eq, TypeTree.pairing?, hk, hs, id_tree]
  rfl

theorem pairing?_definition (hk : t.isGenericParameter pattern = false)
    (hs : (t.get pattern).shape = .definition parameters) :
    (t.tree pattern).pairing? t (t.tree type) =
      if type = pattern then some (parameters.zip parameters)
      else if t.isInstanceOf type pattern then some (parameters.zip (t.genericArguments type))
      else none := by
  rw [tree_eq, TypeTree.pairing?, hk, hs, id_tree]
  rfl

theorem pairing?_instanceOf (hk : t.isGenericParameter pattern = false)
    (hs : (t.get pattern).shape = .instanceOf definition own) :
    (t.tree pattern).pairing? t (t.tree type) =
      if t.isInstanceOf type definition then
        TypeTree.allPairings? t (own.map t.tree) ((t.genericArguments type).map t.tree)
      else none := by
  rw [tree_eq t pattern, genericArguments_of_shape hs, TypeTree.pairing?, hk, hs, id_tree, tree_eq,
    TypeTree.arguments]
  rfl

-- The pairs are what has to hold of the assigned types for one type to become the other.
def Solves (t : TypeTable) (assigned : TypeId → TypeId) (pattern type : TypeId) : Prop :=
  ∃ pairs, (t.tree pattern).pairing? t (t.tree type) = some pairs ∧
    ∀ pair ∈ pairs, assigned pair.1 = pair.2

theorem forall₂_of_allPairings? {types : List TypeId}
    (h : TypeTree.allPairings? t (own.map t.tree) (types.map t.tree) = some pairs)
    (ha : ∀ pair ∈ pairs, assigned pair.1 = pair.2) :
    List.Forall₂ (t.Solves assigned) own types := by
  induction own generalizing types pairs with
  | nil =>
      cases types with
      | nil => exact .nil
      | cons type types => simp [TypeTree.allPairings?] at h
  | cons pattern own ih =>
      cases types with
      | nil => simp [TypeTree.allPairings?] at h
      | cons type types =>
          rw [List.map_cons, List.map_cons, TypeTree.allPairings?] at h
          obtain ⟨first, hf, h⟩ := Option.bind_eq_some_iff.mp h
          obtain ⟨rest, hr, h⟩ := Option.bind_eq_some_iff.mp h
          obtain rfl := Option.some.inj h
          obtain ⟨hfirst, hrest⟩ := List.forall_mem_append.mp ha
          exact .cons ⟨first, hf, hfirst⟩ (ih hr hrest)

theorem exists_allPairings? {types : List TypeId} (h : List.Forall₂ (t.Solves assigned) own types) :
    ∃ pairs, TypeTree.allPairings? t (own.map t.tree) (types.map t.tree) = some pairs ∧
      ∀ pair ∈ pairs, assigned pair.1 = pair.2 := by
  induction h with
  | nil => exact ⟨[], rfl, List.forall_mem_nil _⟩
  | cons hfirst _ ih =>
      obtain ⟨first, hf, hfirst⟩ := hfirst
      obtain ⟨rest, hr, hrest⟩ := ih
      refine ⟨first ++ rest, ?_, List.forall_mem_append.mpr ⟨hfirst, hrest⟩⟩
      rw [List.map_cons, List.map_cons, TypeTree.allPairings?, hf, hr]
      rfl

theorem becomes_of_solves (hw : t.WellFormed) (h : t.Solves assigned pattern type) :
    t.Becomes assigned pattern type := by
  induction pattern using hw.type_induction generalizing type with
  | parameter pattern hk =>
      obtain ⟨pairs, hp, ha⟩ := h
      rw [pairing?_parameter hk] at hp
      obtain rfl := Option.some.inj hp
      obtain rfl : assigned pattern = type := ha (pattern, type) List.mem_cons_self
      exact .parameter hk
  | plain pattern hk hs =>
      obtain ⟨pairs, hp, -⟩ := h
      rw [pairing?_plain hk hs] at hp
      split at hp
      · rename_i he
        subst he
        exact .plain hk hs
      · cases hp
  | definition pattern parameters hk hs =>
      obtain ⟨pairs, hp, ha⟩ := h
      rw [pairing?_definition hk hs] at hp
      split at hp
      · rename_i he
        subst he
        obtain rfl := Option.some.inj hp
        exact .unchanged hk hs ((map_eq_iff_forall_mem_zip rfl).mpr ha)
      split at hp
      · rename_i hi
        obtain ⟨own, hi⟩ := isInstanceOf_iff.mp hi
        obtain rfl := Option.some.inj hp
        obtain ⟨parameters', hs', hl⟩ := hw.exists_parameters hi
        obtain rfl := GenericShape.definition.inj (hs.symm.trans hs')
        rw [genericArguments_of_shape hi] at ha
        rw [← (map_eq_iff_forall_mem_zip hl).mpr ha] at hi
        exact .instantiated hk hs hi
      · cases hp
  | applied pattern definition own hk hs ih =>
      obtain ⟨pairs, hp, ha⟩ := h
      rw [pairing?_instanceOf hk hs] at hp
      split at hp
      · rename_i hi
        obtain ⟨results, hi⟩ := isInstanceOf_iff.mp hi
        rw [genericArguments_of_shape hi] at hp
        obtain ⟨hl, hsolves⟩ := List.forall₂_iff_zip.mp (forall₂_of_allPairings? hp ha)
        exact .applied hk hs hi hl fun a b hm => ih a (List.of_mem_zip hm).1 (hsolves hm)
      · cases hp

theorem Becomes.solves (h : t.Becomes assigned pattern type) :
    t.Solves assigned pattern type := by
  induction h with
  | parameter hk => exact ⟨_, pairing?_parameter hk, by simp⟩
  | plain hk hs => exact ⟨_, (pairing?_plain hk hs).trans (if_pos rfl), List.forall_mem_nil _⟩
  | unchanged hk hs hm =>
      refine ⟨_, (pairing?_definition hk hs).trans (if_pos rfl), ?_⟩
      exact (map_eq_iff_forall_mem_zip rfl).mp hm
  | @instantiated id result parameters hk hs hi =>
      have hne : result ≠ id := by
        rintro rfl
        cases hs.symm.trans hi
      refine ⟨parameters.zip (parameters.map assigned), ?_, ?_⟩
      · rw [pairing?_definition hk hs, if_neg hne, if_pos (isInstanceOf_iff.mpr ⟨_, hi⟩),
          genericArguments_of_shape hi]
      · exact (map_eq_iff_forall_mem_zip (List.length_map _).symm).mp rfl
  | applied hk hs hi hl _ ih =>
      obtain ⟨pairs, hp, ha⟩ :=
        exists_allPairings? (List.forall₂_iff_zip.mpr ⟨hl, fun hm => ih _ _ hm⟩)
      refine ⟨pairs, ?_, ha⟩
      rw [pairing?_instanceOf hk hs, if_pos (isInstanceOf_iff.mpr ⟨_, hi⟩),
        genericArguments_of_shape hi, hp]

theorem agrees_iff (hw : t.WellFormed) :
    t.agrees pattern type = true ↔ ∃ assigned, t.Becomes assigned pattern type := by
  have hpairs (pairs : List (TypeId × TypeId)) :
      (pairs.all fun pair => pairs.all fun other => pair.1 ≠ other.1 || pair.2 = other.2) = true ↔
        ∃ assigned : TypeId → TypeId, ∀ pair ∈ pairs, assigned pair.1 = pair.2 := by
    rw [exists_assigned_iff]
    simp only [List.all_eq_true, Bool.or_eq_true, decide_eq_true_eq, ne_eq, ← imp_iff_not_or]
  rw [agrees, Option.any_eq_true]
  constructor
  · rintro ⟨pairs, hp, hall⟩
    obtain ⟨assigned, ha⟩ := (hpairs pairs).mp hall
    exact ⟨assigned, becomes_of_solves hw ⟨pairs, hp, ha⟩⟩
  · rintro ⟨assigned, hb⟩
    obtain ⟨pairs, hp, ha⟩ := hb.solves
    exact ⟨pairs, hp, (hpairs pairs).mpr ⟨assigned, ha⟩⟩

theorem agrees_of_isGenericParameter (hw : t.WellFormed)
    (hk : t.isGenericParameter pattern = true) : t.agrees pattern type = true :=
  (agrees_iff hw).mpr ⟨fun _ => type, .parameter hk⟩

-- A closed type becomes itself, whatever is assigned.
theorem becomes_of_closed (hw : t.WellFormed) (h : t.mentionsParameter id = false) :
    t.Becomes assigned id id := by
  induction id using hw.type_induction with
  | parameter id hk =>
      rw [isGenericParameter_of_closed h] at hk
      cases hk
  | plain id hk hs => exact .plain hk hs
  | definition id parameters hk hs =>
      rw [mentionsParameter_of_definition hk hs] at h
      cases h
  | applied id definition own hk hs ih =>
      have hown := (mentionsParameter_instanceOf_eq_false hk hs).mp h
      have hself : List.Forall₂ (t.Becomes assigned) own own :=
        List.forall₂_same.mpr fun a ha => ih a ha (hown a ha)
      exact .applied hk hs hs rfl fun a b hm => List.forall₂_zip hself hm

theorem Becomes.eq_of_closed (hw : t.WellFormed) (h : t.Becomes assigned pattern type)
    (hclosed : t.mentionsParameter pattern = false) : type = pattern := by
  induction h with
  | parameter hk =>
      rw [isGenericParameter_of_closed hclosed] at hk
      cases hk
  | plain => rfl
  | unchanged => rfl
  | instantiated hk hs _ =>
      rw [mentionsParameter_of_definition hk hs] at hclosed
      cases hclosed
  | @applied id result definition own results hk hs hr hl _ ih =>
      have hown := (mentionsParameter_instanceOf_eq_false hk hs).mp hclosed
      have hsame : List.Forall₂ (fun a b => b = a) own results := List.forall₂_iff_zip.mpr
        ⟨hl, fun hm => ih _ _ hm (hown _ (List.of_mem_zip hm).1)⟩
      obtain rfl : own = results := List.forall₂_eq_eq_eq ▸ hsame.imp fun _ _ he => he.symm
      have hid := hw.findInstance?_eq_some.mpr ⟨contains_of_shape hs, hs⟩
      have hresult := hw.findInstance?_eq_some.mpr ⟨contains_of_shape hr, hr⟩
      exact Option.some.inj (hresult.symm.trans hid)

theorem Becomes.openDefinition_eq (hk : t.isGenericParameter pattern = false)
    (h : t.Becomes assigned pattern type) : t.openDefinition type = t.openDefinition pattern := by
  cases h with
  | parameter hk' => exact absurd (hk.symm.trans hk') (by decide)
  | plain => rfl
  | unchanged => rfl
  | instantiated _ hs hr => rw [openDefinition, openDefinition, hs, hr]
  | applied _ hs hr => rw [openDefinition, openDefinition, hs, hr]

theorem Becomes.kind_eq (hw : t.WellFormed) (hk : t.isGenericParameter pattern = false)
    (h : t.Becomes assigned pattern type) : t.kind type = t.kind pattern := by
  cases h with
  | parameter hk' => exact absurd (hk.symm.trans hk') (by decide)
  | plain => rfl
  | unchanged => rfl
  | instantiated _ _ hr => exact hw.kind_of_instance (contains_of_shape hr) hr
  | applied _ hs hr =>
      rw [hw.kind_of_instance (contains_of_shape hr) hr,
        hw.kind_of_instance (contains_of_shape hs) hs]

-- The target with assigned types in the place of its parameters accepts the source.
def AcceptsUnder (t : TypeTable) (assigned : TypeId → TypeId) (target source : TypeId) : Prop :=
  ∃ type, t.Becomes assigned target type ∧ t.isAssignable type source = true

theorem exists_acceptsUnder_iff (hw : t.WellFormed) :
    (∃ assigned, t.AcceptsUnder assigned target source) ↔
      ∃ candidate, t.isAssignable candidate source = true ∧ t.agrees target candidate = true := by
  constructor
  · rintro ⟨assigned, candidate, hb, ha⟩
    exact ⟨candidate, ha, (agrees_iff hw).mpr ⟨assigned, hb⟩⟩
  · rintro ⟨candidate, ha, hagrees⟩
    obtain ⟨assigned, hb⟩ := (agrees_iff hw).mp hagrees
    exact ⟨assigned, candidate, hb, ha⟩

theorem mem_lineage_of_isAssignable (ho : t.kind target ≠ .object)
    (h : t.isAssignable target source = true) : target ∈ t.lineage source := by
  rw [lineage, selfAndBases, List.mem_append, List.mem_cons]
  rcases isAssignable_iff.mp h with he | ⟨-, -, -, ho' | hb | ⟨-, hi⟩⟩
  · exact .inl (.inl he)
  · exact absurd ho' ho
  · exact .inl (.inr hb)
  · exact .inr hi

-- Nothing that some types in the place of the parameters accept is refused. Instances of a type
-- that everything passes for would accept more than is searched for.
theorem isAssignableOpen_of_acceptsUnder (hw : t.WellFormed)
    (ho : t.kind target = .object → t.mentionsParameter target = false)
    (h : t.AcceptsUnder assigned target source) : t.isAssignableOpen target source = true := by
  obtain ⟨type, hb, ha⟩ := h
  unfold isAssignableOpen
  split
  · rfl
  rename_i hk
  rw [Bool.not_eq_true] at hk
  split
  · rename_i hopen
    have hkind : t.kind type ≠ .object := by
      rw [hb.kind_eq hw hk]
      intro he
      rw [ho he] at hopen
      cases hopen
    rw [List.any_eq_true]
    exact ⟨type, mem_lineage_of_isAssignable hkind ha, decide_eq_true (hb.openDefinition_eq hk)⟩
  · rename_i hclosed
    rwa [hb.eq_of_closed hw (Bool.eq_false_iff.mpr hclosed)] at ha

-- The target has nothing but different parameters for arguments, or is the definition itself.
inductive Wildcards (t : TypeTable) (definition : TypeId) : TypeId → Prop
  | bare {parameters : List TypeId} : (t.get definition).shape = .definition parameters →
      Wildcards t definition definition
  | applied {target : TypeId} {own : List TypeId} :
      (t.get target).shape = .instanceOf definition own → own.Nodup →
      (∀ a ∈ own, t.isGenericParameter a = true) → Wildcards t definition target

theorem exists_map_eq (hn : own.Nodup) (hl : own.length = results.length) :
    ∃ assigned : TypeId → TypeId, own.map assigned = results := by
  induction own generalizing results with
  | nil =>
      obtain rfl := List.length_eq_zero_iff.mp hl.symm
      exact ⟨id, rfl⟩
  | cons a own ih =>
      cases results with
      | nil => cases hl
      | cons b results =>
          obtain ⟨ha, hn⟩ := List.nodup_cons.mp hn
          obtain ⟨assigned, rfl⟩ := ih hn (Nat.succ.inj hl)
          refine ⟨Function.update assigned a b, ?_⟩
          rw [List.map_cons, Function.update_self]
          congr 1
          exact List.map_congr_left fun c hc =>
            Function.update_of_ne (fun he : c = a => ha (he ▸ hc)) b assigned

-- Such a target becomes every instance of the definition.
theorem agrees_of_wildcards (hw : t.WellFormed) (hp : t.NumbersParameters)
    (h : t.Wildcards definition target) (hc : t.isInstanceOf candidate definition = true) :
    t.agrees target candidate = true := by
  by_cases hk : t.isGenericParameter target = true
  · exact agrees_of_isGenericParameter hw hk
  rw [Bool.not_eq_true] at hk
  obtain ⟨results, hr⟩ := isInstanceOf_iff.mp hc
  obtain ⟨parameters, hs, hl⟩ := hw.exists_parameters hr
  refine (agrees_iff hw).mpr ?_
  cases h with
  | bare hs' =>
      obtain ⟨assigned, rfl⟩ := exists_map_eq (hp.nodup hs) hl
      exact ⟨assigned, .instantiated hk hs hr⟩
  | applied ht hn ha =>
      obtain ⟨parameters', hs', hl'⟩ := hw.exists_parameters ht
      obtain rfl := GenericShape.definition.inj (hs.symm.trans hs')
      have hlength := hl'.symm.trans hl
      obtain ⟨assigned, hmap⟩ := exists_map_eq hn hlength
      have hassigned := (map_eq_iff_forall_mem_zip hlength).mp hmap
      refine ⟨assigned, .applied hk ht hr hlength fun a b hm => ?_⟩
      obtain rfl : assigned a = b := hassigned (a, b) hm
      exact .parameter (ha a (List.of_mem_zip hm).1)

-- The search compares definitions only. What it accepts is accepted with some types in the place of
-- the parameters exactly if the arguments agree as well, as they do if they are nothing but
-- different parameters; and what is accepted so is found.
theorem isAssignableOpen_instantiations (ht : t.Reached) :
    (t.isAssignableOpen target source = true →
      ((∃ assigned, t.AcceptsUnder assigned target source) ↔
        t.isGenericParameter target = true ∨ t.mentionsParameter target = false ∨
          ∃ candidate, t.isAssignable candidate source = true ∧
            t.openDefinition candidate = t.openDefinition target ∧
            t.agrees target candidate = true)) ∧
    (∀ definition candidate, t.Wildcards definition target →
      t.isInstanceOf candidate definition = true → t.isAssignable candidate source = true →
      ∃ assigned, t.AcceptsUnder assigned target source) ∧
    ((t.kind target = .object → t.mentionsParameter target = false) →
      (∃ assigned, t.AcceptsUnder assigned target source) →
      t.isAssignableOpen target source = true) := by
  have hw := ht.wellFormed.1
  refine ⟨fun h => ?_, fun definition candidate hwild hc ha => ?_, fun ho h => ?_⟩
  · rw [exists_acceptsUnder_iff hw]
    constructor
    · rintro ⟨candidate, ha, hagrees⟩
      by_cases hk : t.isGenericParameter target = true
      · exact .inl hk
      rw [Bool.not_eq_true] at hk
      obtain ⟨assigned, hb⟩ := (agrees_iff hw).mp hagrees
      exact .inr (.inr ⟨candidate, ha, hb.openDefinition_eq hk, hagrees⟩)
    · rintro (hk | hclosed | ⟨candidate, ha, -, hagrees⟩)
      · exact ⟨source, isAssignable_iff.mpr (.inl rfl), agrees_of_isGenericParameter hw hk⟩
      · have hself : t.Becomes id target target := becomes_of_closed hw hclosed
        have hclosed' : t.isAssignable target source = true := by
          rwa [isAssignableOpen, isGenericParameter_of_closed hclosed, hclosed] at h
        exact ⟨target, hclosed', (agrees_iff hw).mpr ⟨id, hself⟩⟩
      · exact ⟨candidate, ha, hagrees⟩
  · have hagrees := agrees_of_wildcards hw ht.numbersParameters hwild hc
    exact (exists_acceptsUnder_iff hw).mpr ⟨candidate, ha, hagrees⟩
  · obtain ⟨assigned, ha⟩ := h
    exact isAssignableOpen_of_acceptsUnder hw ho ha

-- A generic class with two parameters, one instance for the first of them and a whole number, and
-- two instances for closed types.
def pairSteps : List BuildStep :=
  [.defineGeneric "Demo" "Pair" .classType ["A", "B"],
    .instantiate ⟨21⟩ [⟨22⟩, .numeric .int32],
    .instantiate ⟨21⟩ [.string, .boolean],
    .instantiate ⟨21⟩ [.string, .numeric .int32]]

def pairTable : TypeTable :=
  pairSteps.foldl (fun t s => (outcome (s.run nestingLimit) t).2) .initial

theorem reached_pairTable : pairTable.Reached := Reached.initial.foldl (by decide +kernel)

-- A text and a whole number are accepted by the instance for any first type and a whole number.
theorem isAssignableOpen_instantiations_pair :
    pairTable.Reached ∧ pairTable.isAssignableOpen ⟨24⟩ ⟨26⟩ = true ∧
      ∃ assigned, pairTable.AcceptsUnder assigned ⟨24⟩ ⟨26⟩ := by
  have hopen : pairTable.isAssignableOpen ⟨24⟩ ⟨26⟩ = true := by decide +kernel
  have hiff := (isAssignableOpen_instantiations reached_pairTable).1 hopen
  refine ⟨reached_pairTable, hopen, hiff.mpr (.inr (.inr ⟨⟨26⟩, ?_⟩))⟩
  decide +kernel

-- A text and a truth value are accepted as well.
theorem isAssignableOpen_without_instantiation :
    ¬∀ t : TypeTable, t.Reached → ∀ target source, t.isAssignableOpen target source = true →
      ∃ assigned, t.AcceptsUnder assigned target source := by
  intro hall
  have hw := reached_pairTable.wellFormed.1
  obtain ⟨assigned, candidate, hb, ha⟩ :=
    hall pairTable reached_pairTable ⟨24⟩ ⟨25⟩ (by decide +kernel)
  have hkind : pairTable.kind candidate ≠ .object := by
    rw [hb.kind_eq hw (by decide +kernel)]
    decide +kernel
  have hrefused : ∀ other ∈ pairTable.lineage ⟨25⟩, pairTable.agrees ⟨24⟩ other = false := by
    decide +kernel
  have hagrees := (agrees_iff hw).mpr ⟨assigned, hb⟩
  rw [hrefused candidate (mem_lineage_of_isAssignable hkind ha)] at hagrees
  cases hagrees

end TypeTable

end EventScript
