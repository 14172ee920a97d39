import EventScript.Host.TypeTree

namespace EventScript.TypeTable

-- At most `length` base types, nearest first.
def baseChainWithin (t : TypeTable) : Nat → TypeId → List TypeId
  | 0, _ => []
  | length + 1, id =>
    match t.base? id with
    | some base => base :: t.baseChainWithin length base
    | none => []

-- The base types of a type, nearest first. A chain that does not run in a circle has no more members
-- than the table has types; following one that does would not come to an end.
def baseChain (t : TypeTable) (id : TypeId) : List TypeId := t.baseChainWithin t.size id

def selfAndBases (t : TypeTable) (id : TypeId) : List TypeId := id :: t.baseChain id

-- The types of the table that a search has not found yet.
def unfound (t : TypeTable) (found : List TypeId) : List Nat :=
  (List.range t.size).filter fun i => ⟨i⟩ ∉ found

theorem unfound_append (t : TypeTable) (found : List TypeId) (id : TypeId) :
    t.unfound (found ++ [id]) = (t.unfound found).filter (· ≠ id.index) := by
  unfold unfound
  rw [List.filter_filter]
  apply List.filter_congr
  intro i _
  have : (⟨i⟩ : TypeId) = id ↔ i = id.index := by cases id; simp
  simp [this, Bool.and_comm]

-- What a search may still come to look at: those that wait, and each type that it has not found,
-- with its interfaces.
def unsearched (t : TypeTable) (found pending : List TypeId) : List TypeId :=
  pending ++ (t.unfound found).flatMap fun i => ⟨i⟩ :: (t.get ⟨i⟩).interfaces

theorem length_flatMap_filter_ne_le {α : Type} (f : Nat → List α) (indices : List Nat) (i : Nat) :
    ((indices.filter (· ≠ i)).flatMap f).length + (if i ∈ indices then (f i).length else 0) ≤
      (indices.flatMap f).length := by
  induction indices with
  | nil => simp
  | cons first rest ih =>
    rw [List.flatMap_cons, List.length_append]
    by_cases he : first = i
    · subst he
      have hle : ((rest.filter (· ≠ first)).flatMap f).length ≤ (rest.flatMap f).length := by omega
      rw [if_pos List.mem_cons_self, List.filter_cons_of_neg (by simp)]
      omega
    · have hm : i ∈ first :: rest ↔ i ∈ rest := by simp [Ne.symm he]
      rw [List.filter_cons_of_pos (by simp [he]), List.flatMap_cons, List.length_append]
      simp only [hm]
      omega

theorem length_unsearched_lt (t : TypeTable) {found : List TypeId} {id : TypeId}
    (rest : List TypeId) (hf : id ∉ found) :
    (t.unsearched (found ++ [id]) ((t.get id).interfaces ++ rest)).length <
      (t.unsearched found (id :: rest)).length := by
  have hlength := length_flatMap_filter_ne_le
    (fun i => (⟨i⟩ : TypeId) :: (t.get ⟨i⟩).interfaces) (t.unfound found) id.index
  unfold unsearched
  rw [unfound_append, List.length_append, List.length_append, List.length_append, List.length_cons]
  by_cases hc : id.index < t.size
  · have hm : id.index ∈ t.unfound found := by simp [unfound, hc, hf]
    rw [if_pos hm] at hlength
    change _ + ((t.get id).interfaces.length + 1) ≤ _ at hlength
    omega
  · have hnone : (t.get id).interfaces = [] := by rw [get_of_not_contains hc]; rfl
    rw [hnone, List.length_nil]
    omega

-- Searches interfaces depth first, in the order of their declaration, each once.
def searchInterfaces (t : TypeTable) (found pending : List TypeId) : List TypeId :=
  match pending with
  | [] => found
  | id :: rest =>
    if id ∈ found then t.searchInterfaces found rest
    else t.searchInterfaces (found ++ [id]) ((t.get id).interfaces ++ rest)
termination_by (t.unsearched found pending).length
decreasing_by
  · simp [unsearched]
  · exact length_unsearched_lt t rest (by assumption)

-- Every interface of the type and its base types, with the interfaces that those extend.
def allInterfaces (t : TypeTable) (id : TypeId) : List TypeId :=
  t.searchInterfaces [] ((t.selfAndBases id).flatMap fun current => (t.get current).interfaces)

-- The type, its base types and all its interfaces: where members are looked for.
def lineage (t : TypeTable) (id : TypeId) : List TypeId := t.selfAndBases id ++ t.allInterfaces id

-- Whether a value of static type `source` is also one of type `target`: the same type, a base type,
-- an implemented interface, or the type of all objects. Nothing passes for `void`, and `null` is left
-- to the conversions.
def isAssignable (t : TypeTable) (target source : TypeId) : Bool :=
  if target = source then true
  else match t.kind target, t.kind source with
    | _, .void | _, .null | .void, _ => false
    | .object, _ => true
    | _, _ =>
      (t.baseChain source).contains target ||
        (t.isInterface target && (t.allInterfaces source).contains target)

-- Assignability in which a generic parameter in the target accepts everything: an open target
-- accepts every type with an instance of the same definition in its lineage.
def isAssignableOpen (t : TypeTable) (target source : TypeId) : Bool :=
  if t.isGenericParameter target then true
  else if t.mentionsParameter target then
    (t.lineage source).any fun candidate => t.openDefinition candidate = t.openDefinition target
  else t.isAssignable target source

end EventScript.TypeTable
