import EventScript.Dispatch
import Mathlib.Data.Finset.Card

namespace EventScript

-- A key with the empty name for a member, which no descriptor answers.
def DispatchKey.Nameless (key : DispatchKey) : Prop := key.memberName? = some ""

instance (key : DispatchKey) : Decidable key.Nameless := inferInstanceAs (Decidable (_ = _))

-- A key whose slot no table has room for, so that no descriptor answers it either.
def DispatchKey.Oversized (key : DispatchKey) : Prop :=
  (key.slot?.any fun index => Slots.most ≤ index) = true

instance (key : DispatchKey) : Decidable key.Oversized := inferInstanceAs (Decidable (_ = _))

-- A key that can be asked for without the room for its table mattering: a table that grows may be
-- given twice the slots it is asked for, and a count that is no machine word is none of a table.
def DispatchKey.Sized (key : DispatchKey) : Prop :=
  ∀ index ∈ key.slot?, (2 * (index + 1) ≤ Slots.most ∨ Slots.most ≤ index) ∧
    index + 1 < Nat.pow 2 64

instance (key : DispatchKey) : Decidable key.Sized :=
  inferInstanceAs (Decidable (∀ index ∈ key.slot?, _ ∧ _))

-- No key has both a name and a slot.
theorem DispatchKey.memberName?_eq_none {key : DispatchKey} {index : Nat}
    (h : key.slot? = some index) : key.memberName? = none := by
  cases key with
  | getMember | invokeMember => cases h
  | _ => rfl

-- Why a key is not answered.
def DispatchKey.refusal? (key : DispatchKey) : Option DispatchError :=
  if key.Nameless then some .emptyMemberName
  else if key.Oversized then key.slot?.map .ofSlot
  else none

theorem DispatchKey.refusal?_eq_none_iff {key : DispatchKey} :
    key.refusal? = none ↔ ¬key.Nameless ∧ ¬key.Oversized := by
  unfold refusal?
  by_cases hn : key.Nameless
  · simp [hn]
  · by_cases ho : key.Oversized
    · rw [if_neg hn, if_pos ho, Option.map_eq_none_iff]
      refine iff_of_false (fun hnone => ?_) fun h => h.2 ho
      rw [Oversized, hnone] at ho
      cases ho
    · simp [hn, ho]

theorem DispatchKey.refusal?_of_name {key : DispatchKey} {name : String}
    (hname : key.memberName? = some name) (hslot : key.slot? = none) :
    key.refusal? = if name = "" then some .emptyMemberName else none := by
  have hroom : ¬key.Oversized := by simp [Oversized, hslot]
  rw [refusal?, if_neg hroom]
  simp only [Nameless, hname, Option.some_inj]

theorem DispatchKey.refusal?_of_slot {key : DispatchKey} {index : Nat}
    (hslot : key.slot? = some index) :
    key.refusal? = if Slots.most ≤ index then some (.ofSlot index) else none := by
  have hname : ¬key.Nameless := by simp [Nameless, memberName?_eq_none hslot]
  rw [refusal?, if_neg hname]
  simp only [Oversized, hslot, Option.any_some, decide_eq_true_eq, Option.map_some]

theorem DispatchKey.refusal?_of_oversized {key : DispatchKey} (hs : key.Sized)
    (ho : key.Oversized) : key.refusal? = some .tooManySlots := by
  cases hslot : key.slot? with
  | none =>
      rw [Oversized, hslot] at ho
      cases ho
  | some index =>
      have hmost : Slots.most ≤ index := by simpa [Oversized, hslot] using ho
      rw [refusal?_of_slot hslot, if_pos hmost, DispatchError.ofSlot, if_pos (hs index hslot).2]

-- A call on a cache: an operation with a key of its own, or any key by `get`.
inductive DispatchRequest where
  | convert (target : TypeId) (mode : ConversionMode)
  | convertToObject (target : TypeId) (mode : ConversionMode)
  | binary (op : BinaryOperator)
  | unary (op : UnaryOperator)
  | invoke (argumentCount : Nat)
  | getIndex (argumentCount : Nat)
  | getMember (name : String) (suppressErrors : Bool)
  | invokeMember (name : String) (argumentCount : Nat)
  | get (key : DispatchKey)
deriving DecidableEq, Repr

namespace DispatchRequest

open DescriptorCache

def key : DispatchRequest → DispatchKey
  | convert target mode => .convert target mode
  | convertToObject target mode => .convertToObject target mode
  | binary op => .binary op
  | unary op => .unary op
  | invoke argumentCount => .invoke argumentCount
  | getIndex argumentCount => .getIndex argumentCount
  | getMember name suppressErrors => .getMember name suppressErrors
  | invokeMember name argumentCount => .invokeMember name argumentCount
  | get key => key

def run : DispatchRequest → Dispatching Descriptor
  | convert target mode => DescriptorCache.convert target mode
  | convertToObject target mode => DescriptorCache.convertToObject target mode
  | binary op => DescriptorCache.binary op
  | unary op => DescriptorCache.unary op
  | invoke argumentCount => DescriptorCache.invoke argumentCount
  | getIndex argumentCount => DescriptorCache.getIndex argumentCount
  | getMember name suppressErrors => DescriptorCache.getMember name suppressErrors
  | invokeMember name argumentCount => DescriptorCache.invokeMember name argumentCount
  | get key => DescriptorCache.get key

-- What each of a row of calls answers, each on the cache that those before it have left.
def runAll (requests : List DispatchRequest) :
    StateM DescriptorCache (List (Except DispatchError Descriptor)) :=
  requests.mapM fun request => request.run.run

-- The keys that a row of calls gets descriptors for.
def answeredKeys (requests : List DispatchRequest) : Finset DispatchKey :=
  ((requests.map key).filter fun key => ¬key.Nameless ∧ ¬key.Oversized).toFinset

theorem run_eq_get (request : DispatchRequest) : request.run = DescriptorCache.get request.key := by
  cases request <;> rfl

end DispatchRequest

namespace DescriptorCache

variable {cache left : DescriptorCache} {keys : Finset DispatchKey} {key other : DispatchKey}
  {d e : Descriptor}

-- The descriptor that the cache has for a key.
def find? (cache : DescriptorCache) (key : DispatchKey) : Option Descriptor :=
  cache.tables.find? key

theorem find?_add (cache : DescriptorCache) (key other : DispatchKey) :
    (cache.add key).find? other =
      if other = key then some (cache.next key) else cache.find? other :=
  DescriptorTables.find?_insert cache.tables key other (cache.next key)

-- A cache with descriptors for just these keys, which have been numbered as they were created.
structure Holds (cache : DescriptorCache) (keys : Finset DispatchKey) : Prop where
  isSome_find : ∀ key, (cache.find? key).isSome ↔ key ∈ keys
  serial_lt : ∀ {key d}, cache.find? key = some d → d.serial < cache.created
  serial_inj : ∀ {key other d e}, cache.find? key = some d → cache.find? other = some e →
    d.serial = e.serial → key = other
  size_eq : cache.size = keys.card

-- A later cache still gives the descriptors that an earlier one has.
def Keeps (cache left : DescriptorCache) : Prop :=
  ∀ key d, cache.find? key = some d → left.find? key = some d

theorem Keeps.refl (cache : DescriptorCache) : cache.Keeps cache := fun _ _ hd => hd

theorem Keeps.trans {later : DescriptorCache} (h : cache.Keeps left) (h' : left.Keeps later) :
    cache.Keeps later :=
  fun key d hd => h' key d (h key d hd)

theorem holds_empty : empty.Holds ∅ where
  isSome_find key := by simp [find?, empty, DescriptorTables.find?_empty]
  serial_lt h := by simp [find?, empty, DescriptorTables.find?_empty] at h
  serial_inj h := by simp [find?, empty, DescriptorTables.find?_empty] at h
  size_eq := rfl

-- A new descriptor has a number that none before it has.
theorem Holds.add (h : cache.Holds keys) (hnew : cache.find? key = none) :
    (cache.add key).Holds (insert key keys) where
  isSome_find other := by
    rw [find?_add, Finset.mem_insert, ← h.isSome_find]
    by_cases he : other = key <;> simp [he]
  serial_lt := by
    intro other d hd
    have hc : (cache.add key).created = cache.created + 1 := rfl
    rw [find?_add] at hd
    split at hd
    · obtain rfl := Option.some.inj hd
      simp [hc, next]
    · have := h.serial_lt hd
      omega
  serial_inj := by
    intro first second d e hd he hs
    rw [find?_add] at hd he
    split at hd <;> split at he
    · simp [*]
    · obtain rfl := Option.some.inj hd
      have : e.serial < (cache.next key).serial := h.serial_lt he
      omega
    · obtain rfl := Option.some.inj he
      have : d.serial < (cache.next key).serial := h.serial_lt hd
      omega
    · exact h.serial_inj hd he hs
  size_eq := by
    have hk : key ∉ keys := by simp [← h.isSome_find, hnew]
    rw [Finset.card_insert_of_notMem hk, ← h.size_eq]
    rfl

theorem keeps_add (hnew : cache.find? key = none) : cache.Keeps (cache.add key) := by
  intro other d hd
  have hne : other ≠ key := by
    rintro rfl
    simp [hnew] at hd
  rw [find?_add, if_neg hne, hd]

theorem Holds.request (h : cache.Holds keys) (key : DispatchKey) :
    (request key cache).2.Holds (insert key keys) := by
  unfold DescriptorCache.request
  cases hf : cache.tables.find? key with
  | some d =>
      have hk : key ∈ keys := (h.isSome_find key).mp (by simp [find?, hf])
      rwa [Finset.insert_eq_self.mpr hk]
  | none => exact h.add hf

theorem keeps_request (key : DispatchKey) (cache : DescriptorCache) :
    cache.Keeps (request key cache).2 := by
  unfold request
  cases hf : cache.tables.find? key with
  | some d => exact .refl cache
  | none => exact keeps_add hf

-- A key is answered with the descriptor that the cache has for it from then on.
theorem find?_request (key : DispatchKey) (cache : DescriptorCache) :
    (request key cache).2.find? key = some (request key cache).1 := by
  unfold request
  cases hf : cache.tables.find? key with
  | some d => exact hf
  | none => rw [find?_add, if_pos rfl]

-- A check that gives a reason to refuse a request, or none, and leaves every cache as it is.
def Refuses (check : Dispatching Unit) (reason? : Option DispatchError) : Prop :=
  ∀ cache, check.run cache = (reason?.elim (.ok ()) .error, cache)

theorem refuses_checkName (name : String) :
    Refuses (checkName name) (if name = "" then some .emptyMemberName else none) := by
  intro cache
  by_cases hn : name = "" <;> simp [checkName, hn] <;> rfl

theorem refuses_checkSlot (index : Nat) :
    Refuses (checkSlot index) (if Slots.most ≤ index then some (.ofSlot index) else none) := by
  intro cache
  by_cases hn : Slots.most ≤ index <;> simp [checkSlot, hn] <;> rfl

-- What comes of a request when there is a reason to refuse it, or none.
def settled (key : DispatchKey) (cache : DescriptorCache) :
    Option DispatchError → Except DispatchError Descriptor × DescriptorCache
  | some e => (.error e, cache)
  | none => (.ok (request key cache).1, (request key cache).2)

theorem keeps_settled (key : DispatchKey) (cache : DescriptorCache)
    (reason? : Option DispatchError) : cache.Keeps (settled key cache reason?).2 := by
  cases reason? with
  | some e => exact .refl cache
  | none => exact keeps_request key cache

theorem Refuses.run_request {check : Dispatching Unit} {reason? : Option DispatchError}
    (h : Refuses check reason?) (key : DispatchKey) (cache : DescriptorCache) :
    (do check; request key : Dispatching Descriptor).run cache = settled key cache reason? := by
  have hcheck : check cache = (reason?.elim (.ok ()) .error, cache) := h cache
  simp only [ExceptT.run, bind, ExceptT.bind, ExceptT.mk, StateT.bind, hcheck]
  cases reason? <;> rfl

-- A key is refused before any table is looked at, or it is answered.
theorem get_apply (key : DispatchKey) (cache : DescriptorCache) :
    (get key).run cache = settled key cache key.refusal? := by
  cases key with
  | getMember name | invokeMember name =>
      rw [DispatchKey.refusal?_of_name rfl rfl]
      exact (refuses_checkName name).run_request _ cache
  | invoke argumentCount | getIndex argumentCount =>
      rw [DispatchKey.refusal?_of_slot rfl]
      exact (refuses_checkSlot argumentCount).run_request _ cache
  | _ => rfl

end DescriptorCache

namespace DispatchRequest

open DescriptorCache

variable {cache left : DescriptorCache} {keys : Finset DispatchKey}

-- How a call is answered by the cache that is there in the end.
def AnsweredBy (left : DescriptorCache) (request : DispatchRequest)
    (answer : Except DispatchError Descriptor) : Prop :=
  match request.key.refusal? with
  | some e => answer = .error e
  | none => ∃ d, answer = .ok d ∧ left.find? request.key = some d

theorem runAll_cons (request : DispatchRequest) (requests : List DispatchRequest)
    (cache : DescriptorCache) :
    runAll (request :: requests) cache =
      ((request.run.run cache).1 :: (runAll requests (request.run.run cache).2).1,
        (runAll requests (request.run.run cache).2).2) := by
  unfold runAll
  rw [List.mapM_cons]
  rfl

theorem AnsweredBy.of_keeps {request : DispatchRequest} {answer : Except DispatchError Descriptor}
    (h : request.AnsweredBy cache answer) (hk : cache.Keeps left) :
    request.AnsweredBy left answer := by
  unfold AnsweredBy at *
  cases hr : request.key.refusal? with
  | some e =>
      rw [hr] at h
      exact h
  | none =>
      rw [hr] at h
      obtain ⟨d, ha, hd⟩ := h
      exact ⟨d, ha, hk _ _ hd⟩

theorem run_spec (h : cache.Holds keys) (request : DispatchRequest) :
    (request.run.run cache).2.Holds (keys ∪ answeredKeys [request]) ∧
      cache.Keeps (request.run.run cache).2 ∧
      request.AnsweredBy (request.run.run cache).2 (request.run.run cache).1 := by
  rw [run_eq_get, get_apply]
  unfold AnsweredBy
  cases hr : request.key.refusal? with
  | some e =>
      have hno : ¬(¬request.key.Nameless ∧ ¬request.key.Oversized) := by
        rw [← DispatchKey.refusal?_eq_none_iff, hr]
        simp
      have hkeys : answeredKeys [request] = ∅ := by
        simp only [answeredKeys, List.map_cons, List.map_nil]
        rw [List.filter_cons_of_neg (by simpa using hno)]
        rfl
      rw [hkeys, Finset.union_empty]
      exact ⟨h, .refl cache, rfl⟩
  | none =>
      have hyes := DispatchKey.refusal?_eq_none_iff.mp hr
      have hkeys : keys ∪ answeredKeys [request] = insert request.key keys := by
        simp [answeredKeys, hyes]
      rw [hkeys]
      exact ⟨h.request request.key, keeps_request request.key cache, _, rfl,
        find?_request request.key cache⟩

-- By induction on the calls: the cache has descriptors for the keys so far, and an answer once
-- given stays the answer.
theorem runAll_spec (requests : List DispatchRequest) (h : cache.Holds keys) :
    (runAll requests cache).2.Holds (keys ∪ answeredKeys requests) ∧
      cache.Keeps (runAll requests cache).2 ∧
      List.Forall₂ (AnsweredBy (runAll requests cache).2) requests (runAll requests cache).1 := by
  induction requests generalizing cache keys with
  | nil =>
      have hkeys : answeredKeys [] = ∅ := rfl
      rw [hkeys, Finset.union_empty]
      exact ⟨h, .refl cache, .nil⟩
  | cons request requests ih =>
      obtain ⟨hh, hk, ha⟩ := run_spec h request
      obtain ⟨hh', hk', ha'⟩ := ih hh
      have hkeys : answeredKeys (request :: requests) =
          answeredKeys [request] ∪ answeredKeys requests := by
        simp only [answeredKeys, ← List.toFinset_append, ← List.filter_append, ← List.map_append,
          List.singleton_append]
      rw [runAll_cons, hkeys, ← Finset.union_assoc]
      exact ⟨hh', hk.trans hk', .cons (ha.of_keeps hk') ha'⟩

theorem AnsweredBy.find_of_ok {request : DispatchRequest} {d : Descriptor}
    (h : request.AnsweredBy left (.ok d)) : left.find? request.key = some d := by
  unfold AnsweredBy at h
  cases hr : request.key.refusal? with
  | some e =>
      rw [hr] at h
      cases h
  | none =>
      rw [hr] at h
      obtain ⟨e, he, hd⟩ := h
      rwa [Except.ok.inj he]

-- What a row of calls answers and leaves when every key has one descriptor.
structure Canonical (requests : List DispatchRequest)
    (answers : List (Except DispatchError Descriptor)) (left : DescriptorCache) : Prop where
  length_eq : answers.length = requests.length
  answered : ∀ (i : Nat) (request : DispatchRequest), requests[i]? = some request →
    ¬request.key.Nameless → ¬request.key.Oversized →
      ∃ d, answers[i]? = some (.ok d) ∧ d.key = request.key
  nameless : ∀ (i : Nat) (request : DispatchRequest), requests[i]? = some request →
    request.key.Nameless → answers[i]? = some (.error .emptyMemberName)
  oversized : ∀ (i : Nat) (request : DispatchRequest), requests[i]? = some request →
    request.key.Oversized → answers[i]? = some (.error .tooManySlots)
  same_iff : ∀ (i j : Nat) (first second : DispatchRequest) (d e : Descriptor),
    requests[i]? = some first → answers[i]? = some (.ok d) →
    requests[j]? = some second → answers[j]? = some (.ok e) →
    (d.serial = e.serial ↔ first.key = second.key)
  size_eq : left.size = (answeredKeys requests).card

theorem AnsweredBy.exists_of_forall₂ {requests : List DispatchRequest}
    {answers : List (Except DispatchError Descriptor)}
    (h : List.Forall₂ (AnsweredBy left) requests answers) {i : Nat} {request : DispatchRequest}
    (hi : requests[i]? = some request) :
    ∃ answer, answers[i]? = some answer ∧ request.AnsweredBy left answer := by
  obtain ⟨hlt, rfl⟩ := List.getElem?_eq_some_iff.mp hi
  have hlt' : i < answers.length := h.length_eq ▸ hlt
  exact ⟨answers[i], List.getElem?_eq_getElem hlt', h.get hlt hlt'⟩

theorem AnsweredBy.refused_of_forall₂ {requests : List DispatchRequest}
    {answers : List (Except DispatchError Descriptor)}
    (h : List.Forall₂ (AnsweredBy left) requests answers) {i : Nat} {request : DispatchRequest}
    (hi : requests[i]? = some request) {e : DispatchError} (hr : request.key.refusal? = some e) :
    answers[i]? = some (.error e) := by
  obtain ⟨answer, ha, hans⟩ := exists_of_forall₂ h hi
  unfold AnsweredBy at hans
  rw [hr] at hans
  rw [ha, hans]

-- The answers agree because the cache that is left in the end accounts for all of them.
theorem Canonical.of_answeredBy {requests : List DispatchRequest}
    {answers : List (Except DispatchError Descriptor)}
    (hsized : ∀ request ∈ requests, request.key.Sized) (hh : left.Holds (answeredKeys requests))
    (h : List.Forall₂ (AnsweredBy left) requests answers) : Canonical requests answers left where
  length_eq := h.length_eq.symm
  answered i request hi hn ho := by
    obtain ⟨answer, ha, hans⟩ := AnsweredBy.exists_of_forall₂ h hi
    unfold AnsweredBy at hans
    rw [DispatchKey.refusal?_eq_none_iff.mpr ⟨hn, ho⟩] at hans
    obtain ⟨d, rfl, hd⟩ := hans
    exact ⟨d, ha, left.key_eq_of_find _ d hd⟩
  nameless i request hi hn := AnsweredBy.refused_of_forall₂ h hi (if_pos hn)
  oversized i request hi ho :=
    AnsweredBy.refused_of_forall₂ h hi
      (DispatchKey.refusal?_of_oversized (hsized request (List.mem_of_getElem? hi)) ho)
  same_iff i j first second d e hi hd hj he := by
    obtain ⟨answer, ha, hans⟩ := AnsweredBy.exists_of_forall₂ h hi
    obtain ⟨answer', ha', hans'⟩ := AnsweredBy.exists_of_forall₂ h hj
    obtain rfl := Option.some.inj (ha.symm.trans hd)
    obtain rfl := Option.some.inj (ha'.symm.trans he)
    have hfirst := hans.find_of_ok
    have hsecond := hans'.find_of_ok
    constructor
    · exact hh.serial_inj hfirst hsecond
    · intro hk
      rw [← hk, hfirst] at hsecond
      rw [Option.some.inj hsecond]
  size_eq := hh.size_eq

-- The same key by its operation and by `get`, with what is refused and another table in between.
def interleaved : List DispatchRequest :=
  [.invoke 2, .invoke (Nat.pow 2 62), .getMember "" false, .getIndex 2, .get (.invoke 2)]

end DispatchRequest

end EventScript
