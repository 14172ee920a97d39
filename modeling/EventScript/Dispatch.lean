import EventScript.Conversion.Resolution
import EventScript.Operator

namespace EventScript

-- What tells dynamic operations apart. Numbers of arguments are machine words.
inductive DispatchKey where
  | convert (target : TypeId) (mode : ConversionMode)
  -- A conversion whose result is taken as an object in any case.
  | convertToObject (target : TypeId) (mode : ConversionMode)
  | binary (op : BinaryOperator)
  | unary (op : UnaryOperator)
  | invoke (argumentCount : Nat)
  | getIndex (argumentCount : Nat)
  | getMember (name : String) (suppressErrors : Bool)
  | invokeMember (name : String) (argumentCount : Nat)
deriving DecidableEq, Repr, Inhabited

namespace DispatchKey

def render (t : TypeTable) : DispatchKey → String
  | convert target mode => "convert(" ++ t.displayName target ++ ", " ++ mode.name ++ ")"
  | convertToObject target mode =>
    "convert-to-object(" ++ t.displayName target ++ ", " ++ mode.name ++ ")"
  | binary op => "binary(" ++ op.symbol ++ ")"
  | unary op => "unary(" ++ op.symbol ++ ")"
  | invoke argumentCount => s!"invoke({argumentCount})"
  | getIndex argumentCount => s!"get-index({argumentCount})"
  | getMember name suppressErrors =>
    (if suppressErrors then "try-get-member(" else "get-member(") ++ name ++ ")"
  | invokeMember name argumentCount => s!"invoke-member({name}, {argumentCount})"

def memberName? : DispatchKey → Option String
  | getMember name _ | invokeMember name _ => some name
  | _ => none

-- The number of its slot, for the kinds of keys whose tables have slots.
def slot? : DispatchKey → Option Nat
  | invoke argumentCount | getIndex argumentCount => some argumentCount
  | _ => none

end DispatchKey

-- The descriptor of a key; its serial tells when it was created.
structure Descriptor where
  serial : Nat
  key : DispatchKey
deriving DecidableEq, Repr, Inhabited

namespace Descriptor

-- The conversion that the descriptor performs on a value of a type, if it is one.
def conversion? (t : TypeTable) (descriptor : Descriptor) (source : TypeId) :
    MemberSearch (Option Conversion) :=
  match descriptor.key with
  | .convert target mode => do return some (← Conversion.resolve t source target mode)
  | .convertToObject target mode => do
    let conversion ← Conversion.resolve t source target mode
    return some { conversion with resultType := .object }
  | _ => pure none

end Descriptor

-- Tables whose slots go by small numbers, such as numbers of arguments. A slot that has not been
-- filled is empty.
abbrev Slots := Array (Option Descriptor)

namespace Slots

-- The most slots that a table can have: it takes less than 2 ^ 63 bytes, and each slot eight of them.
def most : Nat := (Nat.pow 2 63 - 1) / 8

-- The slots with as many empty ones behind them as it takes to have that many.
def grown (slots : Slots) (size : Nat) : Slots :=
  slots ++ Array.replicate (size - slots.size) none

def fill (slots : Slots) (index : Nat) (d : Descriptor) : Slots :=
  (slots.grown (index + 1)).setIfInBounds index (some d)

def find? (slots : Slots) (index : Nat) : Option Descriptor := slots[index]?.join

theorem find?_grown (slots : Slots) (size index : Nat) :
    (slots.grown size).find? index = slots.find? index := by
  unfold grown find?
  rw [Array.getElem?_append]
  split
  · rfl
  · rename_i hout
    rw [Array.getElem?_eq_none (Nat.le_of_not_lt hout), Array.getElem?_replicate]
    split <;> rfl

theorem find?_fill (slots : Slots) (index other : Nat) (d : Descriptor) :
    (slots.fill index d).find? other = if other = index then some d else slots.find? other := by
  have hroom : index < (slots.grown (index + 1)).size := by
    simp only [grown, Array.size_append, Array.size_replicate]
    omega
  by_cases h : other = index
  · subst h
    simp [fill, find?, hroom]
  · rw [if_neg h, ← find?_grown slots (index + 1) other, fill, find?,
      Array.getElem?_setIfInBounds_ne (Ne.symm h), find?]

end Slots

-- The place of a mode among the tables that there is one of for each mode.
def ConversionMode.slot : ConversionMode → Fin 4
  | implicitCast => 0
  | implicitTry => 1
  | explicitCast => 2
  | explicitTry => 3

theorem ConversionMode.slot_eq_iff (mode other : ConversionMode) :
    mode.slot = other.slot ↔ mode = other := by
  cases mode <;> cases other <;> decide

-- Tables of conversions by their targets, one for every mode.
abbrev ModeTables := Vector (List (TypeId × Descriptor)) 4

namespace ModeTables

def empty : ModeTables := Vector.replicate 4 []

def ofMode (tables : ModeTables) (mode : ConversionMode) : List (TypeId × Descriptor) :=
  tables[mode.slot]

def insert (tables : ModeTables) (mode : ConversionMode) (target : TypeId) (d : Descriptor) :
    ModeTables :=
  tables.set mode.slot ((target, d) :: tables.ofMode mode)

theorem ofMode_insert (tables : ModeTables) (mode other : ConversionMode) (target : TypeId)
    (d : Descriptor) :
    (tables.insert mode target d).ofMode other =
      if other = mode then (target, d) :: tables.ofMode mode else tables.ofMode other := by
  by_cases h : other = mode
  · subst h
    simp [ModeTables.ofMode, insert]
  · have hslot : ¬mode.slot.val = other.slot.val := fun hs =>
      h ((ConversionMode.slot_eq_iff _ _).mp (Fin.ext hs)).symm
    simp [ModeTables.ofMode, insert, h, hslot]

end ModeTables

-- The descriptors by the kind of their operation. Conversions have a table for every mode, and
-- reading a member that may be missing has one of its own.
structure DescriptorTables where
  convert : ModeTables
  convertToObject : ModeTables
  binary : List (BinaryOperator × Descriptor)
  unary : List (UnaryOperator × Descriptor)
  invoke : Slots
  getIndex : Slots
  getMember : List (String × Descriptor)
  tryGetMember : List (String × Descriptor)
  invokeMember : List ((String × Nat) × Descriptor)
deriving DecidableEq, Repr

namespace DescriptorTables

def empty : DescriptorTables where
  convert := .empty
  convertToObject := .empty
  binary := []
  unary := []
  invoke := #[]
  getIndex := #[]
  getMember := []
  tryGetMember := []
  invokeMember := []

def find? (tables : DescriptorTables) : DispatchKey → Option Descriptor
  | .convert target mode => (tables.convert.ofMode mode).lookup target
  | .convertToObject target mode => (tables.convertToObject.ofMode mode).lookup target
  | .binary op => tables.binary.lookup op
  | .unary op => tables.unary.lookup op
  | .invoke argumentCount => tables.invoke.find? argumentCount
  | .getIndex argumentCount => tables.getIndex.find? argumentCount
  | .getMember name suppressErrors =>
    if suppressErrors then tables.tryGetMember.lookup name else tables.getMember.lookup name
  | .invokeMember name argumentCount => tables.invokeMember.lookup (name, argumentCount)

def insert (tables : DescriptorTables) (key : DispatchKey) (d : Descriptor) : DescriptorTables :=
  match key with
  | .convert target mode => { tables with convert := tables.convert.insert mode target d }
  | .convertToObject target mode =>
    { tables with convertToObject := tables.convertToObject.insert mode target d }
  | .binary op => { tables with binary := (op, d) :: tables.binary }
  | .unary op => { tables with unary := (op, d) :: tables.unary }
  | .invoke argumentCount => { tables with invoke := tables.invoke.fill argumentCount d }
  | .getIndex argumentCount => { tables with getIndex := tables.getIndex.fill argumentCount d }
  | .getMember name suppressErrors =>
    if suppressErrors then { tables with tryGetMember := (name, d) :: tables.tryGetMember }
    else { tables with getMember := (name, d) :: tables.getMember }
  | .invokeMember name argumentCount =>
    { tables with invokeMember := ((name, argumentCount), d) :: tables.invokeMember }

theorem find?_empty (key : DispatchKey) : empty.find? key = none := by
  cases key <;> simp [empty, find?, Slots.find?, ModeTables.ofMode, ModeTables.empty]

theorem lookup_cons_eq_ite {κ β : Type} [BEq κ] [LawfulBEq κ] [DecidableEq κ] (key other : κ)
    (b : β) (entries : List (κ × β)) :
    ((key, b) :: entries).lookup other = if other = key then some b else entries.lookup other := by
  by_cases h : other = key
  · simp [h]
  · simp [h, List.lookup_cons, beq_eq_false_iff_ne.mpr h]

-- An entry is found under its own key and changes nothing under any other, in its table or another.
theorem find?_insert (tables : DescriptorTables) (key other : DispatchKey) (d : Descriptor) :
    (tables.insert key d).find? other = if other = key then some d else tables.find? other := by
  cases key with
  | getMember name suppressErrors =>
      cases other with
      | getMember otherName otherSuppress =>
          cases suppressErrors <;> cases otherSuppress <;> simp [insert, find?, lookup_cons_eq_ite]
      | _ => cases suppressErrors <;> simp [insert, find?]
  | convert target mode =>
      cases other with
      | convert otherTarget otherMode =>
          by_cases hm : otherMode = mode <;>
            simp [insert, find?, ModeTables.ofMode_insert, lookup_cons_eq_ite, hm]
      | _ => rfl
  | convertToObject target mode =>
      cases other with
      | convertToObject otherTarget otherMode =>
          by_cases hm : otherMode = mode <;>
            simp [insert, find?, ModeTables.ofMode_insert, lookup_cons_eq_ite, hm]
      | _ => rfl
  | _ => cases other <;> simp [insert, find?, Slots.find?_fill, lookup_cons_eq_ite]

end DescriptorTables

-- The descriptors given out so far, each under its own key.
structure DescriptorCache where
  tables : DescriptorTables
  -- The number of descriptors that have been created.
  created : Nat
  key_eq_of_find : ∀ key d, tables.find? key = some d → d.key = key
deriving DecidableEq, Repr

-- A request that no descriptor can answer.
inductive DispatchError where
  | emptyMemberName
  -- More slots than a table can have.
  | tooManySlots
  -- A number of slots that is not even a machine word.
  | slotCountOverflow
deriving DecidableEq, Repr

namespace DispatchError

def message : DispatchError → String
  | emptyMemberName => "member name must not be empty"
  | tooManySlots => "capacity overflow"
  | slotCountOverflow => "attempt to add with overflow"

-- Why no table has a slot of that number. The count of the slots up to it comes before the table.
def ofSlot (index : Nat) : DispatchError :=
  if index + 1 < Nat.pow 2 64 then tooManySlots else slotCountOverflow

end DispatchError

-- A request that may be refused. What it leaves of the cache is known in that case too.
abbrev Dispatching := ExceptT DispatchError (StateM DescriptorCache)

namespace DescriptorCache

def empty : DescriptorCache where
  tables := .empty
  created := 0
  key_eq_of_find := by simp [DescriptorTables.find?_empty]

instance : Inhabited DescriptorCache := ⟨empty⟩

def size (cache : DescriptorCache) : Nat := cache.created

-- The descriptor that a key gets when it is asked for the first time.
def next (cache : DescriptorCache) (key : DispatchKey) : Descriptor := ⟨cache.created, key⟩

def add (cache : DescriptorCache) (key : DispatchKey) : DescriptorCache where
  tables := cache.tables.insert key (cache.next key)
  created := cache.created + 1
  key_eq_of_find := by
    intro other d h
    rw [DescriptorTables.find?_insert] at h
    split at h
    · rename_i he
      rw [he, ← Option.some.inj h, next]
    · exact cache.key_eq_of_find other d h

-- The descriptor of a key, created on the first request. The operations of a script ask without a
-- check: its members have names, and no source is long enough for arguments without a slot.
def request (key : DispatchKey) : StateM DescriptorCache Descriptor := fun cache =>
  match cache.tables.find? key with
  | some d => (d, cache)
  | none => (cache.next key, cache.add key)

def convert (target : TypeId) (mode : ConversionMode) : StateM DescriptorCache Descriptor :=
  request (.convert target mode)

def convertToObject (target : TypeId) (mode : ConversionMode) :
    StateM DescriptorCache Descriptor :=
  request (.convertToObject target mode)

def binary (op : BinaryOperator) : StateM DescriptorCache Descriptor := request (.binary op)

def unary (op : UnaryOperator) : StateM DescriptorCache Descriptor := request (.unary op)

-- Numbers of arguments have slots, and before there is a slot there has to be room for the table.
def checkSlot (index : Nat) : Dispatching Unit := do
  if Slots.most ≤ index then throw (.ofSlot index)

def invoke (argumentCount : Nat) : Dispatching Descriptor := do
  checkSlot argumentCount
  request (.invoke argumentCount)

def getIndex (argumentCount : Nat) : Dispatching Descriptor := do
  checkSlot argumentCount
  request (.getIndex argumentCount)

-- Members are asked for by their names, and none goes without a name.
def checkName (name : String) : Dispatching Unit := do
  if name.isEmpty then throw .emptyMemberName

def getMember (name : String) (suppressErrors : Bool) : Dispatching Descriptor := do
  checkName name
  request (.getMember name suppressErrors)

def invokeMember (name : String) (argumentCount : Nat) : Dispatching Descriptor := do
  checkName name
  request (.invokeMember name argumentCount)

-- The descriptor of any key.
def get : DispatchKey → Dispatching Descriptor
  | .convert target mode => convert target mode
  | .convertToObject target mode => convertToObject target mode
  | .binary op => binary op
  | .unary op => unary op
  | .invoke argumentCount => invoke argumentCount
  | .getIndex argumentCount => getIndex argumentCount
  | .getMember name suppressErrors => getMember name suppressErrors
  | .invokeMember name argumentCount => invokeMember name argumentCount

end DescriptorCache

end EventScript
