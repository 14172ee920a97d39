namespace EventScript

inductive NumericKind where
  | sbyte | byte | int16 | uint16 | int32 | uint32 | int64 | uint64
  | char | single | double | decimal
deriving DecidableEq, Repr, Inhabited

namespace NumericKind

-- Every kind, in the order in which a host lists them.
def all : List NumericKind :=
  [sbyte, byte, int16, uint16, int32, uint32, int64, uint64, char, single, double, decimal]

def name : NumericKind → String
  | sbyte => "SByte"
  | byte => "Byte"
  | int16 => "Int16"
  | uint16 => "UInt16"
  | int32 => "Int32"
  | uint32 => "UInt32"
  | int64 => "Int64"
  | uint64 => "UInt64"
  | char => "Char"
  | single => "Single"
  | double => "Double"
  | decimal => "Decimal"

def position : NumericKind → Nat
  | sbyte => 0
  | byte => 1
  | int16 => 2
  | uint16 => 3
  | int32 => 4
  | uint32 => 5
  | int64 => 6
  | uint64 => 7
  | char => 8
  | single => 9
  | double => 10
  | decimal => 11

def isIntegral : NumericKind → Bool
  | single | double | decimal => false
  | _ => true

def ofName? (name : String) : Option NumericKind := all.find? (·.name = name)

-- The families of kinds; within one, a kind widens to every kind of a higher rank.
inductive Family where
  | unsigned | signed | character | floating | decimal
deriving DecidableEq, Repr

def rank : NumericKind → Family × Nat
  | byte => (.unsigned, 0)
  | uint16 => (.unsigned, 1)
  | uint32 => (.unsigned, 2)
  | uint64 => (.unsigned, 3)
  | sbyte => (.signed, 0)
  | int16 => (.signed, 1)
  | int32 => (.signed, 2)
  | int64 => (.signed, 3)
  | char => (.character, 0)
  | single => (.floating, 0)
  | double => (.floating, 1)
  | decimal => (.decimal, 0)

-- Whether a value of kind `source` is taken as one of kind `target` without a cast. Unsigned kinds
-- widen to signed kinds of a higher rank, characters to the kinds that hold 16 unsigned bits, and
-- every integral kind to the floating ones and to decimals; nothing widens to a character, and
-- floating kinds and decimals stay apart.
def widensTo (source target : NumericKind) : Bool :=
  let (sourceFamily, sourceRank) := source.rank
  let (targetFamily, targetRank) := target.rank
  if sourceFamily = targetFamily then sourceRank ≤ targetRank
  else match sourceFamily, targetFamily with
    | .unsigned, .signed => sourceRank < targetRank
    | .character, .unsigned => 1 ≤ targetRank
    | .character, .signed => 2 ≤ targetRank
    | .unsigned, .floating | .signed, .floating | .character, .floating => true
    | .unsigned, .decimal | .signed, .decimal | .character, .decimal => true
    | _, _ => false

-- The kind that arithmetic on `kind` is carried out in: nothing narrower than 32 bits.
def promoted : NumericKind → NumericKind
  | sbyte | byte | int16 | uint16 | char => int32
  | kind => kind

-- The kinds that two operands can be brought to, narrowest first.
def commonKinds : List NumericKind := [int32, uint32, int64, uint64, single, double, decimal]

-- The narrowest kind that both promoted operands widen to.
def common? (left right : NumericKind) : Option NumericKind :=
  commonKinds.find? fun kind => left.promoted.widensTo kind && right.promoted.widensTo kind

end NumericKind

end EventScript
