import EventScript.Text.Quoted

namespace EventScript

-- A set of flags as the bits of a word, which may hold bits that name no flag.
structure ScopeFlags where
  bits : BitVec 32
deriving DecidableEq, Repr, Inhabited

namespace ScopeFlags

def empty : ScopeFlags := ⟨0⟩

-- The set of one bit.
def bit (position : Nat) : ScopeFlags := ⟨BitVec.twoPow 32 position⟩

-- Arithmetic is checked for overflow.
def checkedScope : ScopeFlags := bit 0

def constantCheckState : ScopeFlags := bit 1

-- Diagnostics are dropped, since the binding is only a trial.
def probingMode : ScopeFlags := bit 22

def inferReturnType : ScopeFlags := bit 23

def omitDebuggingInfo : ScopeFlags := bit 24

def expressionTreeConversion : ScopeFlags := bit 25

def invokeSpecialName : ScopeFlags := bit 26

-- The flags that have a name, in the order in which they are listed.
def named : List (String × ScopeFlags) :=
  [("CHECKED_SCOPE", checkedScope), ("CONSTANT_CHECK_STATE", constantCheckState),
    ("PROBING_MODE", probingMode), ("INFER_RETURN_TYPE", inferReturnType),
    ("OMIT_DEBUGGING_INFO", omitDebuggingInfo),
    ("EXPRESSION_TREE_CONVERSION", expressionTreeConversion),
    ("INVOKE_SPECIAL_NAME", invokeSpecialName)]

instance : OrOp ScopeFlags := ⟨fun a b => ⟨a.bits ||| b.bits⟩⟩

instance : AndOp ScopeFlags := ⟨fun a b => ⟨a.bits &&& b.bits⟩⟩

def union (sets : List ScopeFlags) : ScopeFlags := sets.foldl (· ||| ·) empty

def declared : ScopeFlags := union (named.map (·.2))

def complement (flags : ScopeFlags) : ScopeFlags := ⟨~~~flags.bits &&& declared.bits⟩

def hasAll (flags mask : ScopeFlags) : Bool := flags &&& mask = mask

def hasAny (flags mask : ScopeFlags) : Bool := flags &&& mask ≠ empty

def ofName? (name : String) : Option ScopeFlags :=
  (named.find? (·.1 = name)).map (·.2)

-- The names of the flags, with bits that have no name as one number behind them.
def render (flags : ScopeFlags) : String :=
  let names := (named.filter fun flag => flags.hasAll flag.2).map (·.1)
  let rest := flags.bits &&& ~~~declared.bits
  let unnamed :=
    if rest ≠ 0 ∨ names.isEmpty then ["0x" ++ String.ofList (Text.hexDigits rest.toNat)] else []
  "ScopeFlags(" ++ " | ".intercalate (names ++ unnamed) ++ ")"

end ScopeFlags

-- What leaving a scope restores: the bits under its mask as they were when it was entered.
structure FlagsGuard where
  mask : ScopeFlags
  saved : ScopeFlags
deriving DecidableEq, Repr, Inhabited

namespace ScopeFlags

-- Enters a scope in which the bits under `mask` are those of `value`.
def enter (current mask value : ScopeFlags) : ScopeFlags × FlagsGuard :=
  ((current &&& mask.complement) ||| (value &&& mask), ⟨mask, current &&& mask⟩)

-- Enters a scope in which the bits of `mask` are on.
def enterOn (current mask : ScopeFlags) : ScopeFlags × FlagsGuard := current.enter mask mask

-- Enters a scope in which the bits of `mask` are on or off.
def enterWith (current mask : ScopeFlags) (on : Bool) : ScopeFlags × FlagsGuard :=
  current.enter mask (if on then mask else empty)

def leave (current : ScopeFlags) (guard : FlagsGuard) : ScopeFlags :=
  (current &&& guard.mask.complement) ||| guard.saved

end ScopeFlags

end EventScript
