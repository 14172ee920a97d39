import EventScript.Binding.Fault
import EventScript.NameScope
import EventScript.ScopeFlags

namespace EventScript

structure Compilation where
  caches : Caches
  flags : ScopeFlags
  -- In the order in which they were reported.
  diagnostics : List Diagnostic
deriving DecidableEq, Repr, Inhabited

-- A step of a compilation.
abbrev Compiling := StateM Compilation

-- What stays the same while an expression is bound.
structure BindingScope where
  runtime : Runtime
  names : NameScope
  -- The parameters of the script; of several of one name the first in the list holds.
  parameters : List (String × TypeId)
deriving Inhabited

def BindingScope.types (scope : BindingScope) : TypeTable := scope.runtime.types

namespace Compiling

def search {α : Type} (action : MemberSearch α) : Compiling α := fun s =>
  let (result, members) := action s.caches.members
  (result, { s with caches := { s.caches with members } })

def descriptor (key : DispatchKey) : Compiling Descriptor := fun s =>
  let (result, descriptors) := DescriptorCache.request key s.caches.descriptors
  (result, { s with caches := { s.caches with descriptors } })

-- Keeps a message, unless the binding is only a trial.
def report (d : Diagnostic) : Compiling Unit :=
  modify fun s =>
    if s.flags.hasAll .probingMode then s else { s with diagnostics := s.diagnostics ++ [d] }

def fault (r : Runtime) (fault : BindingFault) (span : Span) : Compiling Unit :=
  report (fault.toDiagnostic r span)

def errorCount : Compiling Nat := do return Diagnostic.countErrors (← get).diagnostics

-- Runs a step in a scope with other flags.
def inScope {α : Type} (enter : ScopeFlags → ScopeFlags × FlagsGuard) (body : Compiling α) :
    Compiling α := do
  let (flags, guard) := enter (← get).flags
  modify fun s => { s with flags }
  let result ← body
  modify fun s => { s with flags := s.flags.leave guard }
  return result

-- Whether arithmetic is checked for overflow here.
def isChecked : Compiling Bool := do return (← get).flags.hasAll .checkedScope

end Compiling

end EventScript
