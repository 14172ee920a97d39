import EventScript.Proofs.Binding.Compiling
import EventScript.Proofs.Lexical.Reference
import EventScript.Proofs.ScopeFlags

namespace EventScript

-- Flags that all have a name, outside of trials, and that tell whether arithmetic is checked.
structure ScopeFlags.Plain (flags : ScopeFlags) (checked : Bool) : Prop where
  declared : ScopeFlags.declared.hasAll flags
  probingMode : flags.hasAll .probingMode = false
  checkedScope : flags.hasAll .checkedScope = checked

theorem ScopeFlags.Plain.enterWith {flags : ScopeFlags} {checked : Bool} (h : flags.Plain checked)
    (on : Bool) : (flags.enterWith .checkedScope on).1.Plain on where
  declared := hasAll_declared_enter (by decide) h.declared
  probingMode := (hasAll_probingMode_enterWith_checkedScope flags on).trans h.probingMode
  checkedScope := hasAll_checkedScope_enterWith flags on

-- The recording as a step of a compilation, which finds its flags as it has left them.
def Recording.keepingFlags {α : Type} (r : Recording α) : Compiling α := fun s =>
  let (result, after) := r ⟨s.caches, s.diagnostics⟩
  (result, ⟨after.caches, s.flags, after.diagnostics⟩)

namespace Compiling

open Recording

variable {α β : Type} {m : Compiling α} {f : α → Compiling β} {r : Recording α}
  {g : α → Recording β} {checked : Bool}

theorem hasAll_probingMode_empty : ScopeFlags.empty.hasAll .probingMode = false := by decide

-- Outside of trials the step does the same under all flags, and leaves them alone.
def Flagless (m : Compiling α) : Prop :=
  ∀ s : Compilation, s.flags.hasAll .probingMode = false → m s = (unflagged m).keepingFlags s

namespace Flagless

theorem pure (a : α) : Flagless (pure a) := fun _ _ => rfl

theorem bind (hm : Flagless m) (hf : ∀ a, Flagless (f a)) : Flagless (m >>= f) := by
  intro s hs
  let bare : Compilation := ⟨s.caches, .empty, s.diagnostics⟩
  let after : Compilation := ⟨(m bare).2.caches, s.flags, (m bare).2.diagnostics⟩
  have hleft : (m bare).2 = ⟨after.caches, .empty, after.diagnostics⟩ :=
    congrArg Prod.snd (hm bare hasAll_probingMode_empty)
  have hrun : (m >>= f) s = f (m bare).1 after := by
    change f (m s).1 (m s).2 = _
    rw [hm s hs]
    rfl
  have hbare : (m >>= f) bare = f (m bare).1 ⟨after.caches, .empty, after.diagnostics⟩ :=
    congrArg (f (m bare).1) hleft
  have hunflagged : unflagged (m >>= f) ⟨s.caches, s.diagnostics⟩ =
      unflagged (f (m bare).1) ⟨after.caches, after.diagnostics⟩ :=
    congrArg (fun run : β × Compilation => (run.1, Record.mk run.2.caches run.2.diagnostics)) hbare
  rw [hrun, hf (m bare).1 after hs, keepingFlags, keepingFlags, hunflagged]

theorem search (action : MemberSearch α) : Flagless (search action) := fun _ _ => rfl

theorem descriptor (key : DispatchKey) : Flagless (descriptor key) := fun _ _ => rfl

theorem errorCount : Flagless errorCount := fun _ _ => rfl

theorem fault (r : Runtime) (what : BindingFault) (span : Span) : Flagless (fault r what span) := by
  intro s hs
  rw [fault_kept r what span hs, keepingFlags, unflagged,
    fault_kept r what span hasAll_probingMode_empty]

end Flagless

-- Where the flags tell what the recording has been told, the step does what the recording says.
def Follows (checked : Bool) (m : Compiling α) (r : Recording α) : Prop :=
  ∀ s : Compilation, s.flags.Plain checked → m s = r.keepingFlags s

theorem Flagless.follows (h : Flagless m) : Follows checked m (unflagged m) :=
  fun s hs => h s hs.probingMode

namespace Follows

theorem pure (a : α) : Follows checked (pure a) (pure a) := fun _ _ => rfl

theorem bind (hm : Follows checked m r) (hf : ∀ a, Follows checked (f a) (g a)) :
    Follows checked (m >>= f) (r >>= g) := by
  intro s hs
  change f (m s).1 (m s).2 = _
  rw [hm s hs]
  exact hf _ _ hs

theorem bindFlagless (hm : Flagless m) (hf : ∀ a, Follows checked (f a) (g a)) :
    Follows checked (m >>= f) (unflagged m >>= g) := hm.follows.bind hf

-- What is asked of the flags is what the recording has been told.
theorem isChecked {g : Recording β} {f : Bool → Compiling β} (hf : Follows checked (f checked) g) :
    Follows checked (isChecked >>= f) g := by
  intro s hs
  change f (s.flags.hasAll .checkedScope) s = _
  rw [hs.checkedScope]
  exact hf s hs

theorem inCheckedScope {on : Bool} (hm : Follows on m r) :
    Follows checked (inScope (·.enterWith .checkedScope on) m) r := by
  intro s hs
  let entered := s.flags.enterWith .checkedScope on
  let inner : Compilation := ⟨s.caches, entered.1, s.diagnostics⟩
  have hleave : entered.1.leave entered.2 = s.flags := ScopeFlags.leave_enter hs.declared
  have hrun : inScope (·.enterWith .checkedScope on) m s = ((m inner).1,
      ⟨(m inner).2.caches, (m inner).2.flags.leave entered.2, (m inner).2.diagnostics⟩) := rfl
  rw [hrun, hm inner (hs.enterWith on)]
  change (_, Compilation.mk _ (entered.1.leave entered.2) _) = _
  rw [hleave]
  rfl

-- A trial that only searches looks at no flags, and leaves them as they have been.
theorem inProbingScope (action : MemberSearch α) :
    Follows checked (inScope (·.enterOn .probingMode) (search action))
      (unflagged (search action)) := by
  intro s hs
  let entered := s.flags.enterOn .probingMode
  have hleave : entered.1.leave entered.2 = s.flags := ScopeFlags.leave_enter hs.declared
  change (_, Compilation.mk _ (entered.1.leave entered.2) _) = _
  rw [hleave]
  rfl

end Follows

end Compiling

end EventScript
