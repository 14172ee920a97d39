import EventScript.Binding.Compiling
import EventScript.Proofs.Host.MemberSearch
import EventScript.Proofs.ScopeFlags

namespace EventScript

@[simp] theorem DescriptorCache.key_request (key : DispatchKey) (cache : DescriptorCache) :
    (request key cache).1.key = key := by
  unfold request
  cases h : cache.tables.find? key with
  | none => rfl
  | some d => exact cache.key_eq_of_find key d h

-- Outside of trials a fault is kept.
theorem Compiling.fault_kept (r : Runtime) (f : BindingFault) (span : Span) {s : Compilation}
    (hs : s.flags.hasAll .probingMode = false) :
    fault r f span s = ((), { s with diagnostics := s.diagnostics ++ [f.toDiagnostic r span] }) :=
  congrArg (Prod.mk ()) (if_neg (by simp [hs]))

namespace Compilation

def errors (s : Compilation) : Nat := Diagnostic.countErrors s.diagnostics

-- The shared indices are right and faults are kept, which is how every compilation starts.
def Ready (t : TypeTable) (s : Compilation) : Prop :=
  s.caches.members.Sound t ∧ s.flags.hasAll .probingMode = false

namespace Ready

variable {t : TypeTable} {s : Compilation}

theorem enterCheckedScope (hs : s.Ready t) (checked : Bool) :
    Ready t { s with flags := (s.flags.enterWith .checkedScope checked).1 } :=
  ⟨hs.1, (ScopeFlags.hasAll_probingMode_enterWith_checkedScope _ _).trans hs.2⟩

theorem leaveCheckedScope (hs : s.Ready t) (outer : ScopeFlags) (checked : Bool) :
    Ready t { s with flags := s.flags.leave (outer.enterWith .checkedScope checked).2 } :=
  ⟨hs.1, (ScopeFlags.hasAll_probingMode_leave_checkedScope _ outer checked).trans hs.2⟩

-- A search that is run while probing.
theorem inProbingScope {α : Type} {m : MemberSearch α} {Q : α → Prop} (hs : s.Ready t)
    (h : MemberSearch.Finds (MemberCache.Sound t) m Q) :
    (Compiling.inScope (·.enterOn .probingMode) (Compiling.search m) s).2.Ready t :=
  ⟨(h _ hs.1).2, (ScopeFlags.hasAll_probingMode_leave_probingMode _ s.flags).trans hs.2⟩

end Ready

end Compilation

namespace Compiling

open Compilation MemberSearch

variable {t : TypeTable} {count : Nat} {α β : Type} {P Q : α → Prop} {R : β → Prop}

@[simp] theorem pure_apply (a : α) (s : Compilation) : (pure a : Compiling α) s = (a, s) := rfl

@[simp] theorem bind_apply (m : Compiling α) (f : α → Compiling β) (s : Compilation) :
    (m >>= f) s = f (m s).1 (m s).2 := rfl

-- A step that keeps what is known about the state, and what it results in.
def Gives (I : Compilation → Prop) (m : Compiling α) (Q : α → Prop) : Prop :=
  ∀ s, I s → I (m s).2 ∧ Q (m s).1

namespace Gives

variable {I : Compilation → Prop}

theorem imp {m : Compiling α} (h : Gives I m P) (hq : ∀ a, P a → Q a) : Gives I m Q :=
  fun s hs => (h s hs).imp_right (hq _)

theorem pure {a : α} (h : Q a) : Gives I (pure a) Q := fun _ hs => ⟨hs, h⟩

theorem bind {m : Compiling α} {f : α → Compiling β} (hm : Gives I m P)
    (hf : ∀ a, P a → Gives I (f a) R) : Gives I (m >>= f) R := by
  intro s hs
  obtain ⟨hr, hp⟩ := hm s hs
  exact hf _ hp _ hr

end Gives

-- No step takes errors back. A step with `count` errors before it and still `count` behind it has
-- added none, and then its result is as described.
def Ensures (t : TypeTable) (count : Nat) (m : Compiling α) (Q : α → Prop) : Prop :=
  ∀ s, s.Ready t → (m s).2.Ready t ∧ s.errors ≤ (m s).2.errors ∧
    (s.errors = count → (m s).2.errors = count → Q (m s).1)

namespace Ensures

theorem imp {m : Compiling α} (h : Ensures t count m P) (hq : ∀ a, P a → Q a) :
    Ensures t count m Q := by
  intro s hs
  obtain ⟨hr, hle, hp⟩ := h s hs
  exact ⟨hr, hle, fun hb he => hq _ (hp hb he)⟩

theorem pure {a : α} (h : Q a) : Ensures t count (pure a) Q :=
  fun _ hs => ⟨hs, Nat.le_refl _, fun _ _ => h⟩

-- What the first step ensures may be assumed in what the second has to ensure, but the second may
-- not rely on it: it runs on the failures of the first as well.
theorem bind {m : Compiling α} {f : α → Compiling β} (hm : Ensures t count m P)
    (hf : ∀ a, Ensures t count (f a) fun b => P a → R b) : Ensures t count (m >>= f) R := by
  intro s hs
  obtain ⟨hr, hle, hp⟩ := hm s hs
  obtain ⟨hr', hle', hq⟩ := hf (m s).1 (m s).2 hr
  refine ⟨hr', Nat.le_trans hle hle', fun hb he => ?_⟩
  rw [bind_apply] at he
  have hmid : (m s).2.errors = count := by omega
  exact hq hmid he (hp hb hmid)

theorem search {m : MemberSearch α} (hm : Steady t m) :
    Ensures t count (search m) (· = m.answer) := by
  intro s hs
  obtain ⟨ha, hc⟩ := hm s.caches.members hs.1
  exact ⟨⟨hc, hs.2⟩, Nat.le_refl _, fun _ _ => ha⟩

theorem descriptor (key : DispatchKey) :
    Ensures t count (descriptor key) (·.key = key) :=
  fun s hs => ⟨hs, Nat.le_refl _, fun _ _ => DescriptorCache.key_request key s.caches.descriptors⟩

-- Whatever follows a fault, the compilation has failed.
theorem fault (r : Runtime) (f : BindingFault) (span : Span) :
    Ensures t count (fault r f span) fun _ => False := by
  intro s hs
  have hcount : (Compiling.fault r f span s).2.errors = s.errors + 1 := by
    rw [fault_kept r f span hs.2]
    simp [errors, Diagnostic.countErrors, BindingFault.toDiagnostic, Diagnostic.isError]
  refine ⟨?_, by omega, fun hb he => by omega⟩
  rw [fault_kept r f span hs.2]
  exact hs

-- A step that reports a fault and gives up ensures anything of its result.
theorem giveUp (r : Runtime) (f : BindingFault) (span : Span) (a : α) :
    Ensures t count (do Compiling.fault r f span; return a) Q :=
  (fault r f span).bind fun _ => .pure fun h => h.elim

-- A fold whose steps each have a known result has the result of the fold over these.
theorem foldlM {f : α → β → Compiling α} {g : α → β → α}
    (h : ∀ a b, Ensures t count (f a b) (· = g a b)) (bs : List β) (a : α) :
    Ensures t count (bs.foldlM f a) (· = bs.foldl g a) := by
  induction bs generalizing a with
  | nil => exact .pure rfl
  | cons b bs ih =>
      rw [List.foldlM_cons, List.foldl_cons]
      refine (h a b).bind fun next => (ih next).imp fun result hr hn => ?_
      rw [hr, hn]

theorem errorCount : Ensures t count errorCount (· = count) :=
  fun _ hs => ⟨hs, Nat.le_refl _, fun hb _ => hb⟩

theorem isChecked : Ensures t count isChecked fun _ => True :=
  fun _ hs => ⟨hs, Nat.le_refl _, fun _ _ => trivial⟩

theorem inCheckedScope {checked : Bool} {body : Compiling α} (h : Ensures t count body Q) :
    Ensures t count (inScope (·.enterWith .checkedScope checked) body) Q := by
  intro s hs
  obtain ⟨hr, hle, hq⟩ := h _ (hs.enterCheckedScope checked)
  exact ⟨hr.leaveCheckedScope s.flags checked, hle, hq⟩

-- While probing, a step that only looks members up cannot tell the difference.
theorem inProbingScope {m : MemberSearch α} (hm : Steady t m) :
    Ensures t count (inScope (·.enterOn .probingMode) (Compiling.search m)) (· = m.answer) :=
  fun _ hs => ⟨hs.inProbingScope hm.finds, Nat.le_refl _, fun _ _ => (hm _ hs.1).1⟩

end Ensures

-- A step that starts ready and ends ready, whatever it reports

namespace Gives

-- A step whose result does not matter for what follows.
theorem andThen {m : Compiling α} {f : α → Compiling β} (hm : Ensures t 0 m P)
    (hf : ∀ a, Gives (Ready t) (f a) R) : Gives (Ready t) (m >>= f) R :=
  fun s hs => hf _ _ (hm s hs).1

theorem giveUp {r : Runtime} {f : BindingFault} {span : Span} {a : α} (h : Q a) :
    Gives (Ready t) (do fault r f span; return a) Q :=
  andThen (Ensures.fault r f span) fun _ => .pure h

theorem search {m : MemberSearch α} (h : Finds (MemberCache.Sound t) m Q) :
    Gives (Ready t) (search m) Q := by
  intro s hs
  obtain ⟨hq, hc⟩ := h s.caches.members hs.1
  exact ⟨⟨hc, hs.2⟩, hq⟩

theorem descriptor (key : DispatchKey) : Gives (Ready t) (descriptor key) (·.key = key) :=
  fun s hs => ⟨hs, DescriptorCache.key_request key s.caches.descriptors⟩

theorem inCheckedScope {checked : Bool} {body : Compiling α} (h : Gives (Ready t) body Q) :
    Gives (Ready t) (inScope (·.enterWith .checkedScope checked) body) Q := by
  intro s hs
  obtain ⟨hr, hq⟩ := h _ (hs.enterCheckedScope checked)
  exact ⟨hr.leaveCheckedScope s.flags checked, hq⟩

theorem inProbingScope {m : MemberSearch α} (h : Finds (MemberCache.Sound t) m Q) :
    Gives (Ready t) (inScope (·.enterOn .probingMode) (Compiling.search m)) Q :=
  fun _ hs => ⟨hs.inProbingScope h, (h _ hs.1).1⟩

end Gives

end Compiling

end EventScript
