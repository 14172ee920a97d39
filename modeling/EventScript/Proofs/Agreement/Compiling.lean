import EventScript.Bound
import EventScript.Proofs.Agreement.Host
import EventScript.Proofs.Binding.Compiling
import EventScript.Proofs.Dispatch

namespace EventScript

-- Bound trees with their descriptors exchanged

def Descriptor.unnumbered (d : Descriptor) : Descriptor := { d with serial := 0 }

def BoundOp.mapDescriptor (f : Descriptor → Descriptor) : BoundOp → BoundOp
  | convert conversion descriptor checked => convert conversion (f descriptor) checked
  | unary op descriptor checked => unary op (f descriptor) checked
  | binary op descriptor checked => binary op (f descriptor) checked
  | dynamic descriptor => dynamic (f descriptor)
  | op => op

theorem BoundOp.mapDescriptor_id (op : BoundOp) : op.mapDescriptor id = op := by
  cases op <;> rfl

theorem BoundOp.isError_mapDescriptor (f : Descriptor → Descriptor) (op : BoundOp) :
    (op.mapDescriptor f).isError = op.isError := by
  cases op <;> rfl

namespace BoundExpr

def mapDescriptors (f : Descriptor → Descriptor) : BoundExpr → BoundExpr
  | node op type span operands =>
    node (op.mapDescriptor f) type span (operands.map (mapDescriptors f))
termination_by e => sizeOf e

-- The tree with the key of every descriptor, but without its number.
def unnumbered (e : BoundExpr) : BoundExpr := e.mapDescriptors .unnumbered

theorem mapDescriptors_id (e : BoundExpr) : e.mapDescriptors id = e := by
  induction e using mapDescriptors.induct with
  | case1 op type span operands ih =>
      rw [mapDescriptors, op.mapDescriptor_id, List.map_congr_left ih, List.map_id']

end BoundExpr

-- Two runs side by side

-- How the descriptors of two runs are compared: by their keys alone, with the very descriptors of
-- the first run in a second one that starts where they are known, or in runs that start with the
-- same ones.
inductive Comparison where
  | keys
  | replay
  | lockstep
deriving DecidableEq, Repr

namespace Comparison

-- What is compared of a descriptor.
def view : Comparison → Descriptor → Descriptor
  | keys => .unnumbered
  | replay | lockstep => id

-- What the second run has to start with, given what the first one starts with and leaves.
def Starts (c : Comparison) (start left start' : DescriptorCache) : Prop :=
  match c with
  | keys => True
  | replay => left.Keeps start'
  | lockstep => start' = start

-- What the second run leaves, given what the first one leaves and what it starts with itself.
def Leaves (c : Comparison) (left start' left' : DescriptorCache) : Prop :=
  match c with
  | keys => True
  | replay => left' = start'
  | lockstep => left' = left

variable {c : Comparison} {d d' : Descriptor}
  {start middle left start' middle' left' : DescriptorCache}

theorem key_eq_of_view (h : c.view d = c.view d') : d.key = d'.key := by
  have hkey : (c.view d).key = (c.view d').key := congrArg Descriptor.key h
  cases c <;> exact hkey

theorem exists_starts (c : Comparison) (start left : DescriptorCache) :
    ∃ start', c.Starts start left start' := by
  cases c with
  | keys => exact ⟨start, trivial⟩
  | replay => exact ⟨left, .refl left⟩
  | lockstep => exact ⟨start, rfl⟩

theorem Starts.of_keeps (h : c.Starts start left start') (hk : middle.Keeps left) :
    c.Starts start middle start' := by
  cases c with
  | keys => trivial
  | replay => exact hk.trans h
  | lockstep => exact h

theorem Starts.of_leaves (h : c.Starts start left start') (hl : c.Leaves middle start' middle') :
    c.Starts middle left middle' := by
  cases c with
  | keys => trivial
  | replay => exact (show middle' = start' from hl) ▸ h
  | lockstep => exact hl

theorem Starts.leaves_self (h : c.Starts start start start') : c.Leaves start start' start' := by
  cases c with
  | keys => trivial
  | replay => rfl
  | lockstep => exact h

theorem Leaves.trans (h : c.Leaves middle start' middle') (h' : c.Leaves left middle' left') :
    c.Leaves left start' left' := by
  cases c with
  | keys => trivial
  | replay => exact Eq.trans h' h
  | lockstep => exact h'

-- A key for which the first run leaves a descriptor is answered with it in the second.
theorem request_alike (key : DispatchKey)
    (h : c.Starts start (DescriptorCache.request key start).2 start') :
    c.view (DescriptorCache.request key start).1 = c.view (DescriptorCache.request key start').1 ∧
      c.Leaves (DescriptorCache.request key start).2 start'
        (DescriptorCache.request key start').2 := by
  cases c with
  | keys =>
      refine ⟨?_, trivial⟩
      simp only [view, Descriptor.unnumbered, DescriptorCache.key_request]
  | replay =>
      have hfound : start'.tables.find? key = some (DescriptorCache.request key start).1 :=
        h key _ (DescriptorCache.find?_request key start)
      have hrun : DescriptorCache.request key start' =
          ((DescriptorCache.request key start).1, start') := by
        rw [DescriptorCache.request, hfound]
      rw [hrun]
      exact ⟨rfl, rfl⟩
  | lockstep =>
      obtain rfl : start' = start := h
      exact ⟨rfl, rfl⟩

end Comparison

-- Bound trees that are the same in what is compared.
def BoundExpr.Alike (c : Comparison) (e e' : BoundExpr) : Prop :=
  e.mapDescriptors c.view = e'.mapDescriptors c.view

namespace BoundExpr.Alike

variable {c : Comparison} {e e' : BoundExpr} {es es' : List BoundExpr} {op op' : BoundOp}

theorem node (hop : op.mapDescriptor c.view = op'.mapDescriptor c.view) (type : TypeId)
    (span : Span) (hes : List.Forall₂ (Alike c) es es') :
    Alike c (.node op type span es) (.node op' type span es') := by
  have hmap : es.map (mapDescriptors c.view) = es'.map (mapDescriptors c.view) := by
    induction hes with
    | nil => rfl
    | cons he _ ih => rw [List.map_cons, List.map_cons, he, ih]
  rw [Alike, mapDescriptors, mapDescriptors, hop, hmap]

theorem failed (c : Comparison) (span : Span) : Alike c (.failed span) (.failed span) := rfl

theorem dynamic {d d' : Descriptor} (hd : c.view d = c.view d') (span : Span)
    (hes : List.Forall₂ (Alike c) es es') :
    Alike c (.dynamic d es span) (.dynamic d' es' span) := by
  have hop : (BoundOp.dynamic d).mapDescriptor c.view =
      (BoundOp.dynamic d').mapDescriptor c.view := by
    rw [BoundOp.mapDescriptor, BoundOp.mapDescriptor, hd]
  exact node hop .object span hes

-- What the binder looks at in a tree is not exchanged.

theorem type_eq (h : Alike c e e') : e'.type = e.type := by
  obtain ⟨op, type, span, operands⟩ := e
  obtain ⟨op', type', span', operands'⟩ := e'
  rw [Alike, mapDescriptors, mapDescriptors] at h
  exact (BoundExpr.node.inj h).2.1.symm

theorem span_eq (h : Alike c e e') : e'.span = e.span := by
  obtain ⟨op, type, span, operands⟩ := e
  obtain ⟨op', type', span', operands'⟩ := e'
  rw [Alike, mapDescriptors, mapDescriptors] at h
  exact (BoundExpr.node.inj h).2.2.1.symm

theorem isError_eq (h : Alike c e e') : e'.isError = e.isError := by
  obtain ⟨op, type, span, operands⟩ := e
  obtain ⟨op', type', span', operands'⟩ := e'
  rw [Alike, mapDescriptors, mapDescriptors] at h
  have hop := congrArg BoundOp.isError (BoundExpr.node.inj h).1
  rw [BoundOp.isError_mapDescriptor, BoundOp.isError_mapDescriptor] at hop
  exact hop.symm

theorem withSpan (h : Alike c e e') (span : Span) : Alike c (e.withSpan span) (e'.withSpan span) := by
  obtain ⟨op, type, own, operands⟩ := e
  obtain ⟨op', type', own', operands'⟩ := e'
  rw [Alike, mapDescriptors, mapDescriptors] at h
  obtain ⟨hop, rfl, -, hes⟩ := BoundExpr.node.inj h
  rw [Alike, BoundExpr.withSpan, BoundExpr.withSpan, mapDescriptors, mapDescriptors, hop, hes]

theorem types_eq (h : List.Forall₂ (Alike c) es es') : es'.map (·.type) = es.map (·.type) := by
  induction h with
  | nil => rfl
  | cons he _ ih => rw [List.map_cons, List.map_cons, he.type_eq, ih]

theorem any_isError_eq (h : List.Forall₂ (Alike c) es es') :
    es'.any (·.isError) = es.any (·.isError) := by
  induction h with
  | nil => rfl
  | cons he _ ih => rw [List.any_cons, List.any_cons, he.isError_eq, ih]

end BoundExpr.Alike

-- Two states of compilations on two tables, of which no step can tell the difference but by the
-- numbers of its descriptors.
structure Compilation.Beside (t t' : TypeTable) (s s' : Compilation) : Prop where
  sound : s.caches.members.Sound t
  sound' : s'.caches.members.Sound t'
  flags_eq : s'.flags = s.flags
  diagnostics_eq : s'.diagnostics = s.diagnostics

namespace Compiling

open MemberSearch

variable {c : Comparison} {t t' : TypeTable} {α β γ δ : Type} {P : α → β → Prop}
  {Q : γ → δ → Prop}

-- A step on the one table does what another step does on the other, if the second run starts with
-- the descriptors that the comparison asks for.
def Matches (c : Comparison) (t t' : TypeTable) (m : Compiling α) (m' : Compiling β)
    (P : α → β → Prop) : Prop :=
  ∀ s s' : Compilation, s.Beside t t' s' →
    s.caches.descriptors.Keeps (m s).2.caches.descriptors ∧
      (c.Starts s.caches.descriptors (m s).2.caches.descriptors s'.caches.descriptors →
        P (m s).1 (m' s').1 ∧ (m s).2.Beside t t' (m' s').2 ∧
          c.Leaves (m s).2.caches.descriptors s'.caches.descriptors
            (m' s').2.caches.descriptors)

namespace Matches

theorem pure {a : α} {b : β} (h : P a b) :
    Matches c t t' (pure a : Compiling α) (pure b : Compiling β) P :=
  fun _ _ hs => ⟨.refl _, fun hstart => ⟨h, hs, hstart.leaves_self⟩⟩

-- That the first run only adds descriptors is told by comparing its first step with a second run
-- that starts as it has to.
theorem bind {m : Compiling α} {m' : Compiling β} {f : α → Compiling γ} {f' : β → Compiling δ}
    (hm : Matches c t t' m m' P) (hf : ∀ a b, P a b → Matches c t t' (f a) (f' b) Q) :
    Matches c t t' (m >>= f) (m' >>= f') Q := by
  intro s s' hs
  have hkeeps : (m s).2.caches.descriptors.Keeps (f (m s).1 (m s).2).2.caches.descriptors := by
    obtain ⟨descriptors, hstart⟩ :=
      c.exists_starts s.caches.descriptors (m s).2.caches.descriptors
    let own : Compilation := { s' with caches := { s'.caches with descriptors } }
    have hown : s.Beside t t' own := ⟨hs.sound, hs.sound', hs.flags_eq, hs.diagnostics_eq⟩
    obtain ⟨hp, hb, -⟩ := (hm s own hown).2 hstart
    exact (hf _ _ hp _ _ hb).1
  refine ⟨(hm s s' hs).1.trans hkeeps, fun hstart => ?_⟩
  obtain ⟨hp, hb, hl⟩ := (hm s s' hs).2 (hstart.of_keeps hkeeps)
  obtain ⟨hq, hb', hl'⟩ := (hf _ _ hp _ _ hb).2 (hstart.of_leaves hl)
  exact ⟨hq, hb', hl.trans hl'⟩

-- Steps with the same result, one after the other.
theorem bindSame {m m' : Compiling α} {f : α → Compiling γ} {f' : α → Compiling δ}
    (hm : Matches c t t' m m' Eq) (hf : ∀ a, Matches c t t' (f a) (f' a) Q) :
    Matches c t t' (m >>= f) (m' >>= f') Q :=
  hm.bind fun a _ he => he ▸ hf a

-- A step that neither asks for descriptors nor looks members up.
theorem withoutCaches {m : Compiling α} {m' : Compiling β}
    (hm : ∀ s, (m s).2.caches = s.caches) (hm' : ∀ s, (m' s).2.caches = s.caches)
    (h : ∀ s s' : Compilation, s'.flags = s.flags → s'.diagnostics = s.diagnostics →
      P (m s).1 (m' s').1 ∧ (m' s').2.flags = (m s).2.flags ∧
        (m' s').2.diagnostics = (m s).2.diagnostics) : Matches c t t' m m' P := by
  intro s s' hs
  obtain ⟨hp, hf, hd⟩ := h s s' hs.flags_eq hs.diagnostics_eq
  rw [hm, hm']
  refine ⟨.refl _, fun hstart => ⟨hp, ⟨?_, ?_, hf, hd⟩, hstart.leaves_self⟩⟩
  · exact hm s ▸ hs.sound
  · exact hm' s' ▸ hs.sound'

theorem search {m : MemberSearch α} {m' : MemberSearch β} (h : Concur t t' m m' P) :
    Matches c t t' (search m) (search m') P := by
  intro s s' hs
  obtain ⟨hp, hsound, hsound'⟩ := h _ _ hs.sound hs.sound'
  exact ⟨.refl _, fun hstart =>
    ⟨hp, ⟨hsound, hsound', hs.flags_eq, hs.diagnostics_eq⟩, hstart.leaves_self⟩⟩

theorem descriptor (key : DispatchKey) :
    Matches c t t' (descriptor key) (descriptor key) fun d d' => c.view d = c.view d' := by
  intro s s' hs
  refine ⟨DescriptorCache.keeps_request key _, fun hstart => ?_⟩
  obtain ⟨hd, hl⟩ := Comparison.request_alike key hstart
  exact ⟨hd, ⟨hs.sound, hs.sound', hs.flags_eq, hs.diagnostics_eq⟩, hl⟩

theorem errorCount : Matches c t t' errorCount errorCount Eq :=
  withoutCaches (fun _ => rfl) (fun _ => rfl) fun _ _ hf hd =>
    ⟨congrArg Diagnostic.countErrors hd.symm, hf, hd⟩

theorem isChecked : Matches c t t' isChecked isChecked Eq :=
  withoutCaches (fun _ => rfl) (fun _ => rfl) fun _ _ hf hd =>
    ⟨congrArg (ScopeFlags.hasAll · .checkedScope) hf.symm, hf, hd⟩

theorem fault {r r' : Runtime} {f : BindingFault} {span : Span}
    (h : f.message r' = f.message r) :
    Matches c t t' (fault r f span) (fault r' f span) fun _ _ => True := by
  have hcaches (r : Runtime) (s : Compilation) :
      (Compiling.fault r f span s).2.caches = s.caches := by
    change (if s.flags.hasAll .probingMode then s else _ : Compilation).caches = _
    split <;> rfl
  have hdiagnostic : f.toDiagnostic r' span = f.toDiagnostic r span := by
    rw [BindingFault.toDiagnostic, BindingFault.toDiagnostic, h]
  refine withoutCaches (hcaches r) (hcaches r') fun s s' hf hd => ⟨trivial, ?_⟩
  change (if s'.flags.hasAll .probingMode then s' else _ : Compilation).flags =
      (if s.flags.hasAll .probingMode then s else _ : Compilation).flags ∧
    (if s'.flags.hasAll .probingMode then s' else _ : Compilation).diagnostics =
      (if s.flags.hasAll .probingMode then s else _ : Compilation).diagnostics
  rw [hf, hdiagnostic]
  split
  · exact ⟨hf, hd⟩
  · exact ⟨rfl, congrArg (· ++ [f.toDiagnostic r span]) hd⟩

-- A step that reports a fault and gives up.
theorem giveUp {r r' : Runtime} {f : BindingFault} {span : Span} {a : α} {b : β}
    (hmessage : f.message r' = f.message r) (h : P a b) :
    Matches c t t' (do Compiling.fault r f span; return a)
      (do Compiling.fault r' f span; return b) P :=
  (fault hmessage).bind fun _ _ _ => .pure h

theorem inScope {enter : ScopeFlags → ScopeFlags × FlagsGuard} {body : Compiling α}
    {body' : Compiling β} (h : Matches c t t' body body' P) :
    Matches c t t' (inScope enter body) (inScope enter body') P := by
  intro s s' hs
  let inner (s : Compilation) : Compilation := { s with flags := (enter s.flags).1 }
  have hinner : (inner s).Beside t t' (inner s') :=
    ⟨hs.sound, hs.sound', congrArg (fun flags => (enter flags).1) hs.flags_eq, hs.diagnostics_eq⟩
  obtain ⟨hk, hbody⟩ := h _ _ hinner
  refine ⟨hk, fun hstart => ?_⟩
  obtain ⟨hp, hb, hl⟩ := hbody hstart
  refine ⟨hp, ⟨hb.sound, hb.sound', ?_, hb.diagnostics_eq⟩, hl⟩
  change (body' (inner s')).2.flags.leave (enter s'.flags).2 =
    (body (inner s)).2.flags.leave (enter s.flags).2
  rw [hb.flags_eq, hs.flags_eq]

theorem foldlM {ε : Type} {f : α → ε → Compiling α} {f' : β → ε → Compiling β}
    (h : ∀ a b, P a b → ∀ item, Matches c t t' (f a item) (f' b item) P) (items : List ε) {a : α}
    {b : β} (hab : P a b) : Matches c t t' (items.foldlM f a) (items.foldlM f' b) P := by
  induction items generalizing a b with
  | nil => exact .pure hab
  | cons item items ih =>
      rw [List.foldlM_cons, List.foldlM_cons]
      exact (h a b hab item).bind fun _ _ hnext => ih hnext

end Matches

end Compiling

namespace BindingScope

-- The same scope on another host.
def on (scope : BindingScope) (r : Runtime) : BindingScope := { scope with runtime := r }

variable (scope : BindingScope) (r : Runtime)

@[simp] theorem runtime_on : (scope.on r).runtime = r := rfl

@[simp] theorem names_on : (scope.on r).names = scope.names := rfl

@[simp] theorem parameters_on : (scope.on r).parameters = scope.parameters := rfl

@[simp] theorem types_on : (scope.on r).types = r.types := rfl

end BindingScope

theorem Runtime.Agrees.scopeTypes {scope : BindingScope} {r : Runtime}
    (h : scope.runtime.Agrees r) : scope.types.Agrees r.types := h.types

end EventScript
