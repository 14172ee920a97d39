import EventScript.Proofs.Binding.Compiling

namespace EventScript.Compiling

variable {α β : Type} {P Q : α → Prop} {R : β → Prop}

-- Whatever has been compiled and reported before it, the result of the step is as described.
def Yields (m : Compiling α) (Q : α → Prop) : Prop := ∀ s, Q (m s).1

namespace Yields

theorem imp {m : Compiling α} (h : Yields m P) (hq : ∀ a, P a → Q a) : Yields m Q :=
  fun s => hq _ (h s)

theorem pure {a : α} (h : Q a) : Yields (pure a) Q := fun _ => h

theorem bind {m : Compiling α} {f : α → Compiling β} (hm : Yields m P)
    (hf : ∀ a, P a → Yields (f a) R) : Yields (m >>= f) R :=
  fun s => hf _ (hm s) (m s).2

-- A step whose result does not matter for what follows.
theorem andThen {m : Compiling α} {f : α → Compiling β} (hf : ∀ a, Yields (f a) R) :
    Yields (m >>= f) R :=
  fun s => hf _ (m s).2

theorem gives {m : Compiling α} (h : Yields m Q) : Gives (fun _ => True) m Q :=
  fun s _ => ⟨trivial, h s⟩

theorem search {m : MemberSearch α} (h : ∀ cache, Q (m cache).1) : Yields (search m) Q :=
  fun s => h s.caches.members

theorem descriptor (key : DispatchKey) : Yields (descriptor key) (·.key = key) :=
  fun s => DescriptorCache.key_request key s.caches.descriptors

theorem inScope {enter : ScopeFlags → ScopeFlags × FlagsGuard} {body : Compiling α}
    (h : Yields body Q) : Yields (inScope enter body) Q :=
  fun _ => h _

-- A fold whose steps keep something that holds at the start.
theorem foldlM {f : α → β → Compiling α} (h : ∀ a b, Q a → Yields (f a b) Q) (bs : List β) {a : α}
    (ha : Q a) : Yields (bs.foldlM f a) Q := by
  induction bs generalizing a with
  | nil => exact .pure ha
  | cons b bs ih =>
      rw [List.foldlM_cons]
      exact (h a b ha).bind fun next hn => ih hn

end Yields

end EventScript.Compiling
