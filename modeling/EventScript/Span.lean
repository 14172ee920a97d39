namespace EventScript

-- The half-open range from `start` up to `stop`.
structure Span where
  start : Nat
  stop : Nat
deriving DecidableEq, Repr, Inhabited

namespace Span

-- The span of what has no place in a source.
def none : Span := ⟨0, 0⟩

-- The smallest span that covers both.
def hull (a b : Span) : Span := ⟨min a.start b.start, max a.stop b.stop⟩

-- The number of bytes covered; a span that ends before it starts covers none.
def length (s : Span) : Nat := s.stop - s.start

def isEmpty (s : Span) : Bool := s.length == 0

def render (s : Span) : String := s!"{s.start}..{s.stop}"

-- Both bounds moved on by `offset` bytes.
def shift (s : Span) (offset : Nat) : Span := ⟨s.start + offset, s.stop + offset⟩

instance : HasSubset Span := ⟨fun inner outer => outer.start ≤ inner.start ∧ inner.stop ≤ outer.stop⟩

instance (inner outer : Span) : Decidable (inner ⊆ outer) :=
  inferInstanceAs (Decidable (outer.start ≤ inner.start ∧ inner.stop ≤ outer.stop))

theorem subset_rfl {a : Span} : a ⊆ a := ⟨Nat.le_refl _, Nat.le_refl _⟩

theorem subset_trans {a b c : Span} (h : a ⊆ b) (h' : b ⊆ c) : a ⊆ c :=
  ⟨Nat.le_trans h'.1 h.1, Nat.le_trans h.2 h'.2⟩

theorem subset_hull_left (a b : Span) : a ⊆ a.hull b :=
  ⟨Nat.min_le_left _ _, Nat.le_max_left _ _⟩

theorem subset_hull_right (a b : Span) : b ⊆ a.hull b :=
  ⟨Nat.min_le_right _ _, Nat.le_max_right _ _⟩

theorem subset_hull_of_between {a b inner : Span} (hstart : a.start ≤ inner.start)
    (hstop : inner.stop ≤ b.stop) : inner ⊆ a.hull b :=
  ⟨Nat.le_trans (Nat.min_le_left _ _) hstart, Nat.le_trans hstop (Nat.le_max_right _ _)⟩

-- Nothing smaller covers both.
theorem hull_subset {a b outer : Span} (ha : a ⊆ outer) (hb : b ⊆ outer) : a.hull b ⊆ outer :=
  ⟨Nat.le_min.mpr ⟨ha.1, hb.1⟩, Nat.max_le.mpr ⟨ha.2, hb.2⟩⟩

end Span

end EventScript
