namespace EventScript

-- Items that are left: fewer than `bound`.
structure Rest (α : Type) (bound : Nat) where
  items : List α
  length_lt : items.length < bound

-- The same items under a weaker bound.
def Rest.weaken {α : Type} {m n : Nat} (rest : Rest α m) (h : m ≤ n) : Rest α n :=
  ⟨rest.items, Nat.lt_of_lt_of_le rest.length_lt h⟩

end EventScript
