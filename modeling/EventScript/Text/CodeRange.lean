namespace EventScript.Text

-- Whether the code point of `c` lies in one of the ranges.
def inRanges (ranges : Array (Nat × Nat)) (c : Char) : Bool :=
  ranges.any fun range => range.1 ≤ c.toNat && c.toNat ≤ range.2

end EventScript.Text
