namespace CypherLang.Text

/-- Whether one of the ranges, ends included, holds the code point of `c`. -/
def inRanges (ranges : Array (Nat × Nat)) (c : Char) : Bool :=
  ranges.any fun (low, high) => low ≤ c.toNat && c.toNat ≤ high

end CypherLang.Text
