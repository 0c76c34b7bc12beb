/-!
# Ranges of characters

A set of characters as a list of closed ranges of code points.  Tables of character properties are written this
way, in ascending order and with a gap between each range and the next.
-/

namespace BlockLang

-- Sums begin with the numeral zero here, also where the algebraic hierarchy is in scope.
attribute [local instance (high)] Zero.ofOfNat0

/-- A set of characters: the code points from the first to the second number of each pair. -/
abbrev CharRanges := List (Nat × Nat)

namespace CharRanges

/-- Whether a character lies in one of the ranges. -/
def contains (ranges : CharRanges) (c : Char) : Bool :=
  ranges.any fun (first, last) => first ≤ c.toNat && c.toNat ≤ last

/-- Whether no range is empty and each ends before the next one starts, with a gap between them. -/
def ascending : CharRanges → Bool
  | [] => true
  | [(first, last)] => first ≤ last
  | (first, last) :: (next, final) :: rest => first ≤ last && last + 1 < next && ascending ((next, final) :: rest)

/-- How many code points the ranges hold. -/
def count (ranges : CharRanges) : Nat :=
  (ranges.map fun (first, last) => last + 1 - first).sum

/-- A character lies in the union of two sets if it lies in one of them. -/
theorem contains_append (a b : CharRanges) (c : Char) :
    contains (a ++ b) c = (contains a c || contains b c) :=
  List.any_append

end CharRanges

end BlockLang
