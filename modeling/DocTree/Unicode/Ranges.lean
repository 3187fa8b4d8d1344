/-! Sets of characters, given by ascending ranges of code points. -/
namespace DocTree.Unicode

/-- Whether a code point lies in one of the ranges, which ascend and do not overlap. -/
def inRanges : List (Nat × Nat) → Nat → Bool
  | [], _ => false
  | (lo, hi) :: rest, n => lo ≤ n && (n ≤ hi || inRanges rest n)

end DocTree.Unicode
