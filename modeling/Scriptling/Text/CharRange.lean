/-!
# Ranges of characters

A class of characters outside ASCII is a list of closed ranges of code points.
-/
namespace Scriptling

/-- All code points from `first` to `last`, both included. -/
structure CharRange where
  first : Nat
  last : Nat

namespace CharRange

def contains (r : CharRange) (c : Char) : Bool :=
  decide (r.first ≤ c.toNat) && decide (c.toNat ≤ r.last)

theorem contains_iff (r : CharRange) (c : Char) :
    r.contains c = true ↔ r.first ≤ c.toNat ∧ c.toNat ≤ r.last := by
  simp [contains]

end CharRange

/-- Whether some range of a class holds the character. -/
def inRanges (ranges : List CharRange) (c : Char) : Bool :=
  ranges.any (·.contains c)

/-- The characters of ASCII, whose classes are given by rule and not by table. -/
def isAscii (c : Char) : Bool :=
  decide (c.toNat < 128)

end Scriptling
