/-!
# Limits on iterations

A run may be given a limit on the iterations of all its loops together. A limit
that is no number can only be met: the first iteration cannot be held against
it.
-/
namespace Scriptling

inductive Limit where
  | unlimited
  | atMost (n : Int)
  /-- A value of this kind, which is no number. -/
  | unusable (kind : String)
deriving DecidableEq, Repr

namespace Limit

/-- More steps than any loop will take. -/
def endless : Nat := Nat.pow 2 62

/-- How often a loop may be repeated before the limit has ended it. -/
def steps : Limit → Nat
  | .unlimited => endless
  | .atMost n => n.toNat + 1
  | .unusable _ => 1

end Limit
end Scriptling
