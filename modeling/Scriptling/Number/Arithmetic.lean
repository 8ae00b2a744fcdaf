import Scriptling.Number.Binary

/-!
# Remainder and power

Both have arguments for which no number is the answer. The remainder truncates
toward zero and is exact. A power too large for a double is an infinity, whose
sign is negative for a negative base and an odd positive exponent only.
-/
namespace Scriptling

open Binary in
/-- The remainder of truncated division, which has the sign of the dividend.
There is none of an infinity or by zero. -/
def remainder? (x y : Float) : Option Float :=
  match parts x, parts y with
  | .notANumber, _ => some notANumber
  | _, .notANumber => some notANumber
  | .infinite _, _ => none
  | .finite .., .infinite _ => some x
  | .finite negative a e, .finite _ b f =>
    if b = 0 then none
    else
      let unit := min e f
      let rest := a * Nat.pow 2 (e - unit).toNat % (b * Nat.pow 2 (f - unit).toNat)
      some (ofScaled negative rest unit)

namespace Power

/-- Exponents up to this size are raised to in exact arithmetic to tell whether
a power is in range. -/
def exactExponents : Nat := 2048

/-- Whether `(m * 2 ^ e) ^ n` rounds to an infinity. -/
def exactOverflows (m : Nat) (e n : Int) : Bool :=
  let scale := Nat.pow 2 (e * n).natAbs
  let power := Nat.pow m n.natAbs
  let num := (if 0 ≤ n then power else 1) * (if 0 ≤ e * n then scale else 1)
  let den := (if 0 ≤ n then 1 else power) * (if 0 ≤ e * n then 1 else scale)
  Binary.nearestBits num den == Binary.infinityBits

/-- Whether a power of two finite numbers, the base not zero, is too large for
a double. -/
def overflows (x y : Float) : Bool :=
  match Binary.parts x, Binary.toInt? y with
  | .finite _ m e, some n =>
    if n.natAbs ≤ exactExponents then exactOverflows m e n else Binary.isInfinite (x.pow y)
  | _, _ => Binary.isInfinite (x.pow y)

/-- Whether the remainder by two is one, which holds of the odd positive
integers. -/
def isOddPositive (y : Float) : Bool :=
  match remainder? y 2.0 with
  | some r => r == 1.0
  | none => false

end Power

open Power in
/-- Raises a number to a power. There is none of zero to a negative power; a
negative number to a fractional one is not a number. -/
def power? (x y : Float) : Option Float :=
  if Binary.isFinite x && Binary.isFinite y then
    if x == 0.0 then
      if y < 0.0 then none else some (x.pow y)
    else if x < 0.0 && (Binary.toInt? y).isNone then some Binary.notANumber
    else if overflows x y then some (Binary.infinity (decide (x < 0.0) && isOddPositive y))
    else some (x.pow y)
  else some (x.pow y)

end Scriptling
