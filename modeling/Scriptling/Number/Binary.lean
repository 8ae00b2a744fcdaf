/-!
# Doubles as integers

A finite double is a significand times a power of two. Reading its bits gives
the two integers, and rounding a quotient of integers to the nearest double
gives the bits back. All arithmetic here is exact arithmetic on integers.
-/
namespace Scriptling.Binary

/-- What the bits of a double stand for. A finite one is
`significand * 2 ^ exponent`. -/
inductive Parts where
  | notANumber
  | infinite (negative : Bool)
  | finite (negative : Bool) (significand : Nat) (exponent : Int)
deriving DecidableEq, Repr

/-- The bits below the sign bit of an infinity. -/
def infinityBits : Nat := 2047 * Nat.pow 2 52

/-- The exponent of the smallest positive double. -/
def leastExponent : Int := -1074

def partsOfBits (bits : Nat) : Parts :=
  let negative := decide (Nat.pow 2 63 ≤ bits)
  let field := bits / Nat.pow 2 52 % 2048
  let fraction := bits % Nat.pow 2 52
  if field = 2047 then
    if fraction = 0 then .infinite negative else .notANumber
  else if field = 0 then .finite negative fraction leastExponent
  else .finite negative (Nat.pow 2 52 + fraction) (leastExponent + (field - 1 : Nat))

def parts (x : Float) : Parts :=
  partsOfBits x.toBits.toNat

/-- The sign bit, which zeros have too. -/
def isNegative (x : Float) : Bool :=
  decide (Nat.pow 2 63 ≤ x.toBits.toNat)

/-- The bits of the magnitude of a double, its sign left out. -/
def magnitudeBits (x : Float) : Nat :=
  x.toBits.toNat % Nat.pow 2 63

/-- The integer nearest to a quotient; a half goes to the even neighbour. -/
def roundDiv (num den : Nat) : Nat :=
  let quotient := num / den
  let twice := 2 * (num % den)
  if twice < den ∨ (twice = den ∧ quotient % 2 = 0) then quotient else quotient + 1

/-- Whether `base ^ k ≤ num / den`. -/
def powerLe (base : Nat) (k : Int) (num den : Nat) : Bool :=
  if 0 ≤ k then decide (Nat.pow base k.toNat * den ≤ num)
  else decide (den ≤ num * Nat.pow base (-k).toNat)

/-- The exponent of the largest power of two that is not above a positive
quotient. -/
def floorLog2 (num den : Nat) : Int :=
  let guess : Int := (num.log2 : Int) - (den.log2 : Int)
  if powerLe 2 guess num den then guess else guess - 1

/-- The exponent of the last place of the double nearest to a quotient. -/
def unitExponent (num den : Nat) : Int :=
  max leastExponent (floorLog2 num den - 52)

/-- The bits of the double nearest to a quotient; a tie goes to the even
significand, and what is too large becomes the infinity. Rounding up to the
next power of two carries into the exponent field, as it should. -/
def nearestBits (num den : Nat) : Nat :=
  if num = 0 then 0
  else
    let e := unitExponent num den
    let significand :=
      if 0 ≤ e then roundDiv num (den * Nat.pow 2 e.toNat)
      else roundDiv (num * Nat.pow 2 (-e).toNat) den
    min infinityBits ((e - leastExponent).toNat * Nat.pow 2 52 + significand)

/-- The double with the given sign and magnitude. -/
def ofMagnitude (negative : Bool) (bits : Nat) : Float :=
  Float.ofBits (UInt64.ofNat (if negative then Nat.pow 2 63 + bits else bits))

/-- The double nearest to a quotient of integers. -/
def ofQuotient (negative : Bool) (num den : Nat) : Float :=
  ofMagnitude negative (nearestBits num den)

/-- The double nearest to `significand * 2 ^ exponent`. -/
def ofScaled (negative : Bool) (significand : Nat) (exponent : Int) : Float :=
  if 0 ≤ exponent then ofQuotient negative (significand * Nat.pow 2 exponent.toNat) 1
  else ofQuotient negative significand (Nat.pow 2 (-exponent).toNat)

/-- The double nearest to an integer, if it is in range. -/
def ofInt? (n : Int) : Option Float :=
  let bits := nearestBits n.natAbs 1
  if bits < infinityBits then some (ofMagnitude (decide (n < 0)) bits) else none

/-- The integer that a double equals, if it equals one. -/
def toInt? (x : Float) : Option Int :=
  match parts x with
  | .finite negative m e =>
    let sign : Int := if negative then -1 else 1
    if 0 ≤ e then some (sign * (m * Nat.pow 2 e.toNat : Nat))
    else if m % Nat.pow 2 (-e).toNat = 0 then some (sign * (m / Nat.pow 2 (-e).toNat : Nat))
    else none
  | _ => none

def infinity (negative : Bool) : Float :=
  ofMagnitude negative infinityBits

def notANumber : Float :=
  ofMagnitude false (infinityBits + Nat.pow 2 51)

def isFinite (x : Float) : Bool :=
  decide (magnitudeBits x < infinityBits)

def isInfinite (x : Float) : Bool :=
  decide (magnitudeBits x = infinityBits)

def isNotANumber (x : Float) : Bool :=
  decide (infinityBits < magnitudeBits x)

/-- Equality of numbers that are written down: the two zeros are equal, and what
is not a number equals what is not a number. -/
def same (x y : Float) : Bool :=
  x == y || (isNotANumber x && isNotANumber y)

end Scriptling.Binary
