import Scriptling.Number.Binary

/-!
# Decimal numbers

A decimal is a natural number times a power of ten, with a sign. Reading one
gives the nearest double. The decimal chosen for a double is the shortest that
reads back as it, and of those the nearest to it.
-/
namespace Scriptling

/-- The number `digits * 10 ^ exponent`, with a sign that zero has too. -/
structure Decimal where
  negative : Bool
  digits : Nat
  exponent : Int
deriving DecidableEq, Repr

namespace Decimal

/-- How many digits a number is written with. -/
def width (n : Nat) : Nat :=
  (Nat.toDigits 10 n).length

/-- The bits of the double nearest to `digits * 10 ^ exponent`. What is far
beyond the range of doubles is settled without computing the power. -/
def nearestBits (digits : Nat) (exponent : Int) : Nat :=
  if digits = 0 then 0
  else if 310 < width digits + exponent then Binary.infinityBits
  else if width digits + exponent < -330 then 0
  else if 0 ≤ exponent then Binary.nearestBits (digits * Nat.pow 10 exponent.toNat) 1
  else Binary.nearestBits digits (Nat.pow 10 (-exponent).toNat)

/-- The double nearest to a decimal. -/
def toFloat (d : Decimal) : Float :=
  Binary.ofMagnitude d.negative (nearestBits d.digits d.exponent)

/-- A whole part and a fraction, each written with decimal digits. -/
def ofParts (negative : Bool) (whole fraction : List Char) (exponent : Int) : Decimal :=
  ⟨negative, Nat.ofDigitChars 10 (whole ++ fraction) 0, exponent - fraction.length⟩

/-- Reads an unsigned literal. Underscores between its digits mean nothing. -/
def ofLiteral (text : List Char) : Decimal :=
  let plain := text.filter (· ≠ '_')
  ofParts false (plain.takeWhile (· ≠ '.')) ((plain.dropWhile (· ≠ '.')).drop 1) 0

/-- Reads a literal that may carry a minus sign. -/
def ofSignedLiteral (text : List Char) : Decimal :=
  match text with
  | '-' :: rest => { ofLiteral rest with negative := true }
  | _ => ofLiteral text

/-- Drops up to the given number of zeros at the end of the digits. -/
def trim : Nat → Decimal → Decimal
  | 0, d => d
  | n + 1, d =>
    if d.digits ≠ 0 ∧ d.digits % 10 = 0 then
      trim n { d with digits := d.digits / 10, exponent := d.exponent + 1 }
    else d

/-- The exponent of the largest power of ten that is not above a positive
quotient. -/
def floorLog10 (num den : Nat) : Int :=
  let guess : Int := (width num : Int) - (width den : Int)
  if Binary.powerLe 10 guess num den then guess else guess - 1

/-- The multiples of `10 ^ exponent` next to a quotient, the nearer one first
and the even one first if both are equally near. -/
def neighbours (num den : Nat) (exponent : Int) : List Nat :=
  let top := if 0 ≤ exponent then num else num * Nat.pow 10 (-exponent).toNat
  let bottom := if 0 ≤ exponent then den * Nat.pow 10 exponent.toNat else den
  let below := top / bottom
  let twice := 2 * (top % bottom)
  if twice = 0 then [below]
  else if twice < bottom ∨ (twice = bottom ∧ below % 2 = 0) then [below, below + 1]
  else [below + 1, below]

/-- The first decimal with the given number of digits that reads back. -/
def withDigits? (bits num den count : Nat) : Option (Nat × Int) :=
  let exponent := floorLog10 num den + 1 - count
  ((neighbours num den exponent).find? fun n => nearestBits n exponent == bits).map (·, exponent)

/-- Tries ever more digits, up to seventeen, which always suffice. -/
def shortest? (bits num den : Nat) : Option (Nat × Int) :=
  (List.range 17).findSome? fun n => withDigits? bits num den (n + 1)

/-- Every digit of `significand * 2 ^ exponent`. -/
def exact (significand : Nat) (exponent : Int) : Nat × Int :=
  if 0 ≤ exponent then (significand * Nat.pow 2 exponent.toNat, 0)
  else (significand * Nat.pow 5 (-exponent).toNat, exponent)

/-- The digits and the exponent of the shortest decimal that reads back as
`significand * 2 ^ exponent`. -/
def digitsFor (bits significand : Nat) (exponent : Int) : Nat × Int :=
  let num := if 0 ≤ exponent then significand * Nat.pow 2 exponent.toNat else significand
  let den := if 0 ≤ exponent then 1 else Nat.pow 2 (-exponent).toNat
  (shortest? bits num den).getD (exact significand exponent)

/-- The shortest decimal that reads back as a finite double, without zeros at
its end. -/
def ofFloat? (x : Float) : Option Decimal :=
  match Binary.parts x with
  | .finite negative 0 _ => some ⟨negative, 0, 0⟩
  | .finite negative significand exponent =>
    let (digits, power) := digitsFor (Binary.magnitudeBits x) significand exponent
    some (trim (width digits) ⟨negative, digits, power⟩)
  | _ => none

end Decimal
end Scriptling
