import Scriptling.Number.Decimal

/-!
# Number texts

Programs see numbers in positional notation only: no exponent, no zero at the
end of a fraction, no fraction if there is none. Tree documents write them with
a point or an exponent, so that they read back as numbers of the same kind.
-/
namespace Scriptling
namespace Decimal

/-- The digits with the point where the exponent puts it. -/
def unsigned (d : Decimal) : List Char :=
  let digits := Nat.toDigits 10 d.digits
  if 0 ≤ d.exponent then digits ++ List.replicate d.exponent.toNat '0'
  else
    let whole := digits.length + d.exponent
    if 0 < whole then digits.take whole.toNat ++ '.' :: digits.drop whole.toNat
    else '0' :: '.' :: (List.replicate (-whole).toNat '0' ++ digits)

/-- Puts the sign before a text. -/
def signed (d : Decimal) (text : List Char) : List Char :=
  if d.negative then '-' :: text else text

/-- The exponent of ten of the leading digit. -/
def magnitude (d : Decimal) : Int :=
  width d.digits + d.exponent - 1

/-- An exponent with its sign and at least two digits. -/
def exponentText (e : Int) : List Char :=
  let digits := Nat.toDigits 10 e.natAbs
  (if e < 0 then '-' else '+') :: (if digits.length < 2 then '0' :: digits else digits)

/-- One digit before the point, all others behind it, then the exponent. -/
def scientific (d : Decimal) : List Char :=
  let digits := Nat.toDigits 10 d.digits
  digits.take 1 ++ (if digits.length = 1 then [] else '.' :: digits.drop 1) ++
    'e' :: exponentText d.magnitude

/-- Positional from one ten-thousandth up to sixteen whole digits, always with a
point; scientific outside. -/
def pointed (d : Decimal) : List Char :=
  if d.magnitude < -4 ∨ 16 ≤ d.magnitude then d.scientific
  else if 0 ≤ d.exponent then d.unsigned ++ ['.', '0']
  else d.unsigned

end Decimal

/-- The texts of what is no finite number. -/
structure SpecialTexts where
  notANumber : String
  infinity : String

/-- Writes a double: a finite one by a layout of its shortest decimal. -/
def writeNumber (special : SpecialTexts) (layout : Decimal → List Char) (x : Float) : String :=
  match Decimal.ofFloat? x with
  | some d => String.ofList (d.signed (layout d))
  | none =>
    if Binary.isInfinite x then
      (if Binary.isNegative x then "-" else "") ++ special.infinity
    else special.notANumber

/-- The text of a number as programs print it. -/
def formatNumber (x : Float) : String :=
  writeNumber ⟨"NaN", "inf"⟩ Decimal.unsigned x

end Scriptling
