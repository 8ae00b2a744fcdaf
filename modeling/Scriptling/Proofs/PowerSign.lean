import Scriptling.Number.Arithmetic
import Scriptling.Proofs.DoubleValues

/-!
# The sign of an infinite power

A power that is too large for a double becomes an infinity. Its sign is found by a remainder of
truncated division, which is exact but has the sign of the exponent: it is one for the positive
odd integers only, so that a negative number to a negative odd power becomes the infinity with the
wrong sign.
-/
namespace Scriptling

open Binary

section Remainder

/-- The significand of a remainder in units of the smaller last place. -/
theorem remainder_lt {a b : Nat} (ha : a < 2 ^ 53) (hb : 0 < b) (hb' : b < 2 ^ 53) (e f : Int) :
    a * Nat.pow 2 (e - min e f).toNat % (b * Nat.pow 2 (f - min e f).toNat) < 2 ^ 53 := by
  have hpow : ∀ k, 0 < Nat.pow 2 k := fun k => Nat.pow_pos (by decide)
  rcases le_total e f with h | h
  · have hzero : (e - min e f).toNat = 0 := by omega
    rw [hzero]
    exact (Nat.mod_le _ _).trans_lt (by simpa using ha)
  · have hzero : (f - min e f).toNat = 0 := by omega
    rw [hzero]
    exact (Nat.mod_lt _ (Nat.mul_pos hb (hpow 0))).trans (by simpa using hb')

theorem scale_down (a : Nat) {e unit : Int} (h : unit ≤ e) :
    ((a * Nat.pow 2 (e - unit).toNat : Nat) : ℚ) * 2 ^ unit = a * 2 ^ e := by
  obtain ⟨k, hk⟩ := Int.eq_ofNat_of_zero_le (show 0 ≤ e - unit by omega)
  have he : e = unit + k := by omega
  rw [hk, Int.toNat_natCast, Nat.pow_eq, he, two_zpow_add]
  push_cast
  ring

/-- The remainder is what is left of the dividend when a multiple of the divisor is taken off,
with the sign of the dividend. -/
theorem remainder?_spec {x y : Float} (hx : isFinite x = true) (hy : isFinite y = true)
    (hne : value y ≠ 0) :
    ∃ r, remainder? x y = some r ∧ isFinite r = true ∧ ∃ (q : Nat) (rest : ℚ),
      0 ≤ rest ∧ rest < |value y| ∧
      value x = (if isNegative x then -1 else 1) * (q * |value y| + rest) ∧
      value r = (if isNegative x then -1 else 1) * rest := by
  obtain ⟨a, e, hpx⟩ := exists_parts_of_isFinite hx
  obtain ⟨b, f, hpy⟩ := exists_parts_of_isFinite hy
  have hca := canonical_of_parts hpx
  have hcb := canonical_of_parts hpy
  have hvx := value_of_parts hpx
  have hvy := value_of_parts hpy
  have hb : 0 < b := by
    refine Nat.pos_of_ne_zero fun h0 => hne ?_
    rw [hvy, h0, Nat.cast_zero, zero_mul, mul_zero]
  have habs := abs_value_of_parts hpy
  have hlow := hca.exponent_ge
  have hlow' := hcb.exponent_ge
  have hhigh := hca.exponent_le
  unfold remainder?
  rw [hpx, hpy]
  dsimp only
  rw [if_neg hb.ne']
  have hlt := remainder_lt hca.significand_lt hb hcb.significand_lt e f
  have hdividend := scale_down a (min_le_left e f)
  have hdivisor := scale_down b (min_le_right e f)
  have hpos : 0 < b * Nat.pow 2 (f - min e f).toNat := Nat.mul_pos hb (Nat.pow_pos (by decide))
  generalize a * Nat.pow 2 (e - min e f).toNat = num at hlt hdividend ⊢
  generalize b * Nat.pow 2 (f - min e f).toNat = den at hlt hdivisor hpos ⊢
  have hunit : leastExponent ≤ min e f := by omega
  have hunit' : min e f ≤ 971 := by omega
  generalize min e f = unit at *
  have htwo := two_zpow_pos unit
  obtain ⟨hfinite, hvalue⟩ := value_ofScaled (isNegative x) hlt hunit hunit'
  refine ⟨_, rfl, hfinite, num / den, (num % den : Nat) * 2 ^ unit, by positivity, ?_, ?_, hvalue⟩
  · rw [habs, ← hdivisor]
    refine mul_lt_mul_of_pos_right ?_ htwo
    exact_mod_cast Nat.mod_lt num hpos
  · rw [hvx, habs, ← hdividend, ← hdivisor]
    congr 1
    have hsplit : (num : ℚ) = (num / den : Nat) * den + (num % den : Nat) := by
      exact_mod_cast (Nat.div_add_mod' num den).symm
    nth_rewrite 1 [hsplit]
    ring

end Remainder

namespace Power

/-- The exponents that turn a negative number into a negative one. -/
def IsOdd (y : Float) : Prop := ∃ k : Int, value y = 2 * k + 1

/-- The remainder by two is one for the positive odd integers only. -/
theorem isOddPositive_iff {y : Float} (hy : isFinite y = true) :
    isOddPositive y = true ↔ IsOdd y ∧ 0 < value y := by
  have htwo : value 2.0 = 2 := by
    rw [value_of_parts (show parts 2.0 = .finite false (2 ^ 52) (-51) by decide)]
    norm_num
  have hone : value 1.0 = 1 := by
    rw [value_of_parts (show parts 1.0 = .finite false (2 ^ 52) (-52) by decide)]
    norm_num
  obtain ⟨r, hr, hfinite, q, rest, hnonneg, hlt, hy', hr'⟩ :=
    remainder?_spec hy (show isFinite 2.0 = true by decide) (by rw [htwo]; norm_num)
  rw [htwo, abs_of_pos (by norm_num)] at hlt hy'
  have hodd : isOddPositive y = true ↔ value r = 1 := by
    rw [isOddPositive, hr, ← hone]
    exact beq_iff_value hfinite (by decide)
  rw [hodd, hr', hy', IsOdd, hy']
  cases isNegative y with
  | true =>
    simp only [if_true]
    refine iff_of_false (by linarith) fun h => ?_
    have hq : (0 : ℚ) ≤ q := by positivity
    linarith [h.2]
  | false =>
    simp only [Bool.false_eq_true, if_false, one_mul]
    constructor
    · rintro rfl
      refine ⟨⟨q, ?_⟩, by positivity⟩
      push_cast
      ring
    · rintro ⟨⟨k, hk⟩, -⟩
      -- the rest is an odd integer below two
      have hrest : rest = ((2 * (k - q) + 1 : Int) : ℚ) := by
        push_cast
        linarith
      rw [hrest] at hnonneg hlt ⊢
      have hlow : 0 ≤ 2 * (k - (q : Int)) + 1 := by exact_mod_cast hnonneg
      have hhigh : 2 * (k - (q : Int)) + 1 < 2 := by exact_mod_cast hlt
      have heq : 2 * (k - (q : Int)) + 1 = 1 := by omega
      exact_mod_cast heq

/-- A power of a base as a quotient of natural numbers. -/
theorem zpow_quotient (b : Nat) (k : Int) :
    ((if 0 ≤ k then Nat.pow b k.natAbs else 1 : Nat) : ℚ) /
      (if 0 ≤ k then 1 else Nat.pow b k.natAbs : Nat) = (b : ℚ) ^ k := by
  simp only [Nat.pow_eq]
  split
  · rename_i hk
    obtain ⟨n, rfl⟩ := Int.eq_ofNat_of_zero_le hk
    rw [Int.natAbs_natCast, Nat.cast_one, div_one, zpow_natCast, Nat.cast_pow]
  · rename_i hk
    obtain ⟨n, hn⟩ := Int.eq_ofNat_of_zero_le (show 0 ≤ -k by omega)
    have hk' : k = -(n : Int) := by omega
    subst hk'
    rw [Int.natAbs_neg, Int.natAbs_natCast, Nat.cast_one, one_div, zpow_neg, zpow_natCast,
      Nat.cast_pow]

theorem exactOverflows_iff {m : Nat} (hm : 0 < m) (e n : Int) :
    exactOverflows m e n = true ↔ (overflowBound : ℚ) ≤ (m * 2 ^ e) ^ n := by
  have hpower := zpow_quotient m n
  have hscale := zpow_quotient 2 (e * n)
  have hpos : 0 < (if 0 ≤ n then 1 else Nat.pow m n.natAbs) := by
    rw [Nat.pow_eq]
    split <;> positivity
  have hpos' : 0 < (if 0 ≤ e * n then 1 else Nat.pow 2 (e * n).natAbs) := by
    rw [Nat.pow_eq]
    split <;> positivity
  have hvalue : ((m * 2 ^ e) ^ n : ℚ) = (m : ℚ) ^ n * ((2 : Nat) : ℚ) ^ (e * n) := by
    rw [mul_zpow, ← zpow_mul, Nat.cast_ofNat]
  rw [exactOverflows, beq_iff_eq, nearestBits_eq_infinityBits_iff (Nat.mul_pos hpos hpos'),
    hvalue, ← hpower, ← hscale, div_mul_div_comm, Nat.cast_mul, Nat.cast_mul]

/-- For integer exponents up to a bound, a power overflows if its magnitude is too large. -/
theorem overflows_iff {x y : Float} (hx : isFinite x = true) (hy : isFinite y = true)
    (h0 : value x ≠ 0) {n : Int} (hn : value y = n) (hsmall : n.natAbs ≤ exactExponents) :
    overflows x y = true ↔ (overflowBound : ℚ) ≤ |value x| ^ n := by
  obtain ⟨m, e, hp⟩ := exists_parts_of_isFinite hx
  have hm : 0 < m := by
    refine Nat.pos_of_ne_zero fun hzero => h0 ?_
    rw [value_of_parts hp, hzero, Nat.cast_zero, zero_mul, mul_zero]
  rw [abs_value_of_parts hp, overflows, hp, (toInt?_eq_some_iff hy).2 hn]
  dsimp only
  rw [if_pos hsmall]
  exact exactOverflows_iff hm e n

section Overflow

variable {x y : Float} (hx : isFinite x = true) (hy : isFinite y = true) (h0 : value x ≠ 0)
  (hreal : value x < 0 → ∃ n : Int, value y = n) (hover : overflows x y = true)
include hx hy h0 hreal hover

theorem power?_of_overflows :
    power? x y = some (infinity (decide (x < 0.0) && isOddPositive y)) := by
  have hzero : (x == 0.0) = false := by
    rw [Bool.eq_false_iff, ne_eq, beq_iff_value hx (by decide), value_of_parts parts_zero]
    simpa using h0
  have hinteger : (decide (x < 0.0) && (toInt? y).isNone) = false := by
    by_cases hneg : x < 0.0
    · obtain ⟨n, hn⟩ := hreal ((lt_zero_iff hx).1 hneg)
      rw [(toInt?_eq_some_iff hy).2 hn]
      exact Bool.and_false _
    · rw [decide_eq_false hneg]
      rfl
  rw [power?, hx, hy, hzero, hinteger, hover]
  rfl

theorem power?_eq_infinity_iff (negative : Bool) :
    power? x y = some (infinity negative) ↔
      (negative = true ↔ value x < 0 ∧ IsOdd y ∧ 0 < value y) := by
  have hsign : ∀ b, isNegative (infinity b) = b := fun b =>
    (sign_and_magnitude_ofMagnitude b le_rfl).1
  rw [power?_of_overflows hx hy h0 hreal hover, ← lt_zero_iff hx, ← isOddPositive_iff hy,
    Option.some.injEq]
  constructor
  · intro heq
    have hbool := hsign (decide (x < 0.0) && isOddPositive y)
    rw [heq, hsign] at hbool
    rw [hbool]
    simp
  · intro hiff
    congr 1
    rw [Bool.eq_iff_iff, hiff]
    simp

end Overflow

/-- A power of finite numbers that is a real number too large for a double becomes an infinity,
which is the negative one if the base is negative and the exponent a positive odd integer. -/
theorem infinite_power_sign {x y : Float} (hx : isFinite x = true) (hy : isFinite y = true)
    (h0 : value x ≠ 0) (hreal : value x < 0 → ∃ n : Int, value y = n) :
    (∀ n : Int, value y = n → n.natAbs ≤ exactExponents →
      (overflows x y = true ↔ (overflowBound : ℚ) ≤ |value x| ^ n)) ∧
    (overflows x y = true →
      (power? x y = some (infinity true) ↔ value x < 0 ∧ IsOdd y ∧ 0 < value y) ∧
      (power? x y = some (infinity false) ↔ ¬ (value x < 0 ∧ IsOdd y ∧ 0 < value y))) := by
  refine ⟨fun n hn hsmall => overflows_iff hx hy h0 hn hsmall, fun hover => ⟨?_, ?_⟩⟩
  · simpa using power?_eq_infinity_iff hx hy h0 hreal hover true
  · simpa using power?_eq_infinity_iff hx hy h0 hreal hover false

/-- The third power of a large negative number. -/
theorem cube_of_large_negative :
    value (Float.ofBits 0xe974e718d7d7625a) < 0 ∧ value 3.0 = 3 ∧
      overflows (Float.ofBits 0xe974e718d7d7625a) 3.0 = true ∧
      (overflowBound : ℚ) ≤ |value (Float.ofBits 0xe974e718d7d7625a)| ^ (3 : Int) ∧
      power? (Float.ofBits 0xe974e718d7d7625a) 3.0 = some (infinity true) := by
  have hx : isFinite (Float.ofBits 0xe974e718d7d7625a) = true := by decide +kernel
  have hy : isFinite 3.0 = true := by decide +kernel
  have hneg := (lt_zero_iff hx).1 (by decide +kernel)
  have hthree : value 3.0 = (3 : Int) := (toInt?_eq_some_iff hy).1 (by decide +kernel)
  have hover : overflows (Float.ofBits 0xe974e718d7d7625a) 3.0 = true := by decide +kernel
  obtain ⟨hexact, hsign⟩ := infinite_power_sign hx hy hneg.ne fun _ => ⟨3, hthree⟩
  refine ⟨hneg, hthree, hover, (hexact 3 hthree (by decide)).1 hover, ?_⟩
  exact (hsign hover).1.2 ⟨hneg, ⟨1, by rw [hthree]; norm_num⟩, by rw [hthree]; norm_num⟩

/-- A small negative number to the power of minus three is too large, the exponent is odd, and
yet the infinity is the positive one. -/
theorem odd_negative_power_of_small_negative :
    value (Float.ofBits 0x81a56e1fc2f8f359) < 0 ∧ IsOdd (-3.0) ∧
      (overflowBound : ℚ) ≤ |value (Float.ofBits 0x81a56e1fc2f8f359)| ^ (-3 : Int) ∧
      power? (Float.ofBits 0x81a56e1fc2f8f359) (-3.0) = some (infinity false) ∧
      power? (Float.ofBits 0x81a56e1fc2f8f359) (-3.0) ≠ some (infinity true) := by
  have hx : isFinite (Float.ofBits 0x81a56e1fc2f8f359) = true := by decide +kernel
  have hy : isFinite (-3.0) = true := by decide +kernel
  have hneg := (lt_zero_iff hx).1 (by decide +kernel)
  have hthree : value (-3.0) = (-3 : Int) := (toInt?_eq_some_iff hy).1 (by decide +kernel)
  have hover : overflows (Float.ofBits 0x81a56e1fc2f8f359) (-3.0) = true := by decide +kernel
  have hsign := power?_eq_infinity_iff hx hy hneg.ne (fun _ => ⟨-3, hthree⟩) hover
  have hnot : ¬ 0 < value (-3.0) := by
    rw [hthree]
    norm_num
  refine ⟨hneg, ⟨-2, by rw [hthree]; norm_num⟩, ?_, (hsign false).2 ?_, fun htrue => ?_⟩
  · exact (overflows_iff hx hy hneg.ne hthree (by decide)).1 hover
  · exact iff_of_false (by decide) fun h => hnot h.2.2
  · exact hnot ((hsign true).1 htrue |>.1 rfl).2.2

end Power

end Scriptling
