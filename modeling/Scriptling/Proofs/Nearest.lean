import Mathlib.Tactic.Linarith
import Scriptling.Proofs.Rounding

/-!
# The doubles next to a number

Between a double and the next one lies the middle of the two. A positive number is rounded to a
double or below it if it lies below that middle; a number in the middle goes to the even one of
the two. Hence rounding is monotone, and what is rounded to the infinity are the numbers from the
middle between the largest double and the power of two after it.
-/
namespace Scriptling.Binary

/-- The exponent of the last place of a double with the given magnitude. -/
def lastPlace (bits : Nat) : Int := leastExponent + (bits / 2 ^ 52 - 1 : Nat)

/-- The significand of a double with the given magnitude, in units of its last place. -/
def significandOf (bits : Nat) : Nat := bits - (bits / 2 ^ 52 - 1) * 2 ^ 52

/-- The middle between a double with the given magnitude and the next one. -/
def middleAbove (bits : Nat) : ℚ := (2 * significandOf bits + 1) * 2 ^ (lastPlace bits - 1)

theorem significandOf_lt (bits : Nat) : significandOf bits < 2 ^ 53 := by
  unfold significandOf
  omega

theorem le_lastPlace (bits : Nat) : leastExponent ≤ lastPlace bits := by
  unfold lastPlace
  omega

theorem normal_or_least (bits : Nat) :
    2 ^ 52 ≤ significandOf bits ∨ lastPlace bits = leastExponent := by
  unfold significandOf lastPlace
  omega

theorem eq_lastPlace_add (bits : Nat) :
    bits = (lastPlace bits - leastExponent).toNat * 2 ^ 52 + significandOf bits := by
  unfold significandOf lastPlace
  omega

theorem Canonical.lastPlace_eq {bits m : Nat} {e : Int} (h : Canonical bits m e) :
    lastPlace bits = e := by
  have hge := h.exponent_ge
  have hlt := h.significand_lt
  have hbits := h.bits_eq
  unfold lastPlace
  rcases h.normal_or_least with hm | he <;> omega

theorem Canonical.significandOf_eq {bits m : Nat} {e : Int} (h : Canonical bits m e) :
    significandOf bits = m := by
  have hbits := eq_lastPlace_add bits
  have hbits' := h.bits_eq
  rw [h.lastPlace_eq] at hbits
  omega

theorem two_zpow_pos (e : Int) : (0 : ℚ) < 2 ^ e := zpow_pos (by norm_num) e

theorem two_zpow_le {a b : Int} (h : a ≤ b) : (2 : ℚ) ^ a ≤ 2 ^ b :=
  zpow_le_zpow_right₀ (by norm_num) h

/-- A power of two in units of another one. -/
theorem two_zpow_add (e : Int) (k : Nat) : (2 : ℚ) ^ (e + k) = 2 ^ k * 2 ^ e := by
  rw [zpow_add₀ (by norm_num), zpow_natCast, mul_comm]

/-- A number times a power of a base as a quotient of natural numbers. -/
theorem scaled_quotient {b : Nat} (hb : 0 < b) (n : Nat) (e : Int) :
    0 < (if 0 ≤ e then 1 else Nat.pow b (-e).toNat) ∧
      ((if 0 ≤ e then n * Nat.pow b e.toNat else n : Nat) : ℚ) /
        (if 0 ≤ e then 1 else Nat.pow b (-e).toNat : Nat) = n * (b : ℚ) ^ e := by
  simp only [Nat.pow_eq]
  split
  · rename_i he
    obtain ⟨k, rfl⟩ := Int.eq_ofNat_of_zero_le he
    refine ⟨Nat.one_pos, ?_⟩
    rw [Int.toNat_natCast, Nat.cast_one, div_one, zpow_natCast]
    push_cast
    rfl
  · rename_i he
    obtain ⟨k, hk⟩ := Int.eq_ofNat_of_zero_le (show 0 ≤ -e by omega)
    have hek : e = -(k : Int) := by omega
    subst hek
    refine ⟨Nat.pow_pos hb, ?_⟩
    rw [neg_neg, Int.toNat_natCast, zpow_neg, zpow_natCast, Nat.cast_pow, div_eq_mul_inv]

/-- The middles above and below a double, in quarters of its last place. The one below is closer
if the double is a power of two, where the last place changes. -/
theorem Canonical.middles {bits m : Nat} {e : Int} (h : Canonical bits m e) (hm : 0 < m) :
    middleAbove bits = (4 * m + 2) * 2 ^ (e - 2) ∧
      middleAbove (bits - 1) ≤ (4 * m - 1) * 2 ^ (e - 2) ∧
      (m ≠ 2 ^ 52 → middleAbove (bits - 1) = (4 * m - 2) * 2 ^ (e - 2)) := by
  have hunit : (2 : ℚ) ^ (e - 1) = 2 * 2 ^ (e - 2) := by
    rw [show e - 1 = e - 2 + (1 : ℕ) by omega, two_zpow_add]
    ring
  have hpos := two_zpow_pos (e - 2)
  have hplace := h.lastPlace_eq
  have hsig := h.significandOf_eq
  have hbits := h.bits_eq
  have hlt := h.significand_lt
  have hge := h.exponent_ge
  constructor
  · rw [middleAbove, hplace, hsig, hunit]
    ring
  by_cases hpow : m = 2 ^ 52 ∧ e ≠ leastExponent
  · have hplace' : lastPlace (bits - 1) = e - 1 := by
      unfold lastPlace
      omega
    have hsig' : significandOf (bits - 1) = 2 ^ 53 - 1 := by
      unfold significandOf
      omega
    have hmiddle : middleAbove (bits - 1) = (4 * m - 1) * 2 ^ (e - 2) := by
      rw [middleAbove, hplace', hsig', hpow.1, show e - 1 - 1 = e - 2 by ring]
      norm_num
    exact ⟨hmiddle.le, fun hne => absurd hpow.1 hne⟩
  · have hplace' : lastPlace (bits - 1) = e := by
      have := h.normal_or_least
      unfold lastPlace
      omega
    have hsig' : significandOf (bits - 1) = m - 1 := by
      have hbits' := eq_lastPlace_add (bits - 1)
      rw [hplace'] at hbits'
      omega
    have hmiddle : middleAbove (bits - 1) = (4 * m - 2) * 2 ^ (e - 2) := by
      rw [middleAbove, hplace', hsig', hunit, Nat.cast_sub hm]
      ring
    refine ⟨?_, fun _ => hmiddle⟩
    rw [hmiddle]
    exact mul_le_mul_of_nonneg_right (by linarith) hpos.le

theorem middleAbove_pos (bits : Nat) : 0 < middleAbove bits := by
  unfold middleAbove
  have := two_zpow_pos (lastPlace bits - 1)
  positivity

section Quotients

variable {num den : Nat}

theorem roundDiv_le_iff (hden : 0 < den) (n : Nat) :
    roundDiv num den ≤ n ↔
      2 * num < (2 * n + 1) * den ∨ (2 * num = (2 * n + 1) * den ∧ n % 2 = 0) := by
  have hdiv : den * (num / den) + num % den = num := Nat.div_add_mod num den
  have hmod : num % den < den := Nat.mod_lt num hden
  unfold roundDiv
  dsimp only
  generalize num / den = q at *
  generalize num % den = r at *
  subst hdiv
  rcases lt_trichotomy q n with hlt | rfl | hgt
  · have hle : den * (q + 1) ≤ den * n := Nat.mul_le_mul_left den hlt
    constructor
    · intro _
      left
      nlinarith
    · intro _
      split <;> omega
  · have hsplit : (2 * q + 1) * den = 2 * (den * q) + den := by ring
    rw [hsplit]
    split <;> omega
  · have hle : den * (n + 1) ≤ den * q := Nat.mul_le_mul_left den hgt
    have hbig : (2 * n + 1) * den < 2 * (den * q + r) := by nlinarith
    split <;> omega

/-- Rounding to a multiple of a power of two. -/
theorem roundScaled_le_iff (num : Nat) (hden : 0 < den) (e : Int) (n : Nat) :
    (if 0 ≤ e then roundDiv num (den * Nat.pow 2 e.toNat)
      else roundDiv (num * Nat.pow 2 (-e).toNat) den) ≤ n ↔
    (num : ℚ) / den < (2 * n + 1) * 2 ^ (e - 1) ∨
      ((num : ℚ) / den = (2 * n + 1) * 2 ^ (e - 1) ∧ n % 2 = 0) := by
  have hd : (0 : ℚ) < den := by exact_mod_cast hden
  have htwo : (2 : ℚ) ^ e = 2 * 2 ^ (e - 1) := by
    rw [zpow_sub_one₀ (by norm_num)]
    ring
  split
  · rename_i he
    obtain ⟨k, rfl⟩ := Int.eq_ofNat_of_zero_le he
    rw [zpow_natCast] at htwo
    rw [Int.toNat_natCast, Nat.pow_eq, roundDiv_le_iff (Nat.mul_pos hden (Nat.two_pow_pos k)),
      div_lt_iff₀ hd, div_eq_iff hd.ne']
    have hright : (2 * n + 1) * (2 : ℚ) ^ ((k : Int) - 1) * den =
        ((2 * n + 1) * (den * 2 ^ k) : ℕ) / 2 := by
      push_cast
      rw [htwo]
      ring
    rw [hright, lt_div_iff₀ (by norm_num), eq_div_iff (by norm_num), mul_comm (num : ℚ)]
    exact_mod_cast Iff.rfl
  · rename_i he
    obtain ⟨k, hk⟩ := Int.eq_ofNat_of_zero_le (show 0 ≤ -e by omega)
    have hek : e = -(k : Int) := by omega
    subst hek
    have hpow : (2 : ℚ) ^ (-(k : Int) - 1) = 1 / (2 * 2 ^ k) := by
      rw [zpow_sub_one₀ (by norm_num), zpow_neg, zpow_natCast]
      field_simp
    rw [neg_neg, Int.toNat_natCast, Nat.pow_eq, roundDiv_le_iff hden, hpow, mul_one_div,
      div_lt_div_iff₀ hd (by positivity), div_eq_div_iff hd.ne' (by positivity)]
    have hleft : (num : ℚ) * (2 * 2 ^ k) = (2 * (num * 2 ^ k) : ℕ) := by
      push_cast
      ring
    rw [hleft]
    exact_mod_cast Iff.rfl

/-- The unit to which a quotient is rounded: the quotient has at most 53 digits before it, and has
that many unless the unit is the least one. -/
theorem unitExponent_spec (hnum : 0 < num) (hden : 0 < den) :
    (num : ℚ) / den < 2 ^ (unitExponent num den + 53) ∧
      leastExponent ≤ unitExponent num den ∧
      (unitExponent num den = leastExponent ∨ (2 : ℚ) ^ (unitExponent num den + 52) ≤ num / den) := by
  have hq : (0 : ℚ) < num / den := div_pos (by exact_mod_cast hnum) (by exact_mod_cast hden)
  have hlog := floorLog2_eq hnum hden
  have hunit : unitExponent num den = max leastExponent (floorLog2 num den - 52) := rfl
  refine ⟨?_, by omega, ?_⟩
  · have hlt : ((2 : ℕ) : ℚ) ^ (unitExponent num den + 53) > num / den := by
      rw [gt_iff_lt, Int.lt_zpow_iff_log_lt (by decide) hq]
      omega
    exact_mod_cast hlt
  · by_cases hleast : unitExponent num den = leastExponent
    · exact .inl hleast
    · right
      have hle : ((2 : ℕ) : ℚ) ^ (unitExponent num den + 52) ≤ num / den := by
        rw [Int.zpow_le_iff_le_log (by decide) hq]
        omega
      exact_mod_cast hle

/-- A number that has 53 digits before a unit, or fewer if the unit is the least one, is rounded to
as many, or to the power of two after them: the carry reaches the next unit and no further. -/
theorem rounded_bounds {q : ℚ} {u : Int} {r : Nat}
    (hround : ∀ n : Nat, r ≤ n ↔
      q < (2 * n + 1) * 2 ^ (u - 1) ∨ (q = (2 * n + 1) * 2 ^ (u - 1) ∧ n % 2 = 0))
    (hlt : q < 2 ^ (u + 53)) (hnormal : u = leastExponent ∨ (2 : ℚ) ^ (u + 52) ≤ q) :
    r ≤ 2 ^ 53 ∧ (u = leastExponent ∨ 2 ^ 52 ≤ r) := by
  have hunit := two_zpow_pos (u - 1)
  have hscale : ∀ k : Nat, (2 : ℚ) ^ (u + k) = 2 ^ (k + 1) * 2 ^ (u - 1) := by
    intro k
    rw [← two_zpow_add]
    congr 1
    push_cast
    ring
  constructor
  · rw [hround]
    left
    have hu := hscale 53
    push_cast at hu
    rw [hu] at hlt
    push_cast
    linarith
  · refine hnormal.imp_right fun hq => ?_
    by_contra hsmall
    have hle : r ≤ 2 ^ 52 - 1 := by omega
    have hu := hscale 52
    push_cast at hu
    rw [hround, Nat.cast_sub (by norm_num)] at hle
    rw [hu] at hq
    push_cast at hle
    rcases hle with h | ⟨h, -⟩ <;> linarith

/-- A quotient is rounded to a double or below it if it lies below the middle between the double
and the next one, or in that middle if the double is even. -/
theorem nearestBits_le_iff (hden : 0 < den) {bits : Nat} (hbits : bits < infinityBits) :
    nearestBits num den ≤ bits ↔
      (num : ℚ) / den < middleAbove bits ∨
        ((num : ℚ) / den = middleAbove bits ∧ bits % 2 = 0) := by
  rcases Nat.eq_zero_or_pos num with rfl | hnum
  · have hzero : nearestBits 0 den = 0 := rfl
    have hpos := middleAbove_pos bits
    simp [hzero, hpos]
  obtain ⟨hlt, hle, hnormal⟩ := unitExponent_spec hnum hden
  have hround := roundScaled_le_iff num hden (unitExponent num den)
  unfold nearestBits
  rw [if_neg hnum.ne']
  dsimp only
  generalize hr : (if 0 ≤ unitExponent num den then _ else _ : Nat) = r
  simp only [hr] at hround
  generalize unitExponent num den = u at *
  generalize (num : ℚ) / den = q at *
  have hbits_eq := eq_lastPlace_add bits
  have hplace := le_lastPlace bits
  have hsig := significandOf_lt bits
  have hsig' := normal_or_least bits
  unfold middleAbove
  generalize lastPlace bits = e at *
  generalize significandOf bits = m at *
  rw [min_le_iff, or_iff_right (by omega), Nat.pow_eq]
  obtain ⟨hr53, hr52⟩ := rounded_bounds hround hlt hnormal
  rcases lt_trichotomy u e with hue | rfl | hue
  · have hbig : 2 ^ 52 ≤ m := by omega
    have hq : q < (2 * m + 1) * 2 ^ (e - 1) :=
      calc q < 2 ^ (u + 53) := hlt
        _ ≤ 2 ^ (e - 1 + (53 : ℕ)) := two_zpow_le (by push_cast; omega)
        _ = 2 ^ 53 * 2 ^ (e - 1) := two_zpow_add _ _
        _ ≤ (2 * m + 1) * 2 ^ (e - 1) := by
          refine mul_le_mul_of_nonneg_right ?_ (two_zpow_pos _).le
          exact_mod_cast (show 2 ^ 53 ≤ 2 * m + 1 by omega)
    exact iff_of_true (by omega) (.inl hq)
  · have heven : bits % 2 = 0 ↔ m % 2 = 0 := by omega
    rw [heven, ← hround]
    omega
  · have hbig : 2 ^ 52 ≤ r := by omega
    have hq : (2 * m + 1) * 2 ^ (e - 1) < q :=
      calc ((2 * m + 1) * 2 ^ (e - 1) : ℚ) < 2 ^ 54 * 2 ^ (e - 1) := by
            refine mul_lt_mul_of_pos_right ?_ (two_zpow_pos _)
            exact_mod_cast (show 2 * m + 1 < 2 ^ 54 by omega)
        _ = 2 ^ (e - 1 + (54 : ℕ)) := (two_zpow_add _ _).symm
        _ ≤ 2 ^ (u + 52) := two_zpow_le (by push_cast; omega)
        _ ≤ q := hnormal.resolve_left (by omega)
    refine iff_of_false (by omega) ?_
    rintro (h | ⟨h, -⟩) <;> linarith

theorem nearestBits_le (num den : Nat) : nearestBits num den ≤ infinityBits := by
  unfold nearestBits
  split
  · exact Nat.zero_le _
  · exact Nat.min_le_left _ _

/-- Rounding is monotone. -/
theorem nearestBits_mono {num' den' : Nat} (hden : 0 < den) (hden' : 0 < den')
    (h : (num : ℚ) / den ≤ num' / den') : nearestBits num den ≤ nearestBits num' den' := by
  by_cases hbits : nearestBits num' den' < infinityBits
  · have hself := (nearestBits_le_iff hden' hbits).1 (le_refl (nearestBits num' den'))
    rw [nearestBits_le_iff hden hbits]
    rcases hself with hlt | ⟨heq, heven⟩
    · exact .inl (h.trans_lt hlt)
    · exact (lt_or_eq_of_le (h.trans_eq heq)).imp_right fun heq => ⟨heq, heven⟩
  · exact (nearestBits_le num den).trans (Nat.not_lt.1 hbits)

/-- The least number that is too large for a double: the middle between the largest double, which
is `(2 ^ 53 - 1) * 2 ^ 971`, and `2 ^ 1024`. -/
def overflowBound : Nat := (2 ^ 54 - 1) * 2 ^ 970

theorem middleAbove_largest : middleAbove (infinityBits - 1) = overflowBound := by
  have hplace : lastPlace (infinityBits - 1) - 1 = (970 : ℕ) := by decide
  have hsig : significandOf (infinityBits - 1) = 2 ^ 53 - 1 := by decide
  rw [middleAbove, hplace, hsig, zpow_natCast]
  unfold overflowBound
  generalize 970 = k
  push_cast
  norm_num

/-- What is too large for a double becomes the infinity, and nothing else does. -/
theorem nearestBits_eq_infinityBits_iff (hden : 0 < den) :
    nearestBits num den = infinityBits ↔ (overflowBound : ℚ) ≤ num / den := by
  have hpos : 0 < infinityBits := by decide
  have hodd : (infinityBits - 1) % 2 = 1 := by decide
  have hle := nearestBits_le num den
  have hiff : nearestBits num den ≤ infinityBits - 1 ↔ _ := nearestBits_le_iff hden (by omega)
  rw [middleAbove_largest, hodd] at hiff
  constructor
  · intro h
    by_contra hsmall
    have := hiff.2 (.inl (not_le.1 hsmall))
    omega
  · intro h
    by_contra hne
    rcases hiff.1 (by omega) with hlt | ⟨-, hone⟩
    · exact absurd h (not_le.2 hlt)
    · cases hone

end Quotients

end Scriptling.Binary
