import Scriptling.Proofs.Nearest

/-!
# The numbers that doubles stand for

A finite double stands for a rational number. Comparing it with zero or with one compares that
number. A number with at most 53 binary digits is one that a double stands for, unless it is too
large or too small.
-/
namespace Scriptling.Binary

/-- The number that a finite double stands for. -/
def value (x : Float) : ℚ :=
  match parts x with
  | .finite negative m e => (if negative then -1 else 1) * (m * 2 ^ e)
  | _ => 0

section Parts

variable {x : Float} {negative : Bool} {m : Nat} {e : Int}

theorem value_of_parts (h : parts x = .finite negative m e) :
    value x = (if negative then -1 else 1) * (m * 2 ^ e) := by
  rw [value, h]

theorem abs_value_of_parts (h : parts x = .finite negative m e) : |value x| = m * 2 ^ e := by
  have htwo := two_zpow_pos e
  have hnonneg : (0 : ℚ) ≤ m * 2 ^ e := by positivity
  rw [value_of_parts h]
  split
  · rw [neg_one_mul, abs_neg, abs_of_nonneg hnonneg]
  · rw [one_mul, abs_of_nonneg hnonneg]

/-- A double is put together from its parts. -/
theorem parts_ofMagnitude {bits : Nat} (negative : Bool) (h : Canonical bits m e) :
    parts (ofMagnitude negative bits) = .finite negative m e := by
  obtain ⟨hneg, hbits⟩ := sign_and_magnitude_ofMagnitude negative h.bits_lt.le
  have hfinite : isFinite (ofMagnitude negative bits) = true := by
    rw [isFinite, hbits]
    exact decide_eq_true h.bits_lt
  obtain ⟨m', e', hp⟩ := exists_parts_of_isFinite hfinite
  have hc := canonical_of_parts hp
  rw [hbits] at hc
  rw [hp, hneg, ← hc.significandOf_eq, ← hc.lastPlace_eq, h.significandOf_eq, h.lastPlace_eq]

/-- Every number that is not negative is a quotient of natural numbers. -/
theorem exists_div_eq {q : ℚ} (hq : 0 ≤ q) : ∃ num den : Nat, 0 < den ∧ (num : ℚ) / den = q := by
  refine ⟨q.num.natAbs, q.den, q.den_pos, ?_⟩
  rw [Nat.cast_natAbs, abs_of_nonneg (Rat.num_nonneg.2 hq)]
  exact Rat.num_div_den q

/-- A number has one significand and one exponent only. -/
theorem Canonical.eq_of_value {bits bits' m m' : Nat} {e e' : Int} (h : Canonical bits m e)
    (hm : 0 < m) (h' : Canonical bits' m' e') (heq : (m * 2 ^ e : ℚ) = m' * 2 ^ e') :
    e = e' ∧ m = m' := by
  have htwo := two_zpow_pos e
  have htwo' := two_zpow_pos e'
  have hm' : 0 < m' := by
    have hpos : (0 : ℚ) < m' * 2 ^ e' := heq ▸ by positivity
    exact_mod_cast pos_of_mul_pos_left hpos htwo'.le
  obtain ⟨num, den, hden, hq⟩ := exists_div_eq (show (0 : ℚ) ≤ m * 2 ^ e by positivity)
  have hbits := nearestBits_of_canonical h hm hden hq
  have hbits' := nearestBits_of_canonical h' hm' hden (hq.trans heq)
  rw [← h.lastPlace_eq, ← h'.lastPlace_eq, ← h.significandOf_eq, ← h'.significandOf_eq, ← hbits,
    ← hbits']
  exact ⟨rfl, rfl⟩

end Parts

section Comparisons

open Float.Model (Format)
open Float.Model.UnpackedFloat

theorem toNat_unpackSign (u : UInt64) :
    (@unpackSign .binary64 u.toBitVec).toNat = u.toNat / 2 ^ 63 % 2 := by
  change (u.toBitVec.extractLsb 63 63).toNat = _
  simp [BitVec.extractLsb_toNat, Nat.shiftRight_eq_div_pow]

/-- The sign of a double that is compared. -/
def signOf (negative : Bool) : Sign := if negative then .negative else .positive

theorem ofBitVec_unpackSign (u : UInt64) :
    Sign.ofBitVec (@unpackSign .binary64 u.toBitVec) = signOf (decide (2 ^ 63 ≤ u.toNat)) := by
  have hbit := toNat_unpackSign u
  have hu : u.toNat < 2 ^ 64 := u.toNat_lt
  unfold Sign.ofBitVec signOf
  split
  · rename_i hzero
    rw [hzero] at hbit
    change 0 = _ at hbit
    rw [decide_eq_false (by omega)]
    rfl
  · rename_i hone
    have hne : (@unpackSign .binary64 u.toBitVec).toNat ≠ 0 := fun hz =>
      hone (BitVec.eq_of_toNat_eq hz)
    rw [decide_eq_true (by omega)]
    rfl

/-- Comparisons take a double apart in the same way. -/
theorem unpack_of_parts {x : Float} {negative : Bool} {m : Nat} {e : Int}
    (h : parts x = .finite negative m e) :
    x.toModel.unpack =
      if hm : 0 < m then .finite (signOf negative) m e hm else .zero (signOf negative) := by
  have hexponent := toNat_unpackExponent x.toBits
  have hmantissa := toNat_unpackMantissa x.toBits
  have hsign := ofBitVec_unpackSign x.toBits
  have hbias : (Format.binary64.exponentBias : Int) = 1023 := by decide
  have hwidth : Format.binary64.mantissaBitsWithoutImplicit = 52 := rfl
  change unpack .binary64 x.toBits.toBitVec = _
  unfold parts partsOfBits at h
  simp only [Nat.pow_eq] at h
  generalize x.toBits = u at *
  unfold Float.Model.UnpackedFloat.unpack
  dsimp only
  rw [hsign]
  have hfinite : u.toNat / 2 ^ 52 % 2048 ≠ 2047 → @unpackExponent .binary64 u.toBitVec ≠ -1#_ := by
    intro hinf heq
    rw [heq] at hexponent
    exact hinf hexponent.symm
  split_ifs at h with hinf hfrac hsub
  · cases h
    have hsub' : @unpackExponent .binary64 u.toBitVec = 0#_ :=
      BitVec.eq_of_toNat_eq (by rw [hexponent]; exact hsub)
    rw [if_neg (hfinite hinf), if_pos hsub']
    by_cases hz : @unpackMantissa .binary64 u.toBitVec = 0#_
    · have hzero : ¬ 0 < u.toNat % 2 ^ 52 := by
        rw [← hmantissa, hz]
        decide
      rw [dif_pos hz, dif_neg hzero]
    · have hpos : 0 < u.toNat % 2 ^ 52 := by
        rw [← hmantissa]
        exact Nat.pos_of_ne_zero fun h0 => hz (BitVec.eq_of_toNat_eq h0)
      rw [dif_neg hz, dif_pos hpos]
      congr 1
      rw [hexponent, hbias, leastExponent]
      omega
  · cases h
    have hsub' : @unpackExponent .binary64 u.toBitVec ≠ 0#_ := by
      intro heq
      rw [heq] at hexponent
      exact hsub hexponent.symm
    have happ : (1#1 ++ @unpackMantissa .binary64 u.toBitVec).toNat =
        2 ^ 52 + u.toNat % 2 ^ 52 := by
      rw [BitVec.toNat_append, ← Nat.shiftLeft_add_eq_or_of_lt (unpackMantissa _).isLt, hmantissa]
      rfl
    rw [if_neg (hfinite hinf), if_neg hsub', dif_pos (by omega)]
    congr 1
    rw [hexponent, hbias, leastExponent]
    omega

variable {x : Float}

theorem parts_zero : parts 0.0 = .finite false 0 leastExponent := by decide

/-- Doubles are compared by comparing what they are taken apart into. -/
theorem lt_iff_compare (x y : Float) :
    x < y ↔ x.toModel.unpack.compare y.toModel.unpack = some .lt := by
  change decide ((x.toModel.unpack.compare y.toModel.unpack == some .lt) = true) = true ↔ _
  rw [decide_eq_true_eq, beq_iff_eq]

theorem beq_iff_compare (x y : Float) :
    (x == y) = true ↔ x.toModel.unpack.compare y.toModel.unpack = some .eq := by
  change (x.toModel.unpack.compare y.toModel.unpack == some .eq) = true ↔ _
  rw [beq_iff_eq]

theorem lt_zero_iff (hx : isFinite x = true) : x < 0.0 ↔ value x < 0 := by
  obtain ⟨m, e, hp⟩ := exists_parts_of_isFinite hx
  have htwo := two_zpow_pos e
  rw [lt_iff_compare, unpack_of_parts hp, unpack_of_parts parts_zero, value_of_parts hp]
  rcases Nat.eq_zero_or_pos m with rfl | hm
  · change some Ordering.eq = some Ordering.lt ↔ _
    simp
  · have hpos : (0 : ℚ) < m * 2 ^ e := by positivity
    rw [dif_pos hm]
    cases isNegative x with
    | false =>
      change some Ordering.gt = some Ordering.lt ↔ _
      simp [hpos.le]
    | true =>
      change some Ordering.lt = some Ordering.lt ↔ _
      simp [hpos]

/-- Two finite doubles are equal if they stand for the same number. -/
theorem beq_iff_value {y : Float} (hx : isFinite x = true) (hy : isFinite y = true) :
    (x == y) = true ↔ value x = value y := by
  obtain ⟨m, e, hp⟩ := exists_parts_of_isFinite hx
  obtain ⟨m', e', hp'⟩ := exists_parts_of_isFinite hy
  have htwo := two_zpow_pos e
  have htwo' := two_zpow_pos e'
  rw [beq_iff_compare, unpack_of_parts hp, unpack_of_parts hp', value_of_parts hp,
    value_of_parts hp']
  rcases Nat.eq_zero_or_pos m with rfl | hm <;> rcases Nat.eq_zero_or_pos m' with rfl | hm'
  · change some Ordering.eq = some Ordering.eq ↔ _
    simp
  · rw [dif_pos hm']
    cases isNegative y
    · change some Ordering.lt = some Ordering.eq ↔ _
      simp [hm'.ne', htwo'.ne']
    · change some Ordering.gt = some Ordering.eq ↔ _
      simp [hm'.ne', htwo'.ne']
  · rw [dif_pos hm]
    cases isNegative x
    · change some Ordering.gt = some Ordering.eq ↔ _
      simp [hm.ne', htwo.ne']
    · change some Ordering.lt = some Ordering.eq ↔ _
      simp [hm.ne', htwo.ne']
  · have hpos : (0 : ℚ) < m * 2 ^ e := by positivity
    have hpos' : (0 : ℚ) < m' * 2 ^ e' := by positivity
    -- of the same sign, the exponents are compared and then the significands
    have hsame : (compare e e').then (compare m m') = .eq ↔ (m * 2 ^ e : ℚ) = m' * 2 ^ e' := by
      rw [Ordering.then_eq_eq, compare_eq_iff_eq, compare_eq_iff_eq]
      constructor
      · rintro ⟨rfl, rfl⟩
        rfl
      · exact (canonical_of_parts hp).eq_of_value hm (canonical_of_parts hp')
    rw [dif_pos hm, dif_pos hm']
    cases isNegative x <;> cases isNegative y
    · change some ((compare e e').then (compare m m')) = some Ordering.eq ↔ _
      simp [hsame]
    · change some Ordering.gt = some Ordering.eq ↔ _
      simp only [Bool.false_eq_true, if_false, if_true]
      exact iff_of_false (by decide) (by linarith)
    · change some Ordering.lt = some Ordering.eq ↔ _
      simp only [Bool.false_eq_true, if_false, if_true]
      exact iff_of_false (by decide) (by linarith)
    · change some ((compare e e').then (compare m m')).swap = some Ordering.eq ↔ _
      simp [hsame]

end Comparisons

section Exact

variable {m : Nat} {e : Int}

/-- A number with at most 53 binary digits is written in one way as doubles are, with ever more
digits until there are enough of them or the last place is the least one. -/
theorem exists_canonical (hm : m < 2 ^ 53) (hlow : leastExponent ≤ e) (hhigh : e ≤ 971) :
    ∃ bits m' e', Canonical bits m' e' ∧ (m' * 2 ^ e' : ℚ) = m * 2 ^ e := by
  obtain ⟨k, hk⟩ := Int.eq_ofNat_of_zero_le (show 0 ≤ e - leastExponent by omega)
  induction k generalizing m e with
  | zero =>
    have he : e = leastExponent := by omega
    refine ⟨m, m, e, ⟨hm, hlow, .inr he, ?_, ?_⟩, rfl⟩
    · rw [he]
      omega
    · rw [infinityBits_eq]
      omega
  | succ k ih =>
    by_cases hnormal : 2 ^ 52 ≤ m
    · refine ⟨_, m, e, ⟨hm, hlow, .inl hnormal, rfl, ?_⟩, rfl⟩
      rw [infinityBits_eq, leastExponent]
      omega
    · obtain ⟨bits, m', e', hc, hvalue⟩ :=
        ih (m := 2 * m) (e := e - 1) (by omega) (by omega) (by omega) (by omega)
      refine ⟨bits, m', e', hc, ?_⟩
      rw [hvalue, zpow_sub_one₀ (by norm_num)]
      push_cast
      ring

/-- Such a number is not rounded. -/
theorem value_ofScaled (negative : Bool) (hm : m < 2 ^ 53) (hlow : leastExponent ≤ e)
    (hhigh : e ≤ 971) :
    isFinite (ofScaled negative m e) = true ∧
      value (ofScaled negative m e) = (if negative then -1 else 1) * (m * 2 ^ e) := by
  obtain ⟨bits, m', e', hc, hvalue⟩ := exists_canonical hm hlow hhigh
  obtain ⟨hden, hq⟩ := scaled_quotient (show 0 < 2 by decide) m e
  have hscaled : ofScaled negative m e = ofMagnitude negative
      (nearestBits (if 0 ≤ e then m * Nat.pow 2 e.toNat else m)
        (if 0 ≤ e then 1 else Nat.pow 2 (-e).toNat)) := by
    unfold ofScaled ofQuotient
    split <;> rfl
  have hbits : nearestBits (if 0 ≤ e then m * Nat.pow 2 e.toNat else m)
      (if 0 ≤ e then 1 else Nat.pow 2 (-e).toNat) = bits := by
    rcases Nat.eq_zero_or_pos m' with rfl | hm'
    · have hzero : m = 0 := by
        rw [Nat.cast_zero, zero_mul, eq_comm, mul_eq_zero] at hvalue
        exact_mod_cast hvalue.resolve_right (two_zpow_pos e).ne'
      have hbits := hc.bits_eq
      have hleast := hc.normal_or_least
      simp only [hzero, zero_mul, ite_self]
      rw [nearestBits, if_pos rfl]
      omega
    · refine nearestBits_of_canonical hc hm' hden ?_
      rw [hq, hvalue]
      norm_num
  rw [hscaled, hbits, value_of_parts (parts_ofMagnitude negative hc), hvalue]
  refine ⟨?_, rfl⟩
  rw [isFinite, (sign_and_magnitude_ofMagnitude negative hc.bits_lt.le).2]
  exact decide_eq_true hc.bits_lt

end Exact

section Integers

/-- The integer that a double equals is the number that it stands for. -/
theorem toInt?_eq_some_iff {x : Float} (hx : isFinite x = true) {n : Int} :
    toInt? x = some n ↔ value x = n := by
  obtain ⟨m, e, hp⟩ := exists_parts_of_isFinite hx
  have hsign : ((if isNegative x then -1 else 1 : Int) : ℚ) = if isNegative x then -1 else 1 := by
    split <;> simp
  have habs : (if isNegative x then -1 else 1 : Int).natAbs = 1 := by
    split <;> rfl
  rw [value_of_parts hp, toInt?, hp, ← hsign]
  simp only [Nat.pow_eq]
  generalize (if isNegative x then -1 else 1 : Int) = sign at habs ⊢
  by_cases he : 0 ≤ e
  · obtain ⟨k, rfl⟩ := Int.eq_ofNat_of_zero_le he
    rw [if_pos he, Option.some.injEq, Int.toNat_natCast, zpow_natCast]
    exact_mod_cast Iff.rfl
  · obtain ⟨k, hk⟩ := Int.eq_ofNat_of_zero_le (show 0 ≤ -e by omega)
    have hek : e = -(k : Int) := by omega
    subst hek
    have hvalue : (sign * (m * 2 ^ (-(k : Int))) : ℚ) = n ↔ sign * m = n * 2 ^ k := by
      rw [zpow_neg, zpow_natCast, ← mul_assoc, ← div_eq_mul_inv, div_eq_iff (by positivity)]
      exact_mod_cast Iff.rfl
    rw [if_neg he, neg_neg, Int.toNat_natCast, hvalue]
    split
    · rename_i hdiv
      obtain ⟨q, rfl⟩ := Nat.dvd_of_mod_eq_zero hdiv
      have htwo : (2 ^ k : Int) ≠ 0 := by positivity
      rw [Nat.mul_div_cancel_left _ (Nat.two_pow_pos k), Option.some.injEq]
      push_cast
      rw [mul_left_comm, mul_comm _ (sign * (q : Int)), mul_left_inj' htwo]
    · rename_i hdiv
      refine iff_of_false nofun fun heq => hdiv ?_
      have hnat := congrArg Int.natAbs heq
      rw [Int.natAbs_mul, Int.natAbs_mul, habs, one_mul, Int.natAbs_natCast, Int.natAbs_pow] at hnat
      rw [hnat]
      exact Nat.mul_mod_left _ _

end Integers

end Scriptling.Binary
