import Mathlib.Data.Int.Log
import Mathlib.Data.Rat.Floor
import Mathlib.Tactic.FieldSimp
import Mathlib.Tactic.Positivity
import Mathlib.Tactic.Ring
import Mathlib.Tactic.SplitIfs
import Scriptling.Number.Binary

/-!
# Rounding to doubles

A double is determined by its bits, and the bits of a finite one by its sign, its
significand and its exponent. The double nearest to a quotient depends on the value
of the quotient alone, not on the two integers that it is written with, and a finite
double is the nearest one to its own value.
-/
namespace Scriptling.Binary

section Bits

open Float.Model (Format)
open Float.Model.UnpackedFloat

/-- The bits of a double. -/
abbrev Word := BitVec Format.binary64.numBits

theorem append_extractLsb (b : BitVec 64) :
    b.extractLsb 63 63 ++ b.extractLsb 62 52 ++ b.extractLsb 51 0 = b := by
  apply BitVec.eq_of_getLsbD_eq
  intro i hi
  rw [BitVec.getLsbD_append, BitVec.getLsbD_append]
  simp only [BitVec.getLsbD_extractLsb]
  split
  · grind
  · split <;> grind

theorem packComponents_of_unpack {b : Word} {e : BitVec Format.binary64.exponentBits}
    {m : BitVec Format.binary64.mantissaBitsWithoutImplicit} (he : unpackExponent b = e)
    (hm : unpackMantissa b = m) :
    packComponents .binary64 (Sign.ofBitVec (unpackSign b)) e m = b := by
  subst he hm
  have hs : (Sign.ofBitVec (unpackSign b)).toBitVec = unpackSign b := by
    generalize unpackSign b = s
    revert s
    decide
  rw [packComponents, hs]
  exact append_extractLsb b

theorem pack_subnormal {s : Sign} {m : Nat} {e : Int} (hpos : 0 < m) (hm : m < 2 ^ 52)
    (he : e = -1074) :
    pack .binary64 (.finite s m e hpos) = packComponents .binary64 s 0#_ (BitVec.ofNat _ m) := by
  subst he
  have hlog : m.log2 < 52 := (Nat.log2_lt (Nat.ne_of_gt hpos)).2 hm
  have hbits : Format.binary64.mantissaBits = 53 := by decide
  unfold pack
  dsimp only
  rw [if_neg (by decide), if_neg (by omega)]

theorem pack_normal {s : Sign} {m x : Nat} {e : Int} (hpos : 0 < m) (hm : 2 ^ 52 ≤ m)
    (hm' : m < 2 ^ 53) (hx : x < 2047) (he : e = x - 1075) :
    pack .binary64 (.finite s m e hpos) =
      packComponents .binary64 s (BitVec.ofNat _ x) (BitVec.ofNat _ m) := by
  have hlog : m.log2 = 52 := (Nat.log2_eq_iff (Nat.ne_of_gt hpos)).2 ⟨hm, hm'⟩
  have hbits : Format.binary64.mantissaBits = 53 := by decide
  have hbias : (Format.binary64.exponentBias : Int) = 1023 := by decide
  have hwidth : Format.binary64.mantissaBitsWithoutImplicit = 52 := rfl
  have hexp : (e + Format.binary64.exponentBias +
      (Format.binary64.mantissaBitsWithoutImplicit : Nat)).toNat = x := by omega
  unfold pack
  dsimp only
  rw [hexp, if_neg (show ¬ 2 ^ 11 ≤ x + 1 by omega), if_pos (by omega)]

/-- Taking a double apart and putting it together again leaves its bits as they are. -/
theorem pack_unpack {b : Word} (h : Format.binary64.Valid b) :
    pack .binary64 (unpack .binary64 b) = b := by
  have hbias : (Format.binary64.exponentBias : Int) = 1023 := by decide
  have hm : (unpackMantissa b).toNat < 2 ^ 52 := (unpackMantissa b).isLt
  have he : (unpackExponent b).toNat < 2 ^ 11 := (unpackExponent b).isLt
  unfold Float.Model.UnpackedFloat.unpack
  dsimp only
  by_cases hinf : unpackExponent b = -1#_
  · rw [if_pos hinf]
    by_cases hz : unpackMantissa b = 0#_
    · rw [if_pos hz]
      exact packComponents_of_unpack hinf hz
    · rw [if_neg hz]
      exact (h.eq_packedNaN hinf hz).symm
  have hinf' : (unpackExponent b).toNat ≠ 2047 := fun hh => hinf (BitVec.eq_of_toNat_eq hh)
  rw [if_neg hinf]
  by_cases hsub : unpackExponent b = 0#_
  · rw [if_pos hsub]
    by_cases hz : unpackMantissa b = 0#_
    · rw [dif_pos hz]
      exact packComponents_of_unpack hsub hz
    · have hzero : (unpackExponent b).toNat = 0 := by rw [hsub]; rfl
      rw [dif_neg hz, pack_subnormal _ hm (by omega), BitVec.ofNat_toNat, BitVec.setWidth_eq]
      exact packComponents_of_unpack hsub rfl
  · have happ : (1#1 ++ unpackMantissa b).toNat = 2 ^ 52 + (unpackMantissa b).toNat := by
      rw [BitVec.toNat_append, ← Nat.shiftLeft_add_eq_or_of_lt (unpackMantissa b).isLt]
      rfl
    rw [if_neg hsub, pack_normal (x := (unpackExponent b).toNat) _ (by omega) (by omega) (by omega)
      (by omega), happ]
    refine packComponents_of_unpack ?_ ?_
    · rw [BitVec.ofNat_toNat, BitVec.setWidth_eq]
    · apply BitVec.eq_of_toNat_eq
      rw [BitVec.toNat_ofNat]
      change _ = (2 ^ 52 + _) % 2 ^ 52
      omega

/-- A double is the one with its own bits. -/
theorem ofBits_toBits (x : Float) : Float.ofBits x.toBits = x := by
  obtain ⟨⟨bits, hv⟩⟩ := x
  have h : pack .binary64 (unpack .binary64 bits.toBitVec) = bits.toBitVec := pack_unpack hv
  have hmodel : Float.Model.pack (unpack .binary64 bits.toBitVec) = ⟨bits, hv⟩ :=
    (Float.Model.mk.injEq _ _ _ _).mpr (congrArg UInt64.ofBitVec h)
  exact congrArg Float.ofModel hmodel

theorem infinityBits_eq : infinityBits = 2047 * 2 ^ 52 := rfl

theorem toNat_unpackExponent (u : UInt64) :
    (@unpackExponent .binary64 u.toBitVec).toNat = u.toNat / 2 ^ 52 % 2 ^ 11 := by
  simp [unpackExponent, BitVec.extractLsb_toNat, Nat.shiftRight_eq_div_pow]

theorem toNat_unpackMantissa (u : UInt64) :
    (@unpackMantissa .binary64 u.toBitVec).toNat = u.toNat % 2 ^ 52 := by
  simp [unpackMantissa, BitVec.extractLsb_toNat]

/-- The bits of a double are those that it is made of, unless they are not a number. -/
theorem toBits_ofBits {u : UInt64} (h : u.toNat % 2 ^ 63 ≤ infinityBits) :
    (Float.ofBits u).toBits = u := by
  have hv : Format.binary64.Valid u.toBitVec := by
    refine ⟨fun he hm => ?_⟩
    have he := congrArg BitVec.toNat he
    have hm : u.toNat % 2 ^ 52 ≠ 0 := fun hz =>
      hm (BitVec.eq_of_toNat_eq ((toNat_unpackMantissa u).trans hz))
    rw [toNat_unpackExponent] at he
    change _ = 2047 at he
    rw [infinityBits_eq] at h
    omega
  change UInt64.ofBitVec (pack .binary64 (unpack .binary64 u.toBitVec)) = u
  rw [pack_unpack hv]

end Bits

theorem exists_parts_of_isFinite {x : Float} (h : isFinite x = true) :
    ∃ m e, parts x = .finite (isNegative x) m e := by
  have hx : x.toBits.toNat < 2 ^ 64 := x.toBits.toNat_lt
  rw [isFinite, decide_eq_true_eq, magnitudeBits, infinityBits_eq, Nat.pow_eq] at h
  unfold parts partsOfBits isNegative
  simp only [Nat.pow_eq]
  rw [if_neg (by omega)]
  split_ifs
  · exact ⟨_, _, rfl⟩
  · exact ⟨_, _, rfl⟩

/-- A magnitude without a sign is the whole of the bits. -/
theorem toNat_toBits_ofMagnitude {bits : Nat} (h : bits ≤ infinityBits) :
    (ofMagnitude false bits).toBits.toNat = bits := by
  rw [infinityBits_eq] at h
  have hu : (UInt64.ofNat bits).toNat = bits := by
    rw [UInt64.toNat_ofNat']
    omega
  have hbits : (ofMagnitude false bits).toBits = UInt64.ofNat bits := by
    refine toBits_ofBits ?_
    rw [infinityBits_eq, if_neg (by decide), hu]
    omega
  rw [hbits, hu]

/-- A double is made of its sign and its magnitude. -/
theorem ofMagnitude_magnitudeBits (x : Float) :
    ofMagnitude (isNegative x) (magnitudeBits x) = x := by
  have hx : x.toBits.toNat < 2 ^ 64 := x.toBits.toNat_lt
  have hbits : (if isNegative x = true then Nat.pow 2 63 + magnitudeBits x else magnitudeBits x) =
      x.toBits.toNat := by
    unfold isNegative magnitudeBits
    simp only [Nat.pow_eq, decide_eq_true_eq]
    split_ifs <;> omega
  rw [ofMagnitude, hbits, UInt64.ofNat_toNat]
  exact ofBits_toBits x

/-- The sign and the magnitude of a double are those that it is made of. -/
theorem sign_and_magnitude_ofMagnitude (negative : Bool) {bits : Nat} (h : bits ≤ infinityBits) :
    isNegative (ofMagnitude negative bits) = negative ∧
      magnitudeBits (ofMagnitude negative bits) = bits := by
  rw [infinityBits_eq] at h
  have hu : (UInt64.ofNat (if negative then Nat.pow 2 63 + bits else bits)).toNat =
      if negative then 2 ^ 63 + bits else bits := by
    rw [UInt64.toNat_ofNat', Nat.pow_eq]
    split <;> omega
  have hbits : (ofMagnitude negative bits).toBits.toNat =
      if negative then 2 ^ 63 + bits else bits := by
    rw [ofMagnitude, toBits_ofBits ?_, hu]
    rw [hu, infinityBits_eq]
    split <;> omega
  unfold isNegative magnitudeBits
  rw [hbits, Nat.pow_eq]
  cases negative
  · constructor
    · exact decide_eq_false (by simp; omega)
    · simp only [Bool.false_eq_true, if_false]
      omega
  · constructor
    · exact decide_eq_true (by simp)
    · simp only [if_true]
      omega

/-- What the parts of a double look like, and how its bits are made of them. -/
structure Canonical (bits m : Nat) (e : Int) : Prop where
  significand_lt : m < 2 ^ 53
  exponent_ge : leastExponent ≤ e
  normal_or_least : 2 ^ 52 ≤ m ∨ e = leastExponent
  bits_eq : bits = (e - leastExponent).toNat * 2 ^ 52 + m
  bits_lt : bits < infinityBits

theorem canonical_of_parts {x : Float} {negative : Bool} {m : Nat} {e : Int}
    (h : parts x = .finite negative m e) : Canonical (magnitudeBits x) m e := by
  have hx : x.toBits.toNat < 2 ^ 64 := x.toBits.toNat_lt
  unfold parts partsOfBits at h
  unfold magnitudeBits
  generalize x.toBits.toNat = b at h hx ⊢
  simp only [Nat.pow_eq, leastExponent] at h ⊢
  have hfield : b / 2 ^ 52 % 2048 = b % 2 ^ 63 / 2 ^ 52 := by omega
  split_ifs at h with hinf hfrac hsub
  · cases h
    refine ⟨by omega, by decide, .inr rfl, ?_, ?_⟩
    · rw [leastExponent]
      omega
    · rw [infinityBits_eq]
      omega
  · cases h
    refine ⟨by omega, ?_, .inl (by omega), ?_, ?_⟩
    · rw [leastExponent]
      omega
    · rw [leastExponent]
      omega
    · rw [infinityBits_eq]
      omega

theorem Canonical.exponent_le {bits m : Nat} {e : Int} (h : Canonical bits m e) : e ≤ 971 := by
  have hbits := h.bits_eq
  have hlt := h.bits_lt
  rw [infinityBits_eq] at hlt
  rw [leastExponent] at hbits
  rcases h.normal_or_least with hn | rfl
  · omega
  · decide

section Quotients

variable {num den : Nat}

theorem powerLe_iff {base : Nat} (hb : 0 < base) (hden : 0 < den) (k : Int) :
    powerLe base k num den = true ↔ (base : ℚ) ^ k ≤ num / den := by
  have hd : (0 : ℚ) < den := by exact_mod_cast hden
  have hb' : (0 : ℚ) < base := by exact_mod_cast hb
  unfold powerLe
  split
  · rename_i hk
    obtain ⟨n, rfl⟩ := Int.eq_ofNat_of_zero_le hk
    rw [decide_eq_true_eq, le_div_iff₀ hd, Int.toNat_natCast, zpow_natCast]
    exact_mod_cast Iff.rfl
  · rename_i hk
    obtain ⟨n, hn⟩ := Int.eq_ofNat_of_zero_le (show 0 ≤ -k by omega)
    have hkn : k = -(n : Int) := by omega
    subst hkn
    rw [decide_eq_true_eq, le_div_iff₀ hd, neg_neg, Int.toNat_natCast, zpow_neg, zpow_natCast,
      inv_mul_le_iff₀ (by positivity), mul_comm]
    exact_mod_cast Iff.rfl

theorem floorLog2_eq (hnum : 0 < num) (hden : 0 < den) :
    floorLog2 num den = Int.log 2 ((num : ℚ) / den) := by
  have hd : (0 : ℚ) < den := by exact_mod_cast hden
  have hq : (0 : ℚ) < num / den := div_pos (by exact_mod_cast hnum) hd
  have hle : ∀ k : Int, powerLe 2 k num den = true ↔ k ≤ Int.log 2 ((num : ℚ) / den) := by
    intro k
    rw [powerLe_iff (by decide) hden, ← Int.zpow_le_iff_le_log (by decide) hq]
  have hn1 : num < 2 ^ (num.log2 + 1) := Nat.lt_log2_self
  have hn0 : 2 ^ num.log2 ≤ num := Nat.log2_self_le hnum.ne'
  have hd1 : den < 2 ^ (den.log2 + 1) := Nat.lt_log2_self
  have hd0 : 2 ^ den.log2 ≤ den := Nat.log2_self_le hden.ne'
  have htwo : (2 : ℚ) ≠ 0 := by norm_num
  have hlow : (num.log2 : Int) - den.log2 - 1 ≤ Int.log 2 ((num : ℚ) / den) := by
    rw [← Int.zpow_le_iff_le_log (by decide) hq, le_div_iff₀ hd]
    calc ((2 : ℕ) : ℚ) ^ ((num.log2 : Int) - den.log2 - 1) * den
        ≤ (2 : ℚ) ^ ((num.log2 : Int) - den.log2 - 1) * 2 ^ (den.log2 + 1) := by
          push_cast
          exact mul_le_mul_of_nonneg_left (by exact_mod_cast hd1.le) (zpow_nonneg (by decide) _)
      _ = 2 ^ num.log2 := by
          rw [← zpow_natCast, ← zpow_natCast, ← zpow_add₀ htwo]
          congr 1
          push_cast
          ring
      _ ≤ num := by exact_mod_cast hn0
  have hhigh : Int.log 2 ((num : ℚ) / den) < (num.log2 : Int) - den.log2 + 1 := by
    rw [← Int.lt_zpow_iff_log_lt (by decide) hq, div_lt_iff₀ hd]
    calc (num : ℚ) < 2 ^ (num.log2 + 1) := by exact_mod_cast hn1
      _ = (2 : ℚ) ^ ((num.log2 : Int) - den.log2 + 1) * 2 ^ den.log2 := by
          rw [← zpow_natCast, ← zpow_natCast, ← zpow_add₀ htwo]
          congr 1
          push_cast
          ring
      _ ≤ ((2 : ℕ) : ℚ) ^ ((num.log2 : Int) - den.log2 + 1) * den := by
          push_cast
          exact mul_le_mul_of_nonneg_left (by exact_mod_cast hd0) (zpow_nonneg (by decide) _)
  unfold floorLog2
  simp only [hle]
  split <;> omega

theorem roundDiv_mul_right {c : Nat} (hc : 0 < c) :
    roundDiv (num * c) (den * c) = roundDiv num den := by
  have hlt : 2 * (num % den * c) < den * c ↔ 2 * (num % den) < den := by
    rw [← mul_assoc]
    exact Nat.mul_lt_mul_right hc
  have heq : 2 * (num % den * c) = den * c ↔ 2 * (num % den) = den := by
    rw [← mul_assoc]
    exact Nat.mul_left_inj hc.ne'
  unfold roundDiv
  simp only [Nat.mul_div_mul_right _ _ hc, Nat.mul_mod_mul_right, hlt, heq]

theorem roundDiv_self_mul (hden : 0 < den) (n : Nat) : roundDiv (n * den) den = n := by
  simp [roundDiv, hden]

theorem nearestBits_mul_right {c : Nat} (hc : 0 < c) (hden : 0 < den) :
    nearestBits (num * c) (den * c) = nearestBits num den := by
  rcases Nat.eq_zero_or_pos num with rfl | hnum
  · simp [nearestBits]
  have hq : ((num * c : ℕ) : ℚ) / (den * c : ℕ) = num / den := by
    push_cast
    exact mul_div_mul_right _ _ (by exact_mod_cast hc.ne')
  have hunit : unitExponent (num * c) (den * c) = unitExponent num den := by
    rw [unitExponent, unitExponent, floorLog2_eq (Nat.mul_pos hnum hc) (Nat.mul_pos hden hc), hq,
      floorLog2_eq hnum hden]
  unfold nearestBits
  rw [if_neg (Nat.mul_pos hnum hc).ne', if_neg hnum.ne', hunit]
  simp only [mul_right_comm _ c, roundDiv_mul_right hc]

theorem floorLog2_of_scaled {m : Nat} {e : Int} (hm : 0 < m) (hnum : 0 < num) (hden : 0 < den)
    (hq : (num : ℚ) / den = m * 2 ^ e) : floorLog2 num den = m.log2 + e := by
  have hpos : (0 : ℚ) < m * 2 ^ e := mul_pos (by exact_mod_cast hm) (zpow_pos (by decide) e)
  have hlow : (m.log2 : Int) + e ≤ Int.log 2 ((m : ℚ) * 2 ^ e) := by
    rw [← Int.zpow_le_iff_le_log (by decide) hpos]
    push_cast
    rw [zpow_add₀ (by decide), zpow_natCast]
    exact mul_le_mul_of_nonneg_right (by exact_mod_cast Nat.log2_self_le hm.ne')
      (zpow_nonneg (by decide) e)
  have hhigh : Int.log 2 ((m : ℚ) * 2 ^ e) < (m.log2 + 1 : ℕ) + e := by
    rw [← Int.lt_zpow_iff_log_lt (by decide) hpos]
    push_cast
    rw [zpow_add₀ (by decide)]
    exact mul_lt_mul_of_pos_right (by exact_mod_cast Nat.lt_log2_self) (zpow_pos (by decide) e)
  rw [floorLog2_eq hnum hden, hq]
  omega

/-- A double is the nearest one to its own value. -/
theorem nearestBits_of_canonical {bits m : Nat} {e : Int} (h : Canonical bits m e) (hm : 0 < m)
    (hden : 0 < den) (hq : (num : ℚ) / den = m * 2 ^ e) : nearestBits num den = bits := by
  have hd : (den : ℚ) ≠ 0 := by exact_mod_cast hden.ne'
  have hnum : 0 < num := by
    have hpos : (0 : ℚ) < num / den := by
      rw [hq]
      exact mul_pos (by exact_mod_cast hm) (zpow_pos (by decide) e)
    by_contra hz
    have : num = 0 := by omega
    simp [this] at hpos
  have hunit : unitExponent num den = e := by
    have hlog := floorLog2_of_scaled hm hnum hden hq
    have hlt : m.log2 < 53 := (Nat.log2_lt hm.ne').2 h.significand_lt
    have hge := h.exponent_ge
    rw [unitExponent, hlog]
    rcases h.normal_or_least with hn | rfl
    · have : 52 ≤ m.log2 := (Nat.le_log2 hm.ne').2 hn
      omega
    · omega
  have hsig : (if 0 ≤ e then roundDiv num (den * Nat.pow 2 e.toNat)
      else roundDiv (num * Nat.pow 2 (-e).toNat) den) = m := by
    rw [div_eq_iff hd] at hq
    split_ifs with he
    · obtain ⟨n, rfl⟩ := Int.eq_ofNat_of_zero_le he
      rw [zpow_natCast] at hq
      have hnat : num = m * (den * 2 ^ n) := by
        have : num = m * 2 ^ n * den := by exact_mod_cast hq
        rw [this]
        ring
      rw [Int.toNat_natCast, Nat.pow_eq, hnat]
      exact roundDiv_self_mul (by positivity) m
    · obtain ⟨n, hn⟩ := Int.eq_ofNat_of_zero_le (show 0 ≤ -e by omega)
      have hen : e = -(n : Int) := by omega
      subst hen
      rw [zpow_neg, zpow_natCast] at hq
      have hnat : num * 2 ^ n = m * den := by
        have : (num : ℚ) * 2 ^ n = m * den := by
          rw [hq]
          field_simp
        exact_mod_cast this
      rw [neg_neg, Int.toNat_natCast, Nat.pow_eq, hnat]
      exact roundDiv_self_mul hden m
  unfold nearestBits
  rw [if_neg hnum.ne', hunit]
  dsimp only
  rw [hsig, Nat.pow_eq, ← h.bits_eq, Nat.min_eq_right h.bits_lt.le]

end Quotients

end Scriptling.Binary
