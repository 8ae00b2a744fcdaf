import Scriptling.Proofs.Nearest
import Scriptling.Proofs.NumberText

/-!
# Shortest decimals

No decimal that reads back as a double has fewer digits than the one chosen for it. If a decimal
with a given number of digits reads back, so does one of the two multiples of that precision next
to the double, since rounding is monotone; so the search finds one with as many digits at most.
It ends at seventeen digits, where the multiples lie closer to each other than the middles
between the double and its neighbours.
-/
namespace Scriptling.Decimal

open Binary (Canonical infinityBits middleAbove two_zpow_pos overflowBound)

theorem ten_zpow_pos (e : Int) : (0 : ℚ) < 10 ^ e := zpow_pos (by norm_num) e

theorem ten_zpow_le {a b : Int} (h : a ≤ b) : (10 : ℚ) ^ a ≤ 10 ^ b :=
  zpow_le_zpow_right₀ (by norm_num) h

/-- A power of ten in units of another one. -/
theorem ten_zpow_add (e : Int) (k : Nat) : (10 : ℚ) ^ (e + k) = 10 ^ k * 10 ^ e := by
  rw [zpow_add₀ (by norm_num), zpow_natCast, mul_comm]

theorem width_pos (n : Nat) : 0 < width n := Nat.length_toDigits_pos

theorem lt_pow_width (n : Nat) : n < 10 ^ width n := (width_le_iff (width_pos n)).1 le_rfl

theorem pow_le_of_lt_width {n k : Nat} (hn : 0 < n) (h : k < width n) : 10 ^ k ≤ n := by
  rcases Nat.eq_zero_or_pos k with rfl | hk
  · exact hn
  · exact Nat.not_lt.1 fun hlt => absurd ((width_le_iff hk).2 hlt) (Nat.not_le.2 h)

section Rounding

/-- Every decimal is a quotient of natural numbers. -/
theorem exists_quotient (n : Nat) (e : Int) :
    ∃ num den : Nat, 0 < den ∧ (num : ℚ) / den = n * 10 ^ e ∧
      (if 0 ≤ e then Binary.nearestBits (n * Nat.pow 10 e.toNat) 1
        else Binary.nearestBits n (Nat.pow 10 (-e).toNat)) = Binary.nearestBits num den := by
  obtain ⟨hden, hq⟩ := Binary.scaled_quotient (show 0 < 10 by decide) n e
  refine ⟨_, _, hden, by exact_mod_cast hq, ?_⟩
  split <;> rfl

/-- A decimal is at least the power of ten that its first digit stands for. -/
theorem ten_zpow_le_of_width {n : Nat} (hn : 0 < n) {e k : Int} (h : k < width n + e) :
    (10 : ℚ) ^ k ≤ n * 10 ^ e := by
  have hpos := width_pos n
  calc (10 : ℚ) ^ k ≤ 10 ^ (e + (width n - 1 : ℕ)) := ten_zpow_le (by omega)
    _ = 10 ^ (width n - 1) * 10 ^ e := ten_zpow_add _ _
    _ ≤ n * 10 ^ e := by
      refine mul_le_mul_of_nonneg_right ?_ (ten_zpow_pos e).le
      exact_mod_cast pow_le_of_lt_width hn (show width n - 1 < width n by omega)

/-- A decimal is below the power of ten after its first digit. -/
theorem lt_ten_zpow_of_width (n : Nat) {e k : Int} (h : width n + e ≤ k) :
    (n * 10 ^ e : ℚ) < 10 ^ k :=
  calc (n * 10 ^ e : ℚ) < 10 ^ width n * 10 ^ e :=
        mul_lt_mul_of_pos_right (by exact_mod_cast lt_pow_width n) (ten_zpow_pos e)
    _ = 10 ^ (e + width n) := (ten_zpow_add _ _).symm
    _ ≤ 10 ^ k := ten_zpow_le (by omega)

theorem overflowBound_le : (overflowBound : ℚ) ≤ 10 ^ (310 : Int) := by
  have h : overflowBound ≤ 10 ^ 310 := by decide +kernel
  obtain ⟨k, hk⟩ : ∃ k, k = 310 := ⟨310, rfl⟩
  rw [← hk] at h
  have hcast : (310 : Int) = (k : ℕ) := by omega
  rw [hcast, zpow_natCast]
  exact_mod_cast h

theorem le_middleAbove_zero : (10 : ℚ) ^ (-331 : Int) ≤ middleAbove 0 := by
  have h : 2 ^ 1075 ≤ 10 ^ 331 := by decide +kernel
  have hplace : Binary.lastPlace 0 - 1 = -1075 := by decide
  have hsig : Binary.significandOf 0 = 0 := by decide
  obtain ⟨j, hj⟩ : ∃ j, j = 1075 := ⟨1075, rfl⟩
  obtain ⟨k, hk⟩ : ∃ k, k = 331 := ⟨331, rfl⟩
  rw [← hj, ← hk] at h
  have hj' : (-1075 : Int) = -(j : ℕ) := by omega
  have hk' : (-331 : Int) = -(k : ℕ) := by omega
  rw [middleAbove, hplace, hsig, Nat.cast_zero, mul_zero, zero_add, one_mul, hj', hk', zpow_neg,
    zpow_neg, zpow_natCast, zpow_natCast]
  exact inv_anti₀ (by positivity) (by exact_mod_cast h)

/-- A decimal is rounded as any quotient of its value is. -/
theorem nearestBits_eq {n num den : Nat} {e : Int} (hden : 0 < den)
    (hq : (num : ℚ) / den = n * 10 ^ e) : nearestBits n e = Binary.nearestBits num den := by
  have hd : (0 : ℚ) < den := by exact_mod_cast hden
  rcases Nat.eq_zero_or_pos n with rfl | hn
  · have hzero : num = 0 := by
      rw [Nat.cast_zero, zero_mul, div_eq_zero_iff] at hq
      exact_mod_cast hq.resolve_right hd.ne'
    rw [hzero, nearestBits, if_pos rfl, Binary.nearestBits, if_pos rfl]
  unfold nearestBits
  rw [if_neg hn.ne']
  split
  · rename_i hlarge
    symm
    rw [Binary.nearestBits_eq_infinityBits_iff hden, hq]
    exact overflowBound_le.trans (ten_zpow_le_of_width hn hlarge)
  split
  · rename_i hsmall
    have hlt : (num : ℚ) / den < middleAbove 0 := by
      rw [hq]
      exact (lt_ten_zpow_of_width n (by omega)).trans_le le_middleAbove_zero
    have hle := (Binary.nearestBits_le_iff hden (by decide)).2 (.inl hlt)
    omega
  · obtain ⟨num', den', hden', hq', hbits⟩ := exists_quotient n e
    rw [hbits]
    apply le_antisymm
    · exact Binary.nearestBits_mono hden' hden (hq'.trans hq.symm).le
    · exact Binary.nearestBits_mono hden hden' (hq.trans hq'.symm).le

theorem nearestBits_mono {n n' : Nat} {e e' : Int} (h : (n * 10 ^ e : ℚ) ≤ n' * 10 ^ e') :
    nearestBits n e ≤ nearestBits n' e' := by
  obtain ⟨num, den, hden, hq, -⟩ := exists_quotient n e
  obtain ⟨num', den', hden', hq', -⟩ := exists_quotient n' e'
  rw [nearestBits_eq hden hq, nearestBits_eq hden' hq']
  exact Binary.nearestBits_mono hden hden' (by rwa [hq, hq'])

end Rounding

section Search

variable {num den : Nat}

theorem floorLog10_eq (hnum : 0 < num) (hden : 0 < den) :
    floorLog10 num den = Int.log 10 ((num : ℚ) / den) := by
  have hd : (0 : ℚ) < den := by exact_mod_cast hden
  have hq : (0 : ℚ) < num / den := div_pos (by exact_mod_cast hnum) hd
  have hle : ∀ k : Int, Binary.powerLe 10 k num den = true ↔ k ≤ Int.log 10 ((num : ℚ) / den) := by
    intro k
    rw [Binary.powerLe_iff (by decide) hden, ← Int.zpow_le_iff_le_log (by decide) hq]
  have hw := width_pos num
  have hw' := width_pos den
  have hlow : (width num : Int) - width den - 1 ≤ Int.log 10 ((num : ℚ) / den) := by
    rw [← Int.zpow_le_iff_le_log (by decide) hq, le_div_iff₀ hd]
    have hden' : (den * 10 ^ ((width num : Int) - width den - 1) : ℚ) < 10 ^ ((width num : Int) - 1) :=
      lt_ten_zpow_of_width den (by omega)
    have hnum' : (10 : ℚ) ^ ((width num : Int) - 1) ≤ num * 10 ^ (0 : Int) :=
      ten_zpow_le_of_width hnum (by omega)
    rw [zpow_zero, mul_one] at hnum'
    rw [mul_comm]
    exact_mod_cast hden'.le.trans hnum'
  have hhigh : Int.log 10 ((num : ℚ) / den) < (width num : Int) - width den + 1 := by
    rw [← Int.lt_zpow_iff_log_lt (by decide) hq, div_lt_iff₀ hd]
    have hnum' : (num * 10 ^ (0 : Int) : ℚ) < 10 ^ (width num : Int) :=
      lt_ten_zpow_of_width num (by omega)
    have hden' : (10 : ℚ) ^ (width num : Int) ≤ den * 10 ^ ((width num : Int) - width den + 1) :=
      ten_zpow_le_of_width hden (by omega)
    rw [zpow_zero, mul_one] at hnum'
    rw [mul_comm]
    exact_mod_cast hnum'.trans_le hden'
  unfold floorLog10
  simp only [hle]
  split <;> omega

/-- A quotient in units of a power of ten is a quotient again. -/
theorem quotient_in_units (num : Nat) (hden : 0 < den) (e : Int) :
    0 < (if 0 ≤ e then den * Nat.pow 10 e.toNat else den) ∧
      (num : ℚ) / den = ((if 0 ≤ e then num else num * Nat.pow 10 (-e).toNat : Nat) : ℚ) /
        (if 0 ≤ e then den * Nat.pow 10 e.toNat else den : Nat) * 10 ^ e := by
  have hd : (0 : ℚ) < den := by exact_mod_cast hden
  split
  · rename_i he
    obtain ⟨k, rfl⟩ := Int.eq_ofNat_of_zero_le he
    rw [Int.toNat_natCast, Nat.pow_eq]
    refine ⟨by positivity, ?_⟩
    push_cast
    rw [zpow_natCast]
    field_simp
  · rename_i he
    obtain ⟨k, hk⟩ := Int.eq_ofNat_of_zero_le (show 0 ≤ -e by omega)
    have hek : e = -(k : Int) := by omega
    subst hek
    rw [neg_neg, Int.toNat_natCast, Nat.pow_eq]
    refine ⟨hden, ?_⟩
    push_cast
    rw [zpow_neg, zpow_natCast]
    field_simp

/-- A quotient lies between two multiples of a power of ten. Both of them are tried, or only the
lower one if it is the quotient. -/
theorem neighbours_spec (num : Nat) (hden : 0 < den) (e : Int) :
    ∃ n : Nat, (n * 10 ^ e : ℚ) ≤ num / den ∧ (num : ℚ) / den < (n + 1 : ℕ) * 10 ^ e ∧
      n ∈ neighbours num den e ∧
      ((n * 10 ^ e : ℚ) ≠ num / den → n + 1 ∈ neighbours num den e) ∧
      ∀ k ∈ neighbours num den e, k = n ∨ (k = n + 1 ∧ (n * 10 ^ e : ℚ) ≠ num / den) := by
  have hd : (0 : ℚ) < den := by exact_mod_cast hden
  unfold neighbours
  generalize htop : (if 0 ≤ e then num else num * Nat.pow 10 (-e).toNat) = top
  generalize hbottom : (if 0 ≤ e then den * Nat.pow 10 e.toNat else den) = bottom
  have hscaled : 0 < bottom ∧ (num : ℚ) / den = (top : ℚ) / bottom * 10 ^ e :=
    htop ▸ hbottom ▸ quotient_in_units num hden e
  obtain ⟨hpos, hq⟩ := hscaled
  have hb : (0 : ℚ) < bottom := by exact_mod_cast hpos
  have hdiv : bottom * (top / bottom) + top % bottom = top := Nat.div_add_mod top bottom
  have hmod : top % bottom < bottom := Nat.mod_lt top hpos
  have hten := ten_zpow_pos e
  dsimp only
  generalize top / bottom = n at *
  generalize top % bottom = r at *
  have hle : (n : ℚ) ≤ top / bottom := by
    rw [le_div_iff₀ hb, mul_comm]
    exact_mod_cast (show bottom * n ≤ top by omega)
  have hlt : (top : ℚ) / bottom < (n + 1 : ℕ) := by
    rw [div_lt_iff₀ hb, mul_comm]
    have : top < bottom * (n + 1) := by
      rw [Nat.mul_add, Nat.mul_one]
      omega
    exact_mod_cast this
  have heq : (n * 10 ^ e : ℚ) ≠ num / den ↔ 2 * r ≠ 0 := by
    rw [hq, not_iff_not, mul_left_inj' hten.ne', eq_div_iff hb.ne', mul_comm]
    have : bottom * n = top ↔ 2 * r = 0 := by omega
    exact_mod_cast this
  refine ⟨n, ?_, ?_, ?_⟩
  · rw [hq]
    exact mul_le_mul_of_nonneg_right hle hten.le
  · rw [hq]
    exact mul_lt_mul_of_pos_right hlt hten
  · simp only [heq]
    split_ifs with hzero <;> simp [hzero]

/-- The first digit of a quotient. -/
theorem floorLog10_spec (hnum : 0 < num) (hden : 0 < den) :
    (10 : ℚ) ^ floorLog10 num den ≤ num / den ∧
      (num : ℚ) / den < 10 ^ (floorLog10 num den + 1) := by
  have hq : (0 : ℚ) < num / den := div_pos (by exact_mod_cast hnum) (by exact_mod_cast hden)
  rw [floorLog10_eq hnum hden]
  constructor
  · exact_mod_cast Int.zpow_log_le_self (b := 10) (by decide) hq
  · exact_mod_cast Int.lt_zpow_succ_log_self (b := 10) (by decide) ((num : ℚ) / den)

/-- What is found with a number of digits has no more of them, zeros at the end aside, and reads
back. -/
theorem withDigits?_spec (hnum : 0 < num) (hden : 0 < den) {bits count n : Nat} {e : Int}
    (h : withDigits? bits num den count = some (n, e)) :
    n ≤ 10 ^ count ∧ nearestBits n e = bits := by
  obtain ⟨k, hfind, heq⟩ := Option.map_eq_some_iff.1 h
  cases heq
  obtain ⟨hlow, hhigh⟩ := floorLog10_spec hnum hden
  set e := floorLog10 num den + 1 - (count : Int) with he
  obtain ⟨below, hle, hlt, -, -, hmem⟩ := neighbours_spec num hden e
  have hten := ten_zpow_pos e
  have htop : (10 : ℚ) ^ (floorLog10 num den + 1) = (10 ^ count : ℕ) * 10 ^ e := by
    rw [Nat.cast_pow, Nat.cast_ofNat, ← ten_zpow_add]
    congr 1
    omega
  have hbelow : below < 10 ^ count := by
    have hlt' : (below * 10 ^ e : ℚ) < (10 ^ count : ℕ) * 10 ^ e := by
      rw [← htop]
      exact hle.trans_lt hhigh
    exact_mod_cast lt_of_mul_lt_mul_right hlt' hten.le
  constructor
  · rcases hmem n (List.mem_of_find?_eq_some hfind) with rfl | ⟨rfl, -⟩ <;> omega
  · exact eq_of_beq (List.find?_some hfind :)

/-- If a neighbour of a quotient reads back as it, one is found. -/
theorem exists_withDigits? {bits count n : Nat}
    (hmem : n ∈ neighbours num den (floorLog10 num den + 1 - count))
    (hread : nearestBits n (floorLog10 num den + 1 - count) = bits) :
    ∃ c, withDigits? bits num den count = some c := by
  unfold withDigits?
  dsimp only
  cases hfind : (neighbours num den (floorLog10 num den + 1 - count)).find?
      fun n => nearestBits n (floorLog10 num den + 1 - count) == bits with
  | some n => exact ⟨_, rfl⟩
  | none => exact absurd (beq_iff_eq.2 hread) (List.find?_eq_none.1 hfind n hmem)

theorem nearestBits_le_of_le (hden : 0 < den) {n : Nat} {e : Int}
    (h : (n * 10 ^ e : ℚ) ≤ num / den) : nearestBits n e ≤ Binary.nearestBits num den := by
  obtain ⟨num', den', hden', hq, -⟩ := exists_quotient n e
  rw [nearestBits_eq hden' hq]
  exact Binary.nearestBits_mono hden' hden (hq.trans_le h)

theorem le_nearestBits_of_le (hden : 0 < den) {n : Nat} {e : Int}
    (h : (num : ℚ) / den ≤ n * 10 ^ e) : Binary.nearestBits num den ≤ nearestBits n e := by
  obtain ⟨num', den', hden', hq, -⟩ := exists_quotient n e
  rw [nearestBits_eq hden' hq]
  exact Binary.nearestBits_mono hden hden' (h.trans_eq hq.symm)

/-- If a decimal reads back, one with as many digits is found: next to the quotient, between it
and the decimal. -/
theorem exists_withDigits?_of_reads (hnum : 0 < num) (hden : 0 < den) {bits n : Nat} {e : Int}
    (hself : Binary.nearestBits num den = bits) (hread : nearestBits n e = bits) :
    ∃ c, withDigits? bits num den (width n) = some c := by
  obtain ⟨hlow, -⟩ := floorLog10_spec hnum hden
  have hwidth := width_pos n
  set g := floorLog10 num den + 1 - (width n : Int) with hg
  have hten := ten_zpow_pos g
  obtain ⟨below, hle, hlt, hbelow, habove, -⟩ := neighbours_spec num hden g
  -- a decimal with a smaller unit lies below the power of ten at the first digit
  have hcoarse : (10 : ℚ) ^ floorLog10 num den ≤ n * 10 ^ e → g ≤ e := by
    intro hbig
    by_contra hfine
    exact absurd hbig (not_le.2 (lt_ten_zpow_of_width n (by omega)))
  -- a decimal with a larger unit is a multiple of the one that is tried
  have hmultiple : g ≤ e → ∃ k : Nat, (n * 10 ^ e : ℚ) = k * 10 ^ g := by
    intro hge
    obtain ⟨j, hj⟩ := Int.eq_ofNat_of_zero_le (show 0 ≤ e - g by omega)
    have hej : e = g + (j : Int) := by omega
    refine ⟨n * 10 ^ j, ?_⟩
    rw [hej, ten_zpow_add]
    push_cast
    ring
  rcases le_or_gt (n * 10 ^ e : ℚ) (num / den) with hdown | hup
  · refine exists_withDigits? hbelow (le_antisymm ?_ ?_)
    · exact (nearestBits_le_of_le hden hle).trans_eq hself
    · refine hread.symm.trans_le (nearestBits_mono ?_)
      have hgrid : ∀ k : Nat, (k * 10 ^ g : ℚ) ≤ num / den → (k * 10 ^ g : ℚ) ≤ below * 10 ^ g := by
        intro k hk
        have hkb : (k : ℚ) < (below + 1 : ℕ) := lt_of_mul_lt_mul_right (hk.trans_lt hlt) hten.le
        refine mul_le_mul_of_nonneg_right ?_ hten.le
        exact_mod_cast Nat.lt_succ_iff.1 (by exact_mod_cast hkb)
      rcases lt_or_ge (n * 10 ^ e : ℚ) (10 ^ floorLog10 num den) with hsmall | hbig
      · have hfirst : (10 : ℚ) ^ floorLog10 num den = (10 ^ (width n - 1) : ℕ) * 10 ^ g := by
          rw [Nat.cast_pow, Nat.cast_ofNat, ← ten_zpow_add]
          congr 1
          omega
        rw [hfirst] at hsmall hlow
        exact hsmall.le.trans (hgrid _ hlow)
      · obtain ⟨k, hk⟩ := hmultiple (hcoarse hbig)
        rw [hk] at hdown ⊢
        exact hgrid k hdown
  · obtain ⟨k, hk⟩ := hmultiple (hcoarse (hlow.trans hup.le))
    have hkb : below < k := by
      rw [hk] at hup
      exact_mod_cast lt_of_mul_lt_mul_right (hle.trans_lt hup) hten.le
    by_cases hexact : (below * 10 ^ g : ℚ) = num / den
    · refine exists_withDigits? hbelow (le_antisymm ?_ ?_)
      · exact (nearestBits_le_of_le hden hle).trans_eq hself
      · exact hself.symm.trans_le (le_nearestBits_of_le hden hexact.ge)
    · refine exists_withDigits? (habove hexact) (le_antisymm ?_ ?_)
      · refine (nearestBits_mono ?_).trans_eq hread
        rw [hk]
        refine mul_le_mul_of_nonneg_right ?_ hten.le
        exact_mod_cast hkb
      · exact hself.symm.trans_le (le_nearestBits_of_le hden hlt.le)

/-- What lies between the two middles next to a double reads as the double. -/
theorem nearestBits_of_between {bits n : Nat} {e : Int} (hpos : 0 < bits)
    (hbits : bits < infinityBits) (hlow : middleAbove (bits - 1) < n * 10 ^ e)
    (hhigh : (n * 10 ^ e : ℚ) < middleAbove bits) : nearestBits n e = bits := by
  obtain ⟨num, den, hden, hq, -⟩ := exists_quotient n e
  rw [← hq] at hlow hhigh
  rw [nearestBits_eq hden hq]
  have hle := (Binary.nearestBits_le_iff hden hbits).2 (.inl hhigh)
  have hge : ¬ Binary.nearestBits num den ≤ bits - 1 := by
    rw [Binary.nearestBits_le_iff hden (by omega)]
    rintro (h | ⟨h, -⟩) <;> linarith
  omega

/-- Seventeen digits always suffice. -/
theorem exists_withDigits?_seventeen (hnum : 0 < num) (hden : 0 < den) {bits m : Nat} {e : Int}
    (h : Canonical bits m e) (hm : 0 < m) (hq : (num : ℚ) / den = m * 2 ^ e) :
    ∃ c, withDigits? bits num den 17 = some c := by
  have hbits := h.bits_eq
  have hsig := h.significand_lt
  obtain ⟨hlow, -⟩ := floorLog10_spec hnum hden
  set g := floorLog10 num den + 1 - (17 : ℕ) with hg
  have hfirst : (10 : ℚ) ^ floorLog10 num den = 10 ^ 16 * 10 ^ g := by
    rw [← ten_zpow_add]
    congr 1
    omega
  obtain ⟨below, hle, hlt, hbelow, habove, -⟩ := neighbours_spec num hden g
  have hread := fun n => nearestBits_of_between (n := n) (e := g) (by omega : 0 < bits) h.bits_lt
  obtain ⟨hupper, hlower, hnarrow⟩ := h.middles hm
  have hw := two_zpow_pos (e - 2)
  have hvalue : (num : ℚ) / den = 4 * m * 2 ^ (e - 2) := by
    have hfour := Binary.two_zpow_add (e - 2) 2
    rw [show e - 2 + ((2 : ℕ) : Int) = e by omega] at hfour
    rw [hq, hfour]
    ring
  rw [hfirst, hvalue] at hlow
  push_cast at hlt
  rw [hvalue] at hle hlt habove
  -- the multiples lie closer to each other than the two middles
  have hspace : 10 ^ g < middleAbove bits - middleAbove (bits - 1) := by
    rw [hupper]
    by_cases hpow : m = 2 ^ 52
    · subst hpow
      push_cast at hlow hlower ⊢
      linarith
    · have hm' : (m : ℚ) ≤ 2 ^ 53 := by exact_mod_cast hsig.le
      have hlower' := hnarrow hpow
      nlinarith
  rw [hupper] at hread hspace
  by_cases hin : middleAbove (bits - 1) < below * 10 ^ g
  · refine exists_withDigits? hbelow (hread below hin ?_)
    linarith
  · refine exists_withDigits? (habove ?_) (hread (below + 1) ?_ ?_)
    · linarith
    · push_cast
      linarith
    · push_cast
      linarith

/-- The first hit among numbers is at any other one or before it. -/
theorem findSome?_range {α : Type} {f : Nat → Option α} {n i : Nat} (hi : i < n) {a : α}
    (h : f i = some a) : ∃ j ≤ i, ∃ b, (List.range n).findSome? f = some b ∧ f j = some b := by
  cases hs : (List.range n).findSome? f with
  | none =>
    have hnone := List.findSome?_eq_none_iff.1 hs i (List.mem_range.2 hi)
    rw [h] at hnone
    cases hnone
  | some b =>
    obtain ⟨before, j, after, hsplit, hj, hbefore⟩ := List.findSome?_eq_some_iff.1 hs
    refine ⟨j, ?_, b, rfl, hj⟩
    have hsorted : (before ++ j :: after).Pairwise (· < ·) := hsplit ▸ List.pairwise_lt_range
    have hmem : i ∈ before ++ j :: after := hsplit ▸ List.mem_range.2 hi
    rcases List.mem_append.1 hmem with hin | hin
    · have hnone := hbefore i hin
      rw [h] at hnone
      cases hnone
    · rcases List.mem_cons.1 hin with rfl | hin
      · exact le_rfl
      · have hlater := (List.pairwise_cons.1 (List.pairwise_append.1 hsorted).2.1).1 i hin
        exact hlater.le

/-- The search finds digits that read back, and no more of them than any decimal has that reads
back. -/
theorem shortest?_spec (hnum : 0 < num) (hden : 0 < den) {bits m : Nat} {e : Int}
    (h : Canonical bits m e) (hm : 0 < m) (hq : (num : ℚ) / den = m * 2 ^ e) :
    ∃ n k, shortest? bits num den = some (n, k) ∧
      ∀ (n' : Nat) (k' : Int), nearestBits n' k' = bits → n ≤ 10 ^ width n' := by
  have hself := Binary.nearestBits_of_canonical h hm hden hq
  have hfirst : ∀ count, 0 < count → count ≤ 17 → (∃ c, withDigits? bits num den count = some c) →
      ∃ n k, shortest? bits num den = some (n, k) ∧ n ≤ 10 ^ count := by
    rintro count hpos hle ⟨c, hc⟩
    rw [show count = count - 1 + 1 by omega] at hc
    obtain ⟨i, hi, ⟨n, k⟩, hs, hhit⟩ :=
      findSome?_range (f := fun i => withDigits? bits num den (i + 1)) (by omega : count - 1 < 17) hc
    have hn := (withDigits?_spec hnum hden hhit).1
    exact ⟨n, k, hs, hn.trans (Nat.pow_le_pow_right (by decide) (by omega))⟩
  obtain ⟨n, k, hs, hn⟩ := hfirst 17 (by decide) le_rfl
    (exists_withDigits?_seventeen hnum hden h hm hq)
  refine ⟨n, k, hs, fun n' k' hread => ?_⟩
  rcases le_or_gt (width n') 17 with hfew | hmany
  · obtain ⟨n₁, k₁, hs₁, hn₁⟩ := hfirst (width n') (width_pos n') hfew
      (exists_withDigits?_of_reads hnum hden hself hread)
    rw [hs] at hs₁
    cases hs₁
    exact hn₁
  · exact hn.trans (Nat.pow_le_pow_right (by decide) hmany.le)

end Search

/-- Without zeros at its end a number has as many digits as it has with them, less the zeros. -/
theorem trim_digits (n : Nat) (d : Decimal) :
    ∃ j : Nat, d.digits = (trim n d).digits * 10 ^ j ∧ (trim n d).exponent = d.exponent + j := by
  induction n generalizing d with
  | zero => exact ⟨0, by simp [trim]⟩
  | succ n ih =>
    unfold trim
    split
    · rename_i h
      obtain ⟨j, hdigits, hexponent⟩ :=
        ih { d with digits := d.digits / 10, exponent := d.exponent + 1 }
      refine ⟨j + 1, ?_, ?_⟩
      · rw [pow_succ, ← mul_assoc, ← hdigits]
        exact (Nat.div_mul_cancel (Nat.dvd_of_mod_eq_zero h.2)).symm
      · rw [hexponent]
        push_cast
        ring
    · exact ⟨0, by simp⟩

/-- As many steps as a number has digits take all zeros off its end. -/
theorem trim_mod_ne_zero {n : Nat} {d : Decimal} (hn : width d.digits ≤ n) (hd : d.digits ≠ 0) :
    (trim n d).digits % 10 ≠ 0 := by
  induction n generalizing d with
  | zero => exact absurd hn (Nat.not_le.2 (width_pos _))
  | succ n ih =>
    unfold trim
    split
    · rename_i h
      have hpos : 0 < d.digits / 10 := by omega
      refine ih ?_ hpos.ne'
      have hwidth := width_mul_ten hpos
      rw [Nat.div_mul_cancel (Nat.dvd_of_mod_eq_zero h.2)] at hwidth
      show width (d.digits / 10) ≤ n
      omega
    · rename_i h
      exact fun hzero => h ⟨hd, hzero⟩

/-- Up to a power of ten a number has no more digits than the power has zeros, without the zeros
at its end. -/
theorem width_trim_le (d : Decimal) {k : Nat} (hd : d.digits ≠ 0) (hk : 0 < k)
    (hle : d.digits ≤ 10 ^ k) : width (trim (width d.digits) d).digits ≤ k := by
  have hlast := trim_mod_ne_zero le_rfl hd
  obtain ⟨j, hdigits, -⟩ := trim_digits (width d.digits) d
  generalize (trim (width d.digits) d).digits = t at *
  have ht : t ≤ 10 ^ k := (Nat.le_mul_of_pos_right t (by positivity)).trans (hdigits ▸ hle)
  have hten : 10 ^ k % 10 = 0 := by
    rw [show k = k - 1 + 1 by omega, pow_succ]
    exact Nat.mul_mod_left _ _
  refine (width_le_iff hk).2 (lt_of_le_of_ne ht ?_)
  rintro rfl
  exact hlast hten

/-- A decimal is a shortest one for a double if it reads back as the double and no decimal with
fewer digits does. It has no zero at its end that could be left out. -/
structure IsShortest (x : Float) (d : Decimal) : Prop where
  reads_back : d.toFloat = x
  shortest : ∀ d' : Decimal, d'.toFloat = x → width d.digits ≤ width d'.digits
  trimmed : d.digits % 10 ≠ 0 ∨ (d.digits = 0 ∧ d.exponent = 0)

/-- A decimal reads as a double if it has the sign of the double and is rounded to its
magnitude. -/
theorem toFloat_eq_iff {d : Decimal} {x : Float} :
    d.toFloat = x ↔ d.negative = Binary.isNegative x ∧
      nearestBits d.digits d.exponent = Binary.magnitudeBits x := by
  have h := Binary.sign_and_magnitude_ofMagnitude d.negative
    (nearestBits_le_infinityBits d.digits d.exponent)
  constructor
  · rintro rfl
    exact ⟨h.1.symm, h.2.symm⟩
  · rintro ⟨hneg, hbits⟩
    rw [toFloat, hneg, hbits, Binary.ofMagnitude_magnitudeBits]

/-- The digits found for a double are no more than those of any decimal that reads back. -/
theorem digitsFor_le {bits m : Nat} {e : Int} (h : Canonical bits m e) (hm : 0 < m) {n : Nat}
    {k : Int} (hread : nearestBits n k = bits) : (digitsFor bits m e).1 ≤ 10 ^ width n := by
  unfold digitsFor
  dsimp only
  obtain ⟨hden, hq⟩ := Binary.scaled_quotient (show 0 < 2 by decide) m e
  have hnum : 0 < if 0 ≤ e then m * Nat.pow 2 e.toNat else m := by
    rw [Nat.pow_eq]
    split <;> positivity
  obtain ⟨digits, power, hs, hfew⟩ := shortest?_spec hnum hden h hm (by exact_mod_cast hq)
  rw [hs]
  exact hfew n k hread

/-- The decimal of a double that is not zero. -/
theorem ofFloat?_of_pos {x : Float} {negative : Bool} {m : Nat} {e : Int}
    (h : Binary.parts x = .finite negative m e) (hm : 0 < m) :
    ofFloat? x = some (trim (width (digitsFor (Binary.magnitudeBits x) m e).1)
      ⟨negative, (digitsFor (Binary.magnitudeBits x) m e).1,
        (digitsFor (Binary.magnitudeBits x) m e).2⟩) := by
  unfold ofFloat?
  rw [h]
  cases m with
  | zero => cases hm
  | succ m => rfl

/-- The decimal that is chosen for a double is a shortest one. -/
theorem exists_isShortest {x : Float} (hx : Binary.isFinite x = true) :
    ∃ d, ofFloat? x = some d ∧ d.negative = Binary.isNegative x ∧ IsShortest x d := by
  obtain ⟨d, hd, hneg, hbits⟩ := ofFloat?_of_isFinite hx
  suffices h : (∀ d' : Decimal, d'.toFloat = x → width d.digits ≤ width d'.digits) ∧
      (d.digits % 10 ≠ 0 ∨ (d.digits = 0 ∧ d.exponent = 0)) from
    ⟨d, hd, hneg, toFloat_eq_iff.2 ⟨hneg, hbits⟩, h.1, h.2⟩
  obtain ⟨m, e, hp⟩ := Binary.exists_parts_of_isFinite hx
  have hc := Binary.canonical_of_parts hp
  rcases Nat.eq_zero_or_pos m with rfl | hm
  · unfold ofFloat? at hd
    rw [hp] at hd
    cases hd
    have hone : width 0 = 1 := rfl
    exact ⟨fun d' _ => hone.trans_le (width_pos d'.digits), .inr ⟨rfl, rfl⟩⟩
  · rw [ofFloat?_of_pos hp hm] at hd
    have hread := nearestBits_digitsFor hc hm
    have hfew := fun (d' : Decimal) (h : d'.toFloat = x) =>
      digitsFor_le hc hm (toFloat_eq_iff.1 h).2
    generalize digitsFor (Binary.magnitudeBits x) m e = p at hd hread hfew
    obtain rfl := Option.some.inj hd
    let found : Decimal := ⟨Binary.isNegative x, p.1, p.2⟩
    have hne : found.digits ≠ 0 := by
      intro hzero
      have hpos := hc.bits_eq
      rw [show p.1 = 0 from hzero, nearestBits, if_pos rfl] at hread
      omega
    constructor
    · exact fun d' hd' => width_trim_le found hne (width_pos _) (hfew d' hd')
    · exact .inl (trim_mod_ne_zero (d := found) le_rfl hne)

end Scriptling.Decimal
