import Mathlib.Data.List.TakeWhile
import Mathlib.Tactic.NormNum
import Scriptling.Number.Format
import Scriptling.Proofs.Rounding

/-!
# Number texts read back

The decimal chosen for a finite double is one that was tried, or the double with all
its digits; both read back as the double. Zeros at the end of the digits can be traded
for the exponent, so the positional text of a decimal reads back as the decimal does.
-/
namespace Scriptling.Decimal

open Binary (Canonical magnitudeBits isNegative isFinite)

theorem toDigits_mul_ten {n : Nat} (hn : 0 < n) :
    Nat.toDigits 10 (n * 10) = Nat.toDigits 10 n ++ ['0'] := by
  have h := Nat.toDigits_append_toDigits (b := 10) (d := 0) (by decide) hn (by decide)
  rw [Nat.mul_comm, ← Nat.add_zero (10 * n), ← h]
  rfl

theorem width_mul_ten {n : Nat} (hn : 0 < n) : width (n * 10) = width n + 1 := by
  rw [width, toDigits_mul_ten hn, List.length_append, List.length_singleton, width]

theorem nearestBits_le_infinityBits (n : Nat) (e : Int) :
    nearestBits n e ≤ Binary.infinityBits := by
  have hb : ∀ num den, Binary.nearestBits num den ≤ Binary.infinityBits := by
    intro num den
    unfold Binary.nearestBits
    split_ifs
    · exact Nat.zero_le _
    · exact Nat.min_le_left _ _
  unfold nearestBits
  split_ifs
  · exact Nat.zero_le _
  · exact Nat.le_refl _
  · exact Nat.zero_le _
  · exact hb _ _
  · exact hb _ _

/-- A zero at the end of the digits can be traded for the exponent. -/
theorem nearestBits_mul_ten (n : Nat) (e : Int) :
    nearestBits (n * 10) e = nearestBits n (e + 1) := by
  rcases Nat.eq_zero_or_pos n with rfl | hn
  · simp [nearestBits]
  have hw : (width (n * 10) : Int) + e = width n + (e + 1) := by
    rw [width_mul_ten hn]
    omega
  unfold nearestBits
  rw [if_neg (by omega), if_neg hn.ne', hw]
  congr 2
  simp only [Nat.pow_eq]
  by_cases he : 0 ≤ e
  · obtain ⟨k, rfl⟩ := Int.eq_ofNat_of_zero_le he
    rw [if_pos he, if_pos (by omega), show ((k : Int) + 1).toNat = k + 1 by omega,
      Int.toNat_natCast, pow_succ]
    congr 1
    ring
  · obtain ⟨k, hk⟩ := Int.eq_ofNat_of_zero_le (show 0 ≤ -(e + 1) by omega)
    have hnext : (-e).toNat = k + 1 := by omega
    rw [if_neg he, hnext, pow_succ, Binary.nearestBits_mul_right (by decide) (by positivity), hk,
      Int.toNat_natCast]
    split_ifs with h
    · have hz : e + 1 = 0 := by omega
      have hk0 : k = 0 := by omega
      simp [hz, hk0]
    · rfl

theorem nearestBits_mul_pow (n k : Nat) (e : Int) :
    nearestBits (n * 10 ^ k) e = nearestBits n (e + k) := by
  induction k generalizing e with
  | zero => simp
  | succ k ih =>
    rw [pow_succ, ← mul_assoc, nearestBits_mul_ten, ih]
    congr 1
    push_cast
    ring

theorem trim_spec (n : Nat) (d : Decimal) :
    (trim n d).negative = d.negative ∧
      nearestBits (trim n d).digits (trim n d).exponent = nearestBits d.digits d.exponent := by
  induction n generalizing d with
  | zero => exact ⟨rfl, rfl⟩
  | succ n ih =>
    unfold trim
    split_ifs with h
    · obtain ⟨hneg, hbits⟩ := ih { d with digits := d.digits / 10, exponent := d.exponent + 1 }
      refine ⟨hneg, hbits.trans ?_⟩
      rw [← nearestBits_mul_ten, Nat.div_mul_cancel (Nat.dvd_of_mod_eq_zero h.2)]
    · exact ⟨rfl, rfl⟩

theorem width_le_iff {n k : Nat} (hk : 0 < k) : width n ≤ k ↔ n < 10 ^ k :=
  Nat.length_toDigits_le_iff (by decide) hk

theorem two_pow_le {p q n r : Nat} (a : Nat) (h : 2 ^ p ≤ 10 ^ q) (hn : n ≤ p * a)
    (hr : q * a ≤ r) : 2 ^ n ≤ 10 ^ r :=
  calc 2 ^ n ≤ 2 ^ (p * a) := Nat.pow_le_pow_right (by decide) hn
    _ = (2 ^ p) ^ a := pow_mul 2 p a
    _ ≤ (10 ^ q) ^ a := Nat.pow_le_pow_left h a
    _ = 10 ^ (q * a) := (pow_mul 10 q a).symm
    _ ≤ 10 ^ r := Nat.pow_le_pow_right (by decide) hr

/-- All digits of a double read back as it. -/
theorem nearestBits_exact {bits m : Nat} {e : Int} (h : Binary.Canonical bits m e) (hm : 0 < m) :
    nearestBits (exact m e).1 (exact m e).2 = bits := by
  have hge := h.exponent_ge
  have hle := h.exponent_le
  have hsig := h.significand_lt
  rw [Binary.leastExponent] at hge
  by_cases he : 0 ≤ e
  · obtain ⟨k, rfl⟩ := Int.eq_ofNat_of_zero_le he
    have hpos : 0 < m * 2 ^ k := by positivity
    have hw : width (m * 2 ^ k) ≤ 310 := by
      refine (width_le_iff (by decide)).2 ?_
      calc m * 2 ^ k < 2 ^ 53 * 2 ^ k := Nat.mul_lt_mul_of_pos_right hsig (Nat.two_pow_pos k)
        _ = 2 ^ (53 + k) := (pow_add 2 53 k).symm
        _ ≤ 10 ^ 310 := two_pow_le (p := 205) (q := 62) 5 (by norm_num) (by omega) (by omega)
    simp only [exact, if_pos he, Int.toNat_natCast, Nat.pow_eq]
    unfold nearestBits
    rw [if_neg hpos.ne', if_neg (by omega), if_neg (by omega), if_pos (le_refl 0)]
    refine Binary.nearestBits_of_canonical h hm (by decide) ?_
    simp
  · obtain ⟨k, hk⟩ := Int.eq_ofNat_of_zero_le (show 0 ≤ -e by omega)
    have hek : e = -(k : Int) := by omega
    subst hek
    have hpos : 0 < m * 5 ^ k := by positivity
    have hw : width (m * 5 ^ k) ≤ 16 + k := by
      refine (width_le_iff (by omega)).2 ?_
      calc m * 5 ^ k < 10 ^ 16 * 10 ^ k := by
            refine Nat.mul_lt_mul_of_lt_of_le (by omega) ?_ (by positivity)
            exact Nat.pow_le_pow_left (by decide) k
        _ = 10 ^ (16 + k) := (pow_add 10 16 k).symm
    -- fewer digits would need a value below the least double
    have hw' : k ≤ width (m * 5 ^ k) + 330 := by
      by_contra hlt
      obtain ⟨n, hn⟩ : ∃ n, n = 330 := ⟨330, rfl⟩
      have hfew : m * 5 ^ k < 10 ^ (k - n) := (width_le_iff (by omega)).1 (by omega)
      have hbig : 2 ^ k ≤ 10 ^ n :=
        two_pow_le (p := 33) (q := 10) 33 (by norm_num) (by omega) (by omega)
      have hall : m * 5 ^ k * 10 ^ n < 5 ^ k * 10 ^ n :=
        calc m * 5 ^ k * 10 ^ n < 10 ^ (k - n) * 10 ^ n :=
              Nat.mul_lt_mul_of_pos_right hfew (Nat.pow_pos (by decide))
          _ = (5 * 2) ^ k := by rw [← pow_add, Nat.sub_add_cancel (by omega)]
          _ = 5 ^ k * 2 ^ k := mul_pow 5 2 k
          _ ≤ 5 ^ k * 10 ^ n := Nat.mul_le_mul_left _ hbig
      exact absurd (Nat.lt_of_mul_lt_mul_right hall) (Nat.not_lt.2 (Nat.le_mul_of_pos_left _ hm))
    simp only [exact, if_neg he, neg_neg, Int.toNat_natCast, Nat.pow_eq]
    unfold nearestBits
    rw [if_neg hpos.ne', if_neg (by omega), if_neg (by omega), if_neg he]
    simp only [neg_neg, Int.toNat_natCast, Nat.pow_eq]
    rw [show (10 : ℕ) = 2 * 5 by rfl, mul_pow,
      Binary.nearestBits_mul_right (by positivity) (by positivity)]
    refine Binary.nearestBits_of_canonical h hm (by positivity) ?_
    rw [zpow_neg, zpow_natCast]
    push_cast
    rfl

/-- Whatever the search for short digits finds has been read back. -/
theorem nearestBits_of_shortest? {bits num den n : Nat} {e : Int}
    (h : shortest? bits num den = some (n, e)) : nearestBits n e = bits := by
  obtain ⟨count, -, hc⟩ := List.exists_of_findSome?_eq_some h
  obtain ⟨n', hn, heq⟩ := Option.map_eq_some_iff.1 hc
  cases heq
  have hfound := List.find?_some hn
  exact eq_of_beq hfound

theorem nearestBits_digitsFor {bits m : Nat} {e : Int} (h : Canonical bits m e) (hm : 0 < m) :
    nearestBits (digitsFor bits m e).1 (digitsFor bits m e).2 = bits := by
  unfold digitsFor
  dsimp only
  cases hs : shortest? bits _ _ with
  | none => exact nearestBits_exact h hm
  | some p => exact nearestBits_of_shortest? hs

/-- The decimal of a finite double has its sign and reads back as its magnitude. -/
theorem ofFloat?_of_isFinite {x : Float} (h : isFinite x = true) :
    ∃ d, ofFloat? x = some d ∧ d.negative = isNegative x ∧
      nearestBits d.digits d.exponent = magnitudeBits x := by
  obtain ⟨m, e, hp⟩ := Binary.exists_parts_of_isFinite h
  have hc := Binary.canonical_of_parts hp
  unfold ofFloat?
  rw [hp]
  cases m with
  | zero =>
    refine ⟨_, rfl, rfl, ?_⟩
    have hbits := hc.bits_eq
    rcases hc.normal_or_least with hn | rfl
    · exact absurd hn (by decide)
    · rw [hbits]
      rfl
  | succ m =>
    obtain ⟨hneg, hbits⟩ := trim_spec (width (digitsFor (magnitudeBits x) (m + 1) e).1)
      ⟨isNegative x, (digitsFor (magnitudeBits x) (m + 1) e).1,
        (digitsFor (magnitudeBits x) (m + 1) e).2⟩
    exact ⟨_, rfl, hneg, hbits.trans (nearestBits_digitsFor hc (Nat.succ_pos m))⟩

/-- A positive number does not begin with a zero. -/
theorem head?_toDigits {n : Nat} (hn : 0 < n) : (Nat.toDigits 10 n).head? ≠ some '0' := by
  induction n using Nat.strongRecOn with
  | ind n ih =>
    by_cases hlt : n < 10
    · have hsmall : ∀ n < 10, 0 < n → (Nat.toDigits 10 n).head? ≠ some '0' := by decide
      exact hsmall n hlt hn
    · have hquotient : 0 < n / 10 := by omega
      have happend := Nat.toDigits_append_toDigits (b := 10) (d := n % 10) (by decide) hquotient
        (Nat.mod_lt n (by decide))
      rw [Nat.div_add_mod] at happend
      have hhead := ih (n / 10) (by omega) hquotient
      rw [← happend]
      cases hd : Nat.toDigits 10 (n / 10) with
      | nil => exact absurd hd (List.ne_nil_of_length_pos Nat.length_toDigits_pos)
      | cons c cs =>
        rw [hd] at hhead
        exact hhead

/-- A whole part and a fraction that write a decimal out in digits. -/
structure Positional (d : Decimal) (whole fraction : List Char) : Prop where
  whole_ne_nil : whole ≠ []
  /-- No zero stands before another digit of the whole part. -/
  leads : (d.digits = 0 → d.exponent = 0) → whole.length = 1 ∨ whole.head? ≠ some '0'
  isDigit : ∀ c ∈ whole ++ fraction, c.isDigit = true
  value : Nat.ofDigitChars 10 (whole ++ fraction) 0 = d.digits * 10 ^ d.exponent.toNat
  length_fraction : fraction.length = (-d.exponent).toNat

/-- A whole part and a fraction, with a point between them if there is a fraction. -/
def joined (whole fraction : List Char) : List Char :=
  if fraction = [] then whole else whole ++ '.' :: fraction

theorem unsigned_eq_joined (d : Decimal) :
    ∃ whole fraction, d.unsigned = joined whole fraction ∧ Positional d whole fraction := by
  have hdigit : ∀ c ∈ Nat.toDigits 10 d.digits, c.isDigit = true := fun c =>
    Nat.isDigit_of_mem_toDigits (by decide) (by decide)
  have hzero : ∀ n, ∀ c ∈ List.replicate n '0', c.isDigit = true := by
    intro n c hc
    rw [List.eq_of_mem_replicate hc]
    rfl
  have hlen : 0 < (Nat.toDigits 10 d.digits).length := Nat.length_toDigits_pos
  unfold unsigned
  dsimp only
  split_ifs with he hw
  · refine ⟨_, [], (if_pos rfl).symm, by simp, ?_, ?_, ?_, ?_⟩
    · intro hz
      rcases Nat.eq_zero_or_pos d.digits with h0 | hpos
      · exact .inl (by simp [h0, hz h0])
      · right
        rw [List.head?_append_of_ne_nil _ (List.ne_nil_of_length_pos hlen)]
        exact head?_toDigits hpos
    · rw [List.append_nil]
      exact fun c hc => (List.mem_append.1 hc).elim (hdigit c) (hzero _ c)
    · rw [List.append_nil, Nat.ofDigitChars_append, Nat.ofDigitChars_replicate_zero,
        Nat.ofDigitChars_ten_toDigits, Nat.mul_comm]
    · rw [List.length_nil]
      omega
  · set n := ((Nat.toDigits 10 d.digits).length + d.exponent).toNat with hn
    have hfrac : (Nat.toDigits 10 d.digits).drop n ≠ [] := by
      rw [← List.length_pos_iff, List.length_drop]
      omega
    refine ⟨_, _, (if_neg hfrac).symm, ?_, ?_, ?_, ?_, ?_⟩
    · rw [← List.length_pos_iff, List.length_take]
      omega
    · intro hz
      right
      rw [List.head?_take, if_neg (by omega)]
      exact head?_toDigits (Nat.pos_of_ne_zero fun h0 => by have := hz h0; omega)
    · rwa [List.take_append_drop]
    · rw [List.take_append_drop, Nat.ofDigitChars_ten_toDigits, show d.exponent.toNat = 0 by omega,
        pow_zero, Nat.mul_one]
    · rw [List.length_drop]
      omega
  · refine ⟨['0'], _, (if_neg ?_).symm, by simp, fun _ => .inl rfl, ?_, ?_, ?_⟩
    · simp
    · rw [List.singleton_append]
      refine List.forall_mem_cons.2 ⟨rfl, fun c hc => ?_⟩
      exact (List.mem_append.1 hc).elim (hzero _ c) (hdigit c)
    · rw [Nat.ofDigitChars_append, Nat.ofDigitChars_append, Nat.ofDigitChars_replicate_zero,
        show Nat.ofDigitChars 10 ['0'] 0 = 0 by rfl, Nat.mul_zero, Nat.ofDigitChars_ten_toDigits,
        show d.exponent.toNat = 0 by omega, pow_zero, Nat.mul_one]
    · rw [List.length_append, List.length_replicate]
      omega

theorem ne_of_isDigit {c d : Char} (hc : c.isDigit = true) (hd : d.isDigit = false) : c ≠ d := by
  rintro rfl
  rw [hc] at hd
  cases hd

theorem not_mem_of_isDigit {ds : List Char} (h : ∀ c ∈ ds, c.isDigit = true) {c : Char}
    (hc : c.isDigit = false) : c ∉ ds :=
  fun hmem => ne_of_isDigit (h c hmem) hc rfl

/-- Written out in digits, a decimal is read as a whole part and a fraction. -/
theorem ofLiteral_joined {whole fraction : List Char}
    (h : ∀ c ∈ whole ++ fraction, c.isDigit = true) :
    ofLiteral (joined whole fraction) = ofParts false whole fraction 0 := by
  have hplain : (joined whole fraction).filter (· ≠ '_') = joined whole fraction := by
    refine List.filter_eq_self.2 fun c hc => ?_
    have hc' : c ∈ whole ++ fraction ∨ c = '.' := by
      unfold joined at hc
      split_ifs at hc
      · exact .inl (List.mem_append_left _ hc)
      · simpa [or_assoc, or_comm, or_left_comm] using hc
    rcases hc' with hc' | rfl
    · simpa using ne_of_isDigit (h c hc') (by decide)
    · decide
  have hwhole : ∀ c ∈ whole, decide (c ≠ '.') = true := fun c hc => by
    simpa using ne_of_isDigit (h c (List.mem_append_left _ hc)) (by decide)
  unfold ofLiteral
  rw [hplain]
  dsimp only
  unfold joined
  split_ifs with hf
  · rw [List.takeWhile_eq_self_iff.2 hwhole, List.dropWhile_eq_nil_iff.2 hwhole, hf]
    rfl
  · rw [List.takeWhile_append_of_pos hwhole, List.dropWhile_append_of_pos hwhole]
    simp

/-- Reading the digits of a decimal gives the double that the decimal gives. -/
theorem nearestBits_ofParts {d : Decimal} {whole fraction : List Char}
    (h : Positional d whole fraction) :
    nearestBits (ofParts false whole fraction 0).digits (ofParts false whole fraction 0).exponent =
      nearestBits d.digits d.exponent := by
  simp only [ofParts]
  rw [h.value, nearestBits_mul_pow, h.length_fraction]
  congr 1
  omega

end Scriptling.Decimal

namespace Scriptling

/-- The text of a finite double without a sign reads back as the double. -/
theorem number?_formatNumber {x : Float} (h : Binary.isFinite x = true)
    (hs : Binary.isNegative x = false) :
    ∃ whole fraction, (formatNumber x).toList = Decimal.joined whole fraction ∧
      whole ≠ [] ∧ (∀ c ∈ whole ++ fraction, c.isDigit = true) ∧
      (Decimal.ofLiteral (Decimal.joined whole fraction)).toFloat = x := by
  obtain ⟨d, hd, hneg, hbits⟩ := Decimal.ofFloat?_of_isFinite h
  obtain ⟨whole, fraction, htext, hp⟩ := d.unsigned_eq_joined
  refine ⟨whole, fraction, ?_, hp.whole_ne_nil, hp.isDigit, ?_⟩
  · simp [formatNumber, writeNumber, hd, Decimal.signed, hneg, hs, htext]
  · rw [Decimal.ofLiteral_joined hp.isDigit, Decimal.toFloat, Decimal.nearestBits_ofParts hp,
      hbits]
    change Binary.ofMagnitude false _ = x
    rw [← hs]
    exact Binary.ofMagnitude_magnitudeBits x

end Scriptling
