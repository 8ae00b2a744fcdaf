import Mathlib.Computability.RegularExpressions
import Mathlib.Data.List.DropRight
import Scriptling.Json.Display
import Scriptling.Proofs.JsonNumbers
import Scriptling.Proofs.ShortestDecimal

/-!
# Plain number texts

The text that programs see of a finite double has no exponent, no zero in front of its whole part
and none at the end of its fraction. It denotes the same rational number as the text with a point
or an exponent does, which is a shortest decimal of the double; so it reads back as the double,
and no other double has the same text. It is that other text with its digits written out and with
the zeros at the end of a fraction taken off.
-/
namespace Scriptling

open RegularExpression (char star)

/-- One of some characters. -/
def oneOf (cs : List Char) : RegularExpression Char :=
  (cs.map char).sum

/-- The digits from one to nine. -/
def nonzeroDigit : RegularExpression Char :=
  oneOf ['1', '2', '3', '4', '5', '6', '7', '8', '9']

def digit : RegularExpression Char :=
  char '0' + nonzeroDigit

/-- A minus sign or none, a whole part without zeros in front, and a fraction without zeros at its
end or none. -/
def plainNumber : RegularExpression Char :=
  (1 + char '-') * (char '0' + nonzeroDigit * star digit) *
    (1 + char '.' * (star digit * nonzeroDigit))

section Shape

theorem singleton_mem_oneOf {cs : List Char} {c : Char} (h : c ∈ cs) :
    [c] ∈ (oneOf cs).matches' := by
  induction cs with
  | nil => cases h
  | cons d cs ih =>
    rcases List.mem_cons.1 h with rfl | h
    · exact .inl rfl
    · exact .inr (ih h)

theorem singleton_mem_nonzeroDigit {c : Char} (h : c.isDigit = true) (h0 : c ≠ '0') :
    [c] ∈ nonzeroDigit.matches' := by
  have hall : ∀ n < 58, 48 < n → Char.ofNat n ∈ ['1', '2', '3', '4', '5', '6', '7', '8', '9'] := by
    decide
  simp only [Char.isDigit, Bool.and_eq_true, decide_eq_true_eq, ge_iff_le,
    UInt32.le_iff_toNat_le] at h
  have hlow : 48 ≤ c.toNat := h.1
  have hhigh : c.toNat ≤ 57 := h.2
  have hne : c.toNat ≠ 48 := fun heq => h0 (by rw [← Char.ofNat_toNat c, heq])
  apply singleton_mem_oneOf
  rw [← Char.ofNat_toNat c]
  exact hall c.toNat (by omega) (by omega)

theorem singleton_mem_digit {c : Char} (h : c.isDigit = true) : [c] ∈ digit.matches' := by
  by_cases h0 : c = '0'
  · exact .inl (by rw [h0]; rfl)
  · exact .inr (singleton_mem_nonzeroDigit h h0)

theorem mem_star_digit {ds : List Char} (h : ∀ c ∈ ds, c.isDigit = true) :
    ds ∈ (star digit).matches' := by
  have hflat : (ds.map fun c => [c]).flatten = ds := by
    rw [← List.flatMap_def, List.flatMap_singleton']
  rw [← hflat]
  apply Language.join_mem_kstar
  intro text htext
  obtain ⟨c, hc, rfl⟩ := List.mem_map.1 htext
  exact singleton_mem_digit (h c hc)

theorem Decimal.IsWhole.matches {whole : List Char} (h : Decimal.IsWhole whole) :
    whole ∈ (char '0' + nonzeroDigit * star digit).matches' := by
  cases whole with
  | nil => exact absurd rfl h.ne_nil
  | cons c cs =>
    have hdigits := List.forall_mem_cons.1 h.isDigit
    by_cases h0 : c = '0'
    · left
      rcases h.leads with hone | hlead
      · rw [h0, List.eq_nil_of_length_eq_zero (show cs.length = 0 by simpa using hone)]
        rfl
      · exact absurd (by rw [h0]; rfl) hlead
    · right
      exact Language.append_mem_mul (singleton_mem_nonzeroDigit hdigits.1 h0)
        (mem_star_digit hdigits.2)

theorem matches_fraction {fraction : List Char} (h : ∀ c ∈ fraction, c.isDigit = true)
    (hne : fraction ≠ []) (hlast : fraction.getLast hne ≠ '0') :
    '.' :: fraction ∈ (char '.' * (star digit * nonzeroDigit)).matches' := by
  rw [← List.dropLast_append_getLast hne]
  apply Language.append_mem_mul (a := ['.'])
  · rfl
  · apply Language.append_mem_mul
    · exact mem_star_digit fun c hc => h c (List.mem_of_mem_dropLast hc)
    · exact singleton_mem_nonzeroDigit (h _ (List.getLast_mem hne)) hlast

end Shape

namespace Decimal

section Value

/-- The number that a decimal stands for. -/
def value (d : Decimal) : ℚ :=
  (if d.negative then -1 else 1) * (d.digits * 10 ^ d.exponent)

/-- What stands before a character in a text. -/
def before (c : Char) (text : List Char) : List Char :=
  text.takeWhile (· ≠ c)

/-- What stands behind a character in a text. -/
def behind (c : Char) (text : List Char) : List Char :=
  (text.dropWhile (· ≠ c)).drop 1

/-- The whole number that digits denote, with a sign or without. -/
def denotedInteger : List Char → Int
  | '-' :: ds => -(Nat.ofDigitChars 10 ds 0 : Int)
  | '+' :: ds => Nat.ofDigitChars 10 ds 0
  | ds => Nat.ofDigitChars 10 ds 0

/-- The number that digits denote which may have a point among them. -/
def denotedPositional (text : List Char) : ℚ :=
  Nat.ofDigitChars 10 (before '.' text) 0 +
    Nat.ofDigitChars 10 (behind '.' text) 0 / 10 ^ (behind '.' text).length

/-- The number that a text denotes in positional notation, which may have a power of ten behind
it. -/
def denotedUnsigned (text : List Char) : ℚ :=
  denotedPositional (before 'e' text) * 10 ^ denotedInteger (behind 'e' text)

/-- The number that a text denotes. -/
def denoted : List Char → ℚ
  | '-' :: text => -denotedUnsigned text
  | text => denotedUnsigned text

theorem before_append {c : Char} {front : List Char} (h : c ∉ front) (rest : List Char) :
    before c (front ++ c :: rest) = front ∧ behind c (front ++ c :: rest) = rest := by
  have hfront : ∀ d ∈ front, decide (d ≠ c) = true := fun d hd =>
    decide_eq_true (ne_of_mem_of_not_mem hd h)
  constructor
  · rw [before, List.takeWhile_append_of_pos hfront]
    simp
  · rw [behind, List.dropWhile_append_of_pos hfront]
    simp

theorem before_of_not_mem {c : Char} {text : List Char} (h : c ∉ text) :
    before c text = text ∧ behind c text = [] := by
  have htext : ∀ d ∈ text, decide (d ≠ c) = true := fun d hd =>
    decide_eq_true (ne_of_mem_of_not_mem hd h)
  constructor
  · exact List.takeWhile_eq_self_iff.2 htext
  · rw [behind, List.dropWhile_eq_nil_iff.2 htext]
    rfl

variable {whole fraction : List Char}

/-- The point stands between the whole part and the fraction. -/
theorem before_joined (h : ∀ c ∈ whole ++ fraction, c.isDigit = true) :
    before '.' (joined whole fraction) = whole ∧ behind '.' (joined whole fraction) = fraction := by
  have hpoint : '.' ∉ whole :=
    not_mem_of_isDigit (fun c hc => h c (List.mem_append_left _ hc)) (by decide)
  unfold joined
  split
  · rename_i hnil
    rw [hnil]
    exact before_of_not_mem hpoint
  · exact before_append hpoint fraction

/-- Digits with a point among them denote what they denote without it, in units of the last one. -/
theorem denotedPositional_joined (h : ∀ c ∈ whole ++ fraction, c.isDigit = true) :
    denotedPositional (joined whole fraction) =
      Nat.ofDigitChars 10 (whole ++ fraction) 0 * 10 ^ (-(fraction.length : Int)) := by
  have hvalue : (Nat.ofDigitChars 10 (whole ++ fraction) 0 : ℚ) =
      10 ^ fraction.length * Nat.ofDigitChars 10 whole 0 + Nat.ofDigitChars 10 fraction 0 := by
    rw [Nat.ofDigitChars_append, Nat.ofDigitChars_eq_ofDigitChars_zero]
    push_cast
    rfl
  obtain ⟨hwhole, hfraction⟩ := before_joined h
  have hten : (10 : ℚ) ^ fraction.length ≠ 0 := by positivity
  rw [denotedPositional, hwhole, hfraction, hvalue, zpow_neg, zpow_natCast]
  field_simp

theorem denotedInteger_exponentText (e : Int) : denotedInteger (exponentText e) = e := by
  obtain ⟨ds, htext, -, -, hvalue⟩ := exponentText_eq e
  rw [htext]
  split
  · rw [denotedInteger, hvalue]
    omega
  · rw [denotedInteger, hvalue]
    omega

/-- The marker of an exponent stands behind the digits. -/
theorem before_exponentPart (h : ∀ c ∈ whole ++ fraction, c.isDigit = true) (e : Option Int) :
    before 'e' (joined whole fraction ++ exponentPart e) = joined whole fraction ∧
      denotedInteger (behind 'e' (joined whole fraction ++ exponentPart e)) = e.getD 0 := by
  have hmarker : 'e' ∉ joined whole fraction := by
    have hdigits := not_mem_of_isDigit h (show 'e'.isDigit = false by decide)
    unfold joined
    split
    · exact fun hmem => hdigits (List.mem_append_left _ hmem)
    · simpa using hdigits
  cases e with
  | none =>
    obtain ⟨hbefore, hbehind⟩ := before_of_not_mem hmarker
    rw [exponentPart, List.append_nil, hbefore, hbehind]
    exact ⟨rfl, rfl⟩
  | some e =>
    obtain ⟨hbefore, hbehind⟩ := before_append hmarker (exponentText e)
    rw [exponentPart, hbefore, hbehind, denotedInteger_exponentText]
    exact ⟨rfl, rfl⟩

/-- The digits and the exponent of a text are those of the decimal it is read as. -/
theorem denotedUnsigned_joined (h : ∀ c ∈ whole ++ fraction, c.isDigit = true) (e : Option Int) :
    denotedUnsigned (joined whole fraction ++ exponentPart e) =
      Nat.ofDigitChars 10 (whole ++ fraction) 0 * 10 ^ (e.getD 0 - fraction.length) := by
  obtain ⟨hbefore, hexponent⟩ := before_exponentPart h e
  rw [denotedUnsigned, hbefore, hexponent, denotedPositional_joined h, mul_assoc,
    ← zpow_add₀ (by norm_num)]
  congr 2
  ring

/-- Written out in digits, a decimal denotes itself. -/
theorem Positional.denotedUnsigned_eq {d : Decimal} (h : Positional d whole fraction) :
    denotedUnsigned (joined whole fraction) = d.digits * 10 ^ d.exponent := by
  have htext := denotedUnsigned_joined h.isDigit none
  rw [exponentPart, List.append_nil, Option.getD_none, h.value, h.length_fraction] at htext
  rw [htext, Nat.cast_mul, Nat.cast_pow, mul_assoc, ← zpow_natCast, Nat.cast_ofNat,
    ← zpow_add₀ (by norm_num)]
  congr 2
  omega

theorem denotedUnsigned_unsigned (d : Decimal) :
    denotedUnsigned d.unsigned = d.digits * 10 ^ d.exponent := by
  obtain ⟨whole, fraction, htext, hd⟩ := d.unsigned_eq_joined
  rw [htext, hd.denotedUnsigned_eq]

/-- With a point or an exponent, a decimal denotes itself too. -/
theorem denotedUnsigned_pointed (d : Decimal) :
    denotedUnsigned d.pointed = d.digits * 10 ^ d.exponent := by
  unfold pointed
  split
  · have hdigits := (isWhole_toDigits d.digits).isDigit
    have hlen : 0 < (Nat.toDigits 10 d.digits).length := Nat.length_toDigits_pos
    rw [scientific_eq_joined, denotedUnsigned_joined (by rwa [List.take_append_drop]),
      List.take_append_drop, Nat.ofDigitChars_ten_toDigits, List.length_drop]
    congr 2
    simp only [Option.getD_some, magnitude, width]
    omega
  split
  · obtain ⟨whole, fraction, htext, hd⟩ := d.unsigned_eq_joined
    have hnone := hd.length_fraction
    cases List.eq_nil_of_length_eq_zero (show fraction.length = 0 by omega)
    have hdigits : ∀ c ∈ whole ++ ['0'], c.isDigit = true :=
      List.forall_mem_append.2 ⟨fun c hc => hd.isDigit c (List.mem_append_left _ hc),
        List.forall_mem_singleton.2 rfl⟩
    have hpoint : d.unsigned ++ ['.', '0'] = joined whole ['0'] ++ exponentPart none := by
      simp [htext, joined, exponentPart]
    have hvalue := hd.denotedUnsigned_eq
    have hwhole := denotedUnsigned_joined hd.isDigit none
    rw [exponentPart, List.append_nil, hvalue] at hwhole
    rw [hpoint, denotedUnsigned_joined hdigits, hwhole]
    simp [Nat.ofDigitChars_append, Nat.ofDigitChars_cons, mul_comm (10 : ℚ)]
  · exact denotedUnsigned_unsigned d

end Value

section Sign

/-- A number text does not begin with a minus sign before one is put there. -/
theorem IsWhole.head?_ne {whole : List Char} (h : IsWhole whole) (fraction rest : List Char) :
    (joined whole fraction ++ rest).head? ≠ some '-' := by
  cases whole with
  | nil => exact absurd rfl h.ne_nil
  | cons c cs =>
    have hc : c ≠ '-' := ne_of_isDigit (h.isDigit c List.mem_cons_self) (by decide)
    unfold joined
    split <;> simpa using hc

variable {d : Decimal} {text : List Char}

theorem head?_signed (h : text.head? ≠ some '-') :
    (d.signed text).head? = some '-' ↔ d.negative = true := by
  unfold signed
  cases d.negative with
  | false => simpa using h
  | true => simp

theorem denoted_signed (h : text.head? ≠ some '-')
    (hvalue : denotedUnsigned text = d.digits * 10 ^ d.exponent) :
    denoted (d.signed text) = d.value := by
  unfold signed value
  cases d.negative with
  | false =>
    rw [if_neg (by decide), if_neg (by decide), one_mul, ← hvalue]
    cases text with
    | nil => rfl
    | cons c cs =>
      have hc : c ≠ '-' := by simpa using h
      simp [denoted, hc]
  | true =>
    rw [if_pos rfl, if_pos rfl, neg_one_mul, ← hvalue, denoted]

theorem ofSignedLiteral_signed (h : text.head? ≠ some '-') (hn : (ofLiteral text).negative = false) :
    ofSignedLiteral (d.signed text) = { ofLiteral text with negative := d.negative } := by
  unfold signed
  cases d.negative with
  | true => rfl
  | false =>
    rw [if_neg (by decide), ← hn]
    cases text with
    | nil => rfl
    | cons c cs =>
      have hc : c ≠ '-' := by simpa using h
      simp [ofSignedLiteral, hc]

end Sign

/-- The fraction of a decimal without zeros at its end does not end in a zero. -/
theorem Positional.getLast_ne {d : Decimal} {whole fraction : List Char}
    (h : Positional d whole fraction) (htrim : d.digits % 10 ≠ 0 ∨ d.digits = 0 ∧ d.exponent = 0)
    (hne : fraction ≠ []) : fraction.getLast hne ≠ '0' := by
  intro hzero
  have hlen := List.length_pos_iff.2 hne
  have hvalue := h.value
  rw [h.length_fraction] at hlen
  rw [show d.exponent.toNat = 0 by omega, pow_zero, Nat.mul_one,
    ← List.dropLast_append_getLast hne, hzero, ← List.append_assoc, Nat.ofDigitChars_append,
    Nat.ofDigitChars_cons, Nat.ofDigitChars_nil] at hvalue
  omega

/-- In positional notation, a decimal without zeros at its end is a plain number. -/
theorem signed_unsigned_matches {d : Decimal}
    (htrim : d.digits % 10 ≠ 0 ∨ d.digits = 0 ∧ d.exponent = 0) :
    d.signed d.unsigned ∈ plainNumber.matches' := by
  obtain ⟨whole, fraction, htext, hd⟩ := d.unsigned_eq_joined
  have hwhole := (hd.standsFor (by omega)).isWhole.matches
  have hpoint : ∃ rest ∈ (1 + char '.' * (star digit * nonzeroDigit)).matches',
      joined whole fraction = whole ++ rest := by
    unfold joined
    split
    · exact ⟨[], .inl rfl, (List.append_nil whole).symm⟩
    · rename_i hne
      have hdigits := fun c hc => hd.isDigit c (List.mem_append_right _ hc)
      exact ⟨_, .inr (matches_fraction hdigits hne (hd.getLast_ne htrim hne)), rfl⟩
  have hsign : ∃ sign ∈ (1 + char '-').matches', d.signed d.unsigned = sign ++ d.unsigned := by
    unfold signed
    split
    · exact ⟨['-'], .inr rfl, rfl⟩
    · exact ⟨[], .inl rfl, rfl⟩
  obtain ⟨rest, hrest, hjoined⟩ := hpoint
  obtain ⟨sign, hmem, hsigned⟩ := hsign
  rw [hsigned, htext, hjoined, ← List.append_assoc]
  exact Language.append_mem_mul (Language.append_mem_mul hmem hwhole) hrest

section Layout

variable {d : Decimal} (h0 : d.digits = 0 → d.exponent = 0)
include h0

theorem head?_unsigned : d.unsigned.head? ≠ some '-' := by
  obtain ⟨whole, fraction, htext, hd⟩ := d.unsigned_eq_joined
  have hminus := (hd.standsFor h0).isWhole.head?_ne fraction []
  rwa [List.append_nil, ← htext] at hminus

theorem head?_pointed : d.pointed.head? ≠ some '-' := by
  obtain ⟨whole, fraction, e, htext, -, hstands⟩ := d.pointed_eq h0
  have hminus := hstands.isWhole.head?_ne fraction (exponentPart e)
  rwa [← htext] at hminus

/-- In positional notation a decimal reads back as the double that it gives. -/
theorem toFloat_ofSignedLiteral :
    (ofSignedLiteral (d.signed d.unsigned)).toFloat = d.toFloat := by
  have hminus := head?_unsigned h0
  obtain ⟨whole, fraction, htext, hd⟩ := d.unsigned_eq_joined
  have hliteral := ofLiteral_joined hd.isDigit
  rw [← htext] at hliteral
  rw [ofSignedLiteral_signed hminus (by rw [hliteral]; rfl), hliteral]
  exact congrArg (Binary.ofMagnitude d.negative) (nearestBits_ofParts hd)

end Layout

section Expansion

/-- The decimal that a text writes with a point and a power of ten, of which either may be
missing. -/
def ofNotation (text : List Char) : Decimal :=
  let front := before 'e' text
  ofParts false (before '.' front) (behind '.' front) (denotedInteger (behind 'e' text))

/-- A text with its power of ten written out in digits. -/
def expanded : List Char → List Char
  | '-' :: text => '-' :: (ofNotation text).unsigned
  | text => (ofNotation text).unsigned

/-- A text without the zeros at the end of its fraction, and without the point if nothing is left
of the fraction. -/
def stripped (text : List Char) : List Char :=
  if '.' ∈ text then (text.rdropWhile (· == '0')).rdropWhile (· == '.') else text

variable {d : Decimal} {whole fraction : List Char}

theorem ofNotation_joined (h : ∀ c ∈ whole ++ fraction, c.isDigit = true) (e : Option Int) :
    ofNotation (joined whole fraction ++ exponentPart e) =
      ofParts false whole fraction (e.getD 0) := by
  obtain ⟨hbefore, hexponent⟩ := before_exponentPart h e
  obtain ⟨hwhole, hfraction⟩ := before_joined h
  simp only [ofNotation, hbefore, hexponent, hwhole, hfraction]

theorem expanded_signed {text : List Char} (h : text.head? ≠ some '-') :
    expanded (d.signed text) = d.signed (ofNotation text).unsigned := by
  unfold signed
  cases d.negative with
  | true => rfl
  | false =>
    cases text with
    | nil => rfl
    | cons c cs =>
      have hc : c ≠ '-' := by simpa using h
      simp [expanded, hc]

/-- The layout does not depend on the sign. -/
theorem unsigned_congr {d' : Decimal} (hdigits : d'.digits = d.digits)
    (hexponent : d'.exponent = d.exponent) : d'.unsigned = d.unsigned := by
  simp only [unsigned, hdigits, hexponent]

/-- A whole number is laid out as its digits. -/
theorem unsigned_of_nonneg (h0 : d.digits = 0 → d.exponent = 0) (he : 0 ≤ d.exponent) :
    d.unsigned = Nat.toDigits 10 (d.digits * 10 ^ d.exponent.toNat) := by
  have hpow : ∀ k, (d.digits = 0 → k = 0) →
      Nat.toDigits 10 (d.digits * 10 ^ k) = Nat.toDigits 10 d.digits ++ List.replicate k '0' := by
    intro k hk
    induction k with
    | zero => simp
    | succ k ih =>
      have hpos : 0 < d.digits := Nat.pos_of_ne_zero fun hzero => by have := hk hzero; omega
      rw [pow_succ, ← Nat.mul_assoc, toDigits_mul_ten (by positivity), ih fun hzero => by omega,
        List.append_assoc, ← List.replicate_succ']
  rw [unsigned, if_pos he, hpow _ fun hzero => by rw [h0 hzero]; rfl]

theorem unsigned_tenths (n : Nat) :
    unsigned ⟨false, n * 10, -1⟩ = Nat.toDigits 10 n ++ ['.', '0'] := by
  rcases Nat.eq_zero_or_pos n with rfl | hn
  · rfl
  · have hlen : 0 < (Nat.toDigits 10 n).length := Nat.length_toDigits_pos
    simp only [unsigned, toDigits_mul_ten hn, List.length_append, List.length_singleton]
    rw [if_neg (by decide), if_pos (by omega),
      show ((((Nat.toDigits 10 n).length + 1 : Nat) : Int) + -1).toNat = (Nat.toDigits 10 n).length
        by omega, List.take_left, List.drop_left]

/-- Written out in digits, the text with a point or an exponent is the positional one, which may
have a zero behind a point at its end. -/
theorem unsigned_ofNotation_pointed (h0 : d.digits = 0 → d.exponent = 0) :
    (ofNotation d.pointed).unsigned = d.unsigned ∨
      (ofNotation d.pointed).unsigned = d.unsigned ++ ['.', '0'] := by
  unfold pointed
  split_ifs with hfar hwhole
  · left
    have hdigits := (isWhole_toDigits d.digits).isDigit
    have hlen : 0 < (Nat.toDigits 10 d.digits).length := Nat.length_toDigits_pos
    rw [scientific_eq_joined, ofNotation_joined (by rwa [List.take_append_drop])]
    apply unsigned_congr
    · rw [ofParts, List.take_append_drop, Nat.ofDigitChars_ten_toDigits]
    · simp only [ofParts, Option.getD_some, magnitude, width, List.length_drop]
      omega
  · right
    obtain ⟨whole, fraction, htext, hd⟩ := d.unsigned_eq_joined
    have hnone := hd.length_fraction
    have hvalue := hd.value
    cases List.eq_nil_of_length_eq_zero (show fraction.length = 0 by omega)
    rw [List.append_nil] at hvalue
    have hdigits : ∀ c ∈ whole ++ ['0'], c.isDigit = true :=
      List.forall_mem_append.2 ⟨fun c hc => hd.isDigit c (List.mem_append_left _ hc),
        List.forall_mem_singleton.2 rfl⟩
    have hpoint : d.unsigned ++ ['.', '0'] = joined whole ['0'] ++ exponentPart none := by
      simp [htext, joined, exponentPart]
    have hparts : ofParts false whole ['0'] 0 =
        ⟨false, d.digits * 10 ^ d.exponent.toNat * 10, -1⟩ := by
      simp [ofParts, Nat.ofDigitChars_append, Nat.ofDigitChars_cons, hvalue, Nat.mul_comm 10]
    rw [hpoint, ofNotation_joined hdigits, ← hpoint, Option.getD_none, hparts, unsigned_tenths,
      unsigned_of_nonneg h0 hwhole]
  · left
    obtain ⟨whole, fraction, htext, hd⟩ := d.unsigned_eq_joined
    have hlength := hd.length_fraction
    have hread := ofNotation_joined hd.isDigit none
    rw [exponentPart, List.append_nil, ← htext] at hread
    rw [hread]
    apply unsigned_congr
    · rw [ofParts, hd.value, show d.exponent.toNat = 0 by omega, pow_zero, Nat.mul_one]
    · simp only [ofParts, Option.getD_none]
      omega

/-- The positional text of a decimal without zeros at its end ends in a digit, which is no zero
behind a point. -/
theorem exists_signed_unsigned (htrim : d.digits % 10 ≠ 0 ∨ d.digits = 0 ∧ d.exponent = 0) :
    ∃ front last, d.signed d.unsigned = front ++ [last] ∧ last.isDigit = true ∧
      ('.' ∈ front → last ≠ '0') := by
  obtain ⟨whole, fraction, htext, hd⟩ := d.unsigned_eq_joined
  have hsigned : ∀ text last, d.signed (text ++ [last]) = d.signed text ++ [last] := by
    intro text last
    unfold signed
    split <;> rfl
  by_cases hnil : fraction = []
  · subst hnil
    have hne := hd.whole_ne_nil
    have hdigits : ∀ c ∈ whole, c.isDigit = true := by simpa using hd.isDigit
    refine ⟨d.signed whole.dropLast, whole.getLast hne, ?_, hdigits _ (List.getLast_mem hne), ?_⟩
    · rw [← hsigned, List.dropLast_append_getLast, htext, joined, if_pos rfl]
    · have hpoint : '.' ∉ d.signed whole.dropLast := by
        have hdrop := not_mem_of_isDigit (fun c hc => hdigits c (List.mem_of_mem_dropLast hc))
          (show '.'.isDigit = false by decide)
        unfold signed
        split <;> simp [hdrop]
      exact fun hmem => absurd hmem hpoint
  · refine ⟨d.signed (whole ++ '.' :: fraction.dropLast), fraction.getLast hnil, ?_,
      hd.isDigit _ (List.mem_append_right _ (List.getLast_mem hnil)),
      fun _ => hd.getLast_ne htrim hnil⟩
    rw [← hsigned, List.append_assoc, List.cons_append, List.dropLast_append_getLast, htext, joined,
      if_neg hnil]

/-- What is taken off the text with a point or an exponent, once it is written out, is what the
positional text lacks. -/
theorem stripped_expanded (htrim : d.digits % 10 ≠ 0 ∨ d.digits = 0 ∧ d.exponent = 0) :
    stripped (expanded (d.signed d.pointed)) = d.signed d.unsigned := by
  have h0 : d.digits = 0 → d.exponent = 0 := by omega
  obtain ⟨front, last, htext, hdigit, hzero⟩ := exists_signed_unsigned htrim
  have hpoint : last ≠ '.' := ne_of_isDigit hdigit (by decide)
  rw [expanded_signed (head?_pointed h0)]
  rcases unsigned_ofNotation_pointed h0 with heq | heq
  · rw [heq, htext, stripped]
    split
    · rename_i hmem
      have hfront : '.' ∈ front := by simpa [hpoint.symm] using hmem
      rw [List.rdropWhile_concat_neg _ _ _ (by simpa using hzero hfront),
        List.rdropWhile_concat_neg _ _ _ (by simpa using hpoint)]
    · rfl
  · have hsigned : d.signed (d.unsigned ++ ['.', '0']) = front ++ [last] ++ ['.'] ++ ['0'] := by
      rw [← htext]
      unfold signed
      split <;> simp
    rw [heq, hsigned, stripped, if_pos (by simp), List.rdropWhile_concat_pos _ _ _ (by simp),
      List.rdropWhile_concat_neg _ _ _ (by simp), List.rdropWhile_concat_pos _ _ _ (by simp),
      List.rdropWhile_concat_neg _ _ _ (by simpa using hpoint), htext]

end Expansion

end Decimal

open Decimal

/-- A text displays a double if it is a plain number with the sign of the double, denotes what the
shortest text of the double denotes, and reads back as it. -/
structure Displays (text : List Char) (x : Float) : Prop where
  plain : text ∈ plainNumber.matches'
  minus : text.head? = some '-' ↔ Binary.isNegative x = true
  exact : denoted text = denoted (Json.floatText x).toList
  reads_back : (ofSignedLiteral text).toFloat = x

/-- The texts of a finite double, with one of its shortest decimals. -/
theorem exists_texts {x : Float} (hx : Binary.isFinite x = true) :
    ∃ d, IsShortest x d ∧ d.negative = Binary.isNegative x ∧
      (formatNumber x).toList = d.signed d.unsigned ∧
      (Json.floatText x).toList = d.signed d.pointed := by
  obtain ⟨d, hd, hneg, hshort⟩ := exists_isShortest hx
  refine ⟨d, hshort, hneg, ?_, ?_⟩
  · simp [formatNumber, writeNumber, hd]
  · simp [Json.floatText, writeNumber, hd]

theorem Decimal.IsShortest.zero_exponent {x : Float} {d : Decimal} (h : IsShortest x d) :
    d.digits = 0 → d.exponent = 0 := by
  have htrim := h.trimmed
  omega

/-- The text that programs see of a finite double is its text with a point or an exponent,
written out in digits and without the zeros at the end of a fraction. -/
theorem formatNumber_eq_stripped {x : Float} (hx : Binary.isFinite x = true) :
    (formatNumber x).toList = stripped (expanded (Json.floatText x).toList) := by
  obtain ⟨d, hshort, -, htext, hpointed⟩ := exists_texts hx
  rw [htext, hpointed, stripped_expanded hshort.trimmed]

example : stripped (expanded "-1.5e-07".toList) = "-0.00000015".toList := by decide

theorem formatNumber_displays {x : Float} (hx : Binary.isFinite x = true) :
    Displays (formatNumber x).toList x := by
  obtain ⟨d, hshort, hneg, htext, hpointed⟩ := exists_texts hx
  have hminus := head?_unsigned hshort.zero_exponent
  rw [htext]
  constructor
  · exact signed_unsigned_matches hshort.trimmed
  · rw [head?_signed hminus, hneg]
  · rw [hpointed, denoted_signed hminus (denotedUnsigned_unsigned d),
      denoted_signed (head?_pointed hshort.zero_exponent) (denotedUnsigned_pointed d)]
  · rw [toFloat_ofSignedLiteral hshort.zero_exponent, hshort.reads_back]

/-- A finite double is displayed by its text, whose number is that of a shortest decimal that reads
back, and shares the text with no other finite double. -/
theorem number_text_plain_and_exact {x : Float} (hx : Binary.isFinite x = true) :
    Displays (formatNumber x).toList x ∧
      (∃ d, IsShortest x d ∧ denoted (Json.floatText x).toList = d.value) ∧
      ∀ y, Binary.isFinite y = true → y.toBits ≠ x.toBits → formatNumber y ≠ formatNumber x := by
  refine ⟨formatNumber_displays hx, ?_, ?_⟩
  · obtain ⟨d, hshort, -, -, hpointed⟩ := exists_texts hx
    refine ⟨d, hshort, ?_⟩
    rw [hpointed]
    exact denoted_signed (head?_pointed hshort.zero_exponent) (denotedUnsigned_pointed d)
  · intro y hy hbits htext
    have hread := (formatNumber_displays hy).reads_back
    rw [htext, (formatNumber_displays hx).reads_back] at hread
    exact hbits (by rw [hread])

/-- Minus one ten-millionth is written without its exponent. -/
theorem number_text_of_minus_ten_millionth :
    Binary.isFinite (Float.ofBits 0xbe7ad7f29abcaf48) = true ∧
      formatNumber (Float.ofBits 0xbe7ad7f29abcaf48) = "-0.0000001" ∧
      Json.floatText (Float.ofBits 0xbe7ad7f29abcaf48) = "-1e-07" ∧
      Displays "-0.0000001".toList (Float.ofBits 0xbe7ad7f29abcaf48) ∧
      (∃ d, IsShortest (Float.ofBits 0xbe7ad7f29abcaf48) d ∧ denoted "-1e-07".toList = d.value) ∧
      ∀ y, Binary.isFinite y = true → y.toBits ≠ (Float.ofBits 0xbe7ad7f29abcaf48).toBits →
        formatNumber y ≠ "-0.0000001" := by
  have hfinite : Binary.isFinite (Float.ofBits 0xbe7ad7f29abcaf48) = true := by decide +kernel
  have hplain : formatNumber (Float.ofBits 0xbe7ad7f29abcaf48) = "-0.0000001" := by decide +kernel
  have hshort : Json.floatText (Float.ofBits 0xbe7ad7f29abcaf48) = "-1e-07" := by decide +kernel
  have h := number_text_plain_and_exact hfinite
  rw [hplain, hshort] at h
  exact ⟨hfinite, hplain, hshort, h⟩

end Scriptling
