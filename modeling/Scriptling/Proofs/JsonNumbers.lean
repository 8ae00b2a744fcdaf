import Scriptling.Json.Printer
import Scriptling.Json.Reader
import Scriptling.Proofs.NumberText

/-!
# Numbers of a JSON document

A document writes a double as a whole part, a fraction and an exponent, of which the last two
may be missing but not both, and a whole number as its digits. The reader takes off as many
digits as there are, so what stands behind a number must not look like a part of it; in a
document that is a comma or a new line.
-/
namespace Scriptling

namespace Decimal

open Binary (magnitudeBits isNegative isFinite)

/-- A double with a significand has digits that are not zero. -/
theorem digits_trim_ne_zero {bits m : Nat} {e : Int} (h : Binary.Canonical bits m e) (hm : 0 < m)
    (n : Nat) (negative : Bool) :
    (trim n ⟨negative, (digitsFor bits m e).1, (digitsFor bits m e).2⟩).digits ≠ 0 := by
  intro h0
  have hbits := (trim_spec n ⟨negative, (digitsFor bits m e).1, (digitsFor bits m e).2⟩).2.trans
    (nearestBits_digitsFor h hm)
  rw [h0, nearestBits, if_pos rfl] at hbits
  have heq := h.bits_eq
  omega

/-- Only a zero has no digits that count, and its decimal has no exponent. -/
theorem exponent_of_ofFloat? {x : Float} {d : Decimal} (h : ofFloat? x = some d)
    (h0 : d.digits = 0) : d.exponent = 0 := by
  unfold ofFloat? at h
  cases hp : Binary.parts x with
  | notANumber =>
    rw [hp] at h
    cases h
  | infinite negative =>
    rw [hp] at h
    cases h
  | finite negative m e =>
    rw [hp] at h
    cases m with
    | zero =>
      cases h
      rfl
    | succ m =>
      cases h
      exact absurd h0 (digits_trim_ne_zero (Binary.canonical_of_parts hp) (Nat.succ_pos m) _ _)

/-- What the whole part of a number may be. -/
structure IsWhole (whole : List Char) : Prop where
  ne_nil : whole ≠ []
  leads : whole.length = 1 ∨ whole.head? ≠ some '0'
  isDigit : ∀ c ∈ whole, c.isDigit = true

theorem isWhole_toDigits (n : Nat) : IsWhole (Nat.toDigits 10 n) where
  ne_nil := List.ne_nil_of_length_pos Nat.length_toDigits_pos
  leads := by
    rcases Nat.eq_zero_or_pos n with rfl | hn
    · exact .inl rfl
    · exact .inr (head?_toDigits hn)
  isDigit c := Nat.isDigit_of_mem_toDigits (by decide) (by decide)

/-- A whole part, a fraction and an exponent that stand for a decimal. -/
structure StandsFor (whole fraction : List Char) (e : Int) (d : Decimal) : Prop where
  isWhole : IsWhole whole
  isDigit : ∀ c ∈ fraction, c.isDigit = true
  value : ∀ negative, nearestBits (ofParts negative whole fraction e).digits
    (ofParts negative whole fraction e).exponent = nearestBits d.digits d.exponent

theorem Positional.standsFor {d : Decimal} {whole fraction : List Char}
    (h : Positional d whole fraction) (h0 : d.digits = 0 → d.exponent = 0) :
    StandsFor whole fraction 0 d where
  isWhole := ⟨h.whole_ne_nil, h.leads h0, fun c hc => h.isDigit c (List.mem_append_left _ hc)⟩
  isDigit c hc := h.isDigit c (List.mem_append_right _ hc)
  value _ := nearestBits_ofParts h

/-- A point and a zero behind a whole part change nothing. -/
theorem StandsFor.zero_fraction {d : Decimal} {whole : List Char} (h : StandsFor whole [] 0 d) :
    StandsFor whole ['0'] 0 d where
  isWhole := h.isWhole
  isDigit c hc := by
    rw [List.mem_singleton.1 hc]
    rfl
  value negative := by
    rw [← h.value negative]
    simp only [ofParts, List.append_nil, Nat.ofDigitChars_append, List.length_singleton,
      List.length_nil]
    change nearestBits (10 * Nat.ofDigitChars 10 whole 0) (0 - 1) = _
    rw [Nat.mul_comm, nearestBits_mul_ten]
    rfl

/-- The digits of a decimal, with the point behind the first of them. -/
theorem standsFor_scientific (d : Decimal) :
    StandsFor ((Nat.toDigits 10 d.digits).take 1) ((Nat.toDigits 10 d.digits).drop 1)
      d.magnitude d := by
  have hlen : 0 < (Nat.toDigits 10 d.digits).length := Nat.length_toDigits_pos
  have hdigit := (isWhole_toDigits d.digits).isDigit
  refine ⟨⟨?_, ?_, fun c hc => hdigit c (List.mem_of_mem_take hc)⟩,
    fun c hc => hdigit c (List.mem_of_mem_drop hc), fun negative => ?_⟩
  · rw [← List.length_pos_iff, List.length_take]
    omega
  · left
    rw [List.length_take]
    omega
  · simp only [ofParts, List.take_append_drop, Nat.ofDigitChars_ten_toDigits, List.length_drop]
    congr 1
    simp only [magnitude, width]
    omega

/-- The text of an exponent, if there is one. -/
def exponentPart : Option Int → List Char
  | none => []
  | some e => 'e' :: exponentText e

theorem scientific_eq_joined (d : Decimal) :
    d.scientific = joined ((Nat.toDigits 10 d.digits).take 1) ((Nat.toDigits 10 d.digits).drop 1) ++
      exponentPart (some d.magnitude) := by
  have hlen : 0 < (Nat.toDigits 10 d.digits).length := Nat.length_toDigits_pos
  have hone : (Nat.toDigits 10 d.digits).drop 1 = [] ↔ (Nat.toDigits 10 d.digits).length = 1 := by
    rw [List.drop_eq_nil_iff]
    omega
  rw [scientific, joined, exponentPart]
  simp only [hone]
  split_ifs <;> simp

/-- An exponent is written as a sign and its digits. -/
theorem exponentText_eq (e : Int) :
    ∃ ds, exponentText e = (if e < 0 then '-' else '+') :: ds ∧ ds ≠ [] ∧
      (∀ c ∈ ds, c.isDigit = true) ∧ Nat.ofDigitChars 10 ds 0 = e.natAbs := by
  have hdigits := isWhole_toDigits e.natAbs
  refine ⟨_, rfl, ?_⟩
  split
  · refine ⟨List.cons_ne_nil _ _, List.forall_mem_cons.2 ⟨rfl, hdigits.isDigit⟩, ?_⟩
    change Nat.ofDigitChars 10 (Nat.toDigits 10 e.natAbs) (10 * 0 + 0) = _
    exact Nat.ofDigitChars_ten_toDigits
  · exact ⟨hdigits.ne_nil, hdigits.isDigit, Nat.ofDigitChars_ten_toDigits⟩

/-- The text of a double in a document has a fraction or an exponent. -/
theorem pointed_eq (d : Decimal) (h0 : d.digits = 0 → d.exponent = 0) :
    ∃ whole fraction e, d.pointed = joined whole fraction ++ exponentPart e ∧
      (e = none → fraction ≠ []) ∧ StandsFor whole fraction (e.getD 0) d := by
  unfold pointed
  split_ifs with hfar hwhole
  · exact ⟨_, _, some d.magnitude, scientific_eq_joined d, nofun, standsFor_scientific d⟩
  all_goals
    obtain ⟨whole, fraction, htext, hd⟩ := d.unsigned_eq_joined
    have hlength := hd.length_fraction
  · cases List.eq_nil_of_length_eq_zero (show fraction.length = 0 by omega)
    refine ⟨whole, ['0'], none, ?_, fun _ => List.cons_ne_nil _ _, (hd.standsFor h0).zero_fraction⟩
    simp [htext, joined, exponentPart]
  · refine ⟨whole, fraction, none, ?_, fun _ => ?_, hd.standsFor h0⟩
    · simp [htext, exponentPart]
    · exact List.ne_nil_of_length_pos (by omega)

end Decimal

namespace Json.Reader

open Decimal (joined exponentText IsWhole)

/-- Whether a text goes on behind a value as a document does. -/
def Closes (rest : List Char) : Prop :=
  ∀ c ∈ rest.head?, c = ',' ∨ c = '\n'

/-- Whether no digit stands at the front of a text. -/
def NoDigit (rest : List Char) : Prop :=
  ∀ c ∈ rest.head?, c.isDigit = false

theorem NoDigit.cons {c : Char} (h : c.isDigit = false) (rest : List Char) :
    NoDigit (c :: rest) := by
  rintro _ ⟨⟩
  exact h

theorem Closes.noDigit {rest : List Char} (h : Closes rest) : NoDigit rest := by
  intro c hc
  rcases h c hc with rfl | rfl <;> rfl

theorem digits_append {ds rest : List Char} (hds : ∀ c ∈ ds, c.isDigit = true)
    (hrest : NoDigit rest) : digits (ds ++ rest) = (ds, rest) := by
  have hstop : rest.takeWhile Char.isDigit = [] ∧ rest.dropWhile Char.isDigit = rest := by
    cases rest with
    | nil => exact ⟨rfl, rfl⟩
    | cons c cs => simp [hrest c rfl]
  rw [digits, List.takeWhile_append_of_pos hds, List.dropWhile_append_of_pos hds, hstop.1, hstop.2,
    List.append_nil]

theorem fraction_of_ne {rest : List Char} (h : ∀ c ∈ rest.head?, c ≠ '.') :
    fraction rest = ([], rest) := by
  unfold fraction
  split
  · exact absurd rfl (h _ rfl)
  · rfl

theorem fraction_point {frac rest : List Char} (hne : frac ≠ [])
    (hfrac : ∀ c ∈ frac, c.isDigit = true) (hrest : NoDigit rest) :
    fraction ('.' :: (frac ++ rest)) = (frac, rest) := by
  simp [fraction, digits_append hfrac hrest, hne]

theorem exponent?_of_ne {rest : List Char} (h : ∀ c ∈ rest.head?, c ≠ 'e' ∧ c ≠ 'E') :
    exponent? rest = none := by
  cases rest with
  | nil => rfl
  | cons c cs => simp [exponent?, h c rfl]

/-- What a sign and digits are read as. -/
theorem exponent?_signed {sign : Char} {ds rest : List Char} (hsign : sign = '-' ∨ sign = '+')
    (hne : ds ≠ []) (hds : ∀ c ∈ ds, c.isDigit = true) (hrest : NoDigit rest) :
    exponent? ('e' :: sign :: (ds ++ rest)) =
      some (if sign = '-' then -(Nat.ofDigitChars 10 ds 0 : Int) else Nat.ofDigitChars 10 ds 0,
        rest) := by
  rcases hsign with rfl | rfl <;>
    simp [exponent?, digits_append hds hrest, hne]

theorem exponent?_exponentText (e : Int) {rest : List Char} (hrest : NoDigit rest) :
    exponent? ('e' :: (exponentText e ++ rest)) = some (e, rest) := by
  obtain ⟨ds, htext, hne, hds, hvalue⟩ := Decimal.exponentText_eq e
  rw [htext, List.cons_append, exponent?_signed (by split <;> simp) hne hds hrest, hvalue]
  by_cases he : e < 0
  · simp only [if_pos he, if_true]
    congr 2
    omega
  · simp only [if_neg he]
    rw [if_neg (by decide)]
    congr 2
    omega

section Parts

variable {negative : Bool} {whole frac rest : List Char}

/-- Whether nothing stands at the front of a text that could belong to a whole part or a
fraction. -/
structure EndsParts (rest : List Char) : Prop where
  noDigit : NoDigit rest
  ne_point : ∀ c ∈ rest.head?, c ≠ '.'

theorem Closes.endsParts (h : Closes rest) : EndsParts rest where
  noDigit := h.noDigit
  ne_point c hc := by rcases h c hc with rfl | rfl <;> decide

/-- The parts of a number are taken apart again. -/
theorem exists_digits_joined (hw : IsWhole whole) (hf : ∀ c ∈ frac, c.isDigit = true)
    (hrest : EndsParts rest) : ∃ after, digits (joined whole frac ++ rest) = (whole, after) ∧
      fraction after = (frac, rest) := by
  unfold joined
  split_ifs with hne
  · subst hne
    exact ⟨rest, digits_append hw.isDigit hrest.noDigit, fraction_of_ne hrest.ne_point⟩
  · refine ⟨'.' :: (frac ++ rest), ?_, fraction_point hne hf hrest.noDigit⟩
    rw [List.append_assoc, List.cons_append]
    exact digits_append hw.isDigit (.cons rfl _)

/-- A whole part is not refused. -/
theorem refused_eq_false (hw : IsWhole whole) :
    (whole.isEmpty || (whole.head? == some '0' && whole.length != 1)) = false := by
  rcases hw.leads with h | h <;> simp [hw.ne_nil, h]

theorem number_of_exponent (hw : IsWhole whole) (hf : ∀ c ∈ frac, c.isDigit = true)
    (hrest : EndsParts rest) {e : Int} {after : List Char}
    (he : exponent? rest = some (e, after)) :
    number negative (joined whole frac ++ rest) =
      some (.float (Decimal.ofParts negative whole frac e).toFloat, after) := by
  obtain ⟨_, hdigits, hfraction⟩ := exists_digits_joined hw hf hrest
  rw [number, hdigits]
  simp only [refused_eq_false hw, Bool.false_eq_true, if_false, hfraction, he]

theorem number_of_fraction (hw : IsWhole whole) (hf : ∀ c ∈ frac, c.isDigit = true)
    (hne : frac ≠ []) (hrest : EndsParts rest) (he : exponent? rest = none) :
    number negative (joined whole frac ++ rest) =
      some (.float (Decimal.ofParts negative whole frac 0).toFloat, rest) := by
  obtain ⟨_, hdigits, hfraction⟩ := exists_digits_joined hw hf hrest
  rw [number, hdigits]
  simp only [refused_eq_false hw, Bool.false_eq_true, if_false, hfraction, he,
    List.isEmpty_iff, hne]

theorem number_of_whole (hw : IsWhole whole) (hlen : whole.length ≤ maxDigits)
    (hrest : EndsParts rest) (he : exponent? rest = none) :
    number negative (whole ++ rest) =
      some (.int (if negative then -(Nat.ofDigitChars 10 whole 0 : Int)
        else Nat.ofDigitChars 10 whole 0), rest) := by
  have hdigits := digits_append hw.isDigit hrest.noDigit
  have hfraction := fraction_of_ne hrest.ne_point
  rw [number, hdigits]
  simp only [refused_eq_false hw, Bool.false_eq_true, if_false, hfraction, he, List.isEmpty_nil,
    if_true, if_neg (Nat.not_lt.2 hlen)]

end Parts

theorem scalar_of_isDigit {c : Char} (h : c.isDigit = true) (cs : List Char) :
    scalar (c :: cs) = number false (c :: cs) := by
  unfold scalar
  split
  any_goals
    rename_i heq
    cases heq
    cases h
  rfl

theorem scalar_minus {c : Char} (h : c.isDigit = true) (cs : List Char) :
    scalar ('-' :: c :: cs) = number true (c :: cs) := by
  have hI : c ≠ 'I' := Decimal.ne_of_isDigit h (by decide)
  simp [scalar, hI]

/-- A number begins with a digit or with a minus sign before one. -/
theorem scalar_signed (d : Decimal) {whole : List Char} (hw : IsWhole whole) (cs : List Char) :
    scalar (d.signed (whole ++ cs)) = number d.negative (whole ++ cs) := by
  cases whole with
  | nil => exact absurd rfl hw.ne_nil
  | cons c whole =>
    have hc := hw.isDigit c List.mem_cons_self
    unfold Decimal.signed
    cases d.negative with
    | false => exact scalar_of_isDigit hc _
    | true => exact scalar_minus hc _

theorem Closes.exponent?_eq_none {rest : List Char} (h : Closes rest) : exponent? rest = none := by
  refine exponent?_of_ne fun c hc => ?_
  rcases h c hc with rfl | rfl <;> decide

/-- The text of a finite double in a document reads back as the double. -/
theorem scalar_numberText {x : Float} (hx : Binary.isFinite x = true) {rest : List Char}
    (hrest : Closes rest) : scalar ((numberText x).toList ++ rest) = some (.float x, rest) := by
  obtain ⟨d, hd, hneg, hbits⟩ := Decimal.ofFloat?_of_isFinite hx
  obtain ⟨whole, frac, e, htext, hfrac, hstands⟩ :=
    d.pointed_eq (Decimal.exponent_of_ofFloat? hd)
  have hnumber : number d.negative (joined whole frac ++ (Decimal.exponentPart e ++ rest)) =
      some (.float (Decimal.ofParts d.negative whole frac (e.getD 0)).toFloat, rest) := by
    cases e with
    | some e =>
      refine number_of_exponent hstands.isWhole hstands.isDigit ⟨.cons rfl _, ?_⟩
        (exponent?_exponentText e hrest.noDigit)
      rintro _ ⟨⟩
      decide
    | none =>
      exact number_of_fraction hstands.isWhole hstands.isDigit (hfrac rfl) hrest.endsParts
        hrest.exponent?_eq_none
  have hread : (numberText x).toList ++ rest =
      d.signed (joined whole frac ++ (Decimal.exponentPart e ++ rest)) := by
    simp only [numberText, writeNumber, hd, htext, String.toList_ofList, Decimal.signed]
    split <;> simp
  obtain ⟨cs, hcs⟩ : ∃ cs, joined whole frac ++ (Decimal.exponentPart e ++ rest) = whole ++ cs := by
    unfold joined
    split
    · exact ⟨_, rfl⟩
    · exact ⟨_, List.append_assoc _ _ _⟩
  rw [hread, hcs, scalar_signed d hstands.isWhole, ← hcs, hnumber, Decimal.toFloat,
    hstands.value]
  change some (Json.float (Binary.ofMagnitude d.negative _), rest) = _
  rw [hbits, hneg, Binary.ofMagnitude_magnitudeBits]

/-- The text of a whole number in a document reads back as the number, unless it has too
many digits. -/
theorem scalar_toString {n : Int} (hn : Decimal.width n.natAbs ≤ maxDigits) {rest : List Char}
    (hrest : Closes rest) : scalar ((toString n).toList ++ rest) = some (.int n, rest) := by
  have hw := Decimal.isWhole_toDigits n.natAbs
  have htext : (toString n).toList ++ rest =
      Decimal.signed ⟨decide (n < 0), 0, 0⟩ (Nat.toDigits 10 n.natAbs ++ rest) := by
    rw [Int.toString_eq_repr, Int.repr_eq_if]
    by_cases h : n < 0
    · rw [if_neg (by omega), show (-n).toNat = n.natAbs by omega]
      simp [Decimal.signed, h]
    · rw [if_pos (by omega), show n.toNat = n.natAbs by omega]
      simp [Decimal.signed, h]
  rw [htext, scalar_signed _ hw]
  refine (number_of_whole hw hn hrest.endsParts hrest.exponent?_eq_none).trans ?_
  rw [Nat.ofDigitChars_ten_toDigits]
  congr 3
  by_cases h : n < 0
  · rw [if_pos (decide_eq_true h)]
    omega
  · rw [if_neg (by simpa using h)]
    omega

end Json.Reader

namespace Json

section Characters

variable {c : Char} (hdigit : c.isDigit = false) (hmark : c ∉ ['-', '+', '.', 'e'])
include hdigit hmark

theorem not_mem_toString (n : Int) : c ∉ (toString n).toList := by
  have hdigits := fun n => Decimal.not_mem_of_isDigit (Decimal.isWhole_toDigits n).isDigit hdigit
  simp only [List.mem_cons, not_or] at hmark
  rw [Int.toString_eq_repr, Int.repr_eq_if]
  split <;> simp [hdigits, hmark.1]

theorem not_mem_numberText {x : Float} (hx : Binary.isFinite x = true) :
    c ∉ (numberText x).toList := by
  obtain ⟨d, hd, -⟩ := Decimal.ofFloat?_of_isFinite hx
  obtain ⟨whole, frac, e, htext, -, hstands⟩ := d.pointed_eq (Decimal.exponent_of_ofFloat? hd)
  have hwhole := Decimal.not_mem_of_isDigit hstands.isWhole.isDigit hdigit
  have hfrac := Decimal.not_mem_of_isDigit hstands.isDigit hdigit
  have hzero : c ≠ '0' := fun h => by rw [h] at hdigit; cases hdigit
  simp only [List.mem_cons, not_or] at hmark
  obtain ⟨hminus, hplus, hpoint, hmarker, -⟩ := hmark
  have hjoined : c ∉ Decimal.joined whole frac := by
    unfold Decimal.joined
    split <;> simp [hwhole, hfrac, hpoint]
  have hexponent : c ∉ Decimal.exponentPart e := by
    cases e with
    | none => exact nofun
    | some e =>
      have hdigits := Decimal.not_mem_of_isDigit (Decimal.isWhole_toDigits e.natAbs).isDigit hdigit
      unfold Decimal.exponentPart Decimal.exponentText
      dsimp only
      split <;> split <;> simp [hdigits, hmarker, hminus, hplus, hzero]
  simp only [numberText, writeNumber, hd, htext, String.toList_ofList, Decimal.signed]
  split <;> simp [hjoined, hexponent, hminus]

end Characters

end Json
end Scriptling
