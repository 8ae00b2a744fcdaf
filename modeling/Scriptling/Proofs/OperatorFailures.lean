import Scriptling.Eval.Operator
import Scriptling.Proofs.Rounding

/-!
# What operators cannot do

An operator gives a value or meets an evaluation error, whatever its operands are. There is
one exception: an infinity has no remainder, unless the divisor is a zero, which is an
error, or is not a number, which is the remainder.
-/
namespace Scriptling

namespace Binary

theorem parts_of_isNotANumber {x : Float} (h : isNotANumber x = true) :
    parts x = .notANumber := by
  have hx : x.toBits.toNat < 2 ^ 64 := x.toBits.toNat_lt
  rw [isNotANumber, decide_eq_true_eq, magnitudeBits, infinityBits_eq, Nat.pow_eq] at h
  unfold parts partsOfBits
  simp only [Nat.pow_eq]
  rw [if_pos (by omega), if_neg (by omega)]

theorem parts_of_isInfinite {x : Float} (h : isInfinite x = true) :
    parts x = .infinite (isNegative x) := by
  have hx : x.toBits.toNat < 2 ^ 64 := x.toBits.toNat_lt
  rw [isInfinite, decide_eq_true_eq, magnitudeBits, infinityBits_eq, Nat.pow_eq] at h
  unfold parts partsOfBits isNegative
  simp only [Nat.pow_eq]
  rw [if_pos (by omega), if_pos (by omega)]

/-- A double that is no infinity is finite or not a number. -/
theorem isFinite_of_not {x : Float} (hn : isNotANumber x = false) (hi : isInfinite x = false) :
    isFinite x = true := by
  simp only [isNotANumber, isInfinite, isFinite, decide_eq_false_iff_not, decide_eq_true_eq] at *
  omega

theorem isNotANumber_of_isInfinite {x : Float} (h : isInfinite x = true) :
    isNotANumber x = false := by
  simp only [isNotANumber, isInfinite, decide_eq_false_iff_not, decide_eq_true_eq] at *
  omega

/-- Only the zeros have no significand. -/
theorem significand_ne_zero {y : Float} {negative : Bool} {m : Nat} {e : Int}
    (h : parts y = .finite negative m e) (hy : (y == 0.0) = false) : m ≠ 0 := by
  rintro rfl
  have hc := canonical_of_parts h
  have he : e = leastExponent := by
    rcases hc.normal_or_least with hm | he
    · omega
    · exact he
  have hbits : magnitudeBits y = 0 := by
    have := hc.bits_eq
    rwa [he, Int.sub_self, Int.toNat_zero, Nat.zero_mul] at this
  have hzero : ∀ b, (ofMagnitude b 0 == 0.0) = true := by decide
  rw [← ofMagnitude_magnitudeBits y, hbits, hzero] at hy
  cases hy

/-- The numbers that have a remainder by a number other than zero. -/
theorem remainder?_eq_none_iff {x y : Float} (hy : (y == 0.0) = false) :
    remainder? x y = none ↔ isInfinite x = true ∧ isNotANumber y = false := by
  unfold remainder?
  cases hx : isNotANumber x with
  | true =>
    have hxi : isInfinite x ≠ true := fun h => by
      rw [isNotANumber_of_isInfinite h] at hx
      cases hx
    rw [parts_of_isNotANumber hx]
    simp [hxi]
  | false =>
    cases hyn : isNotANumber y with
    | true =>
      rw [parts_of_isNotANumber hyn]
      cases parts x <;> simp
    | false =>
      cases hxi : isInfinite x with
      | true =>
        rw [parts_of_isInfinite hxi]
        cases hyi : isInfinite y with
        | true => simp [parts_of_isInfinite hyi]
        | false =>
          obtain ⟨m, e, hp⟩ := exists_parts_of_isFinite (isFinite_of_not hyn hyi)
          simp [hp]
      | false =>
        obtain ⟨a, e, hxp⟩ := exists_parts_of_isFinite (isFinite_of_not hx hxi)
        rw [hxp]
        cases hyi : isInfinite y with
        | true => simp [parts_of_isInfinite hyi]
        | false =>
          obtain ⟨b, e', hyp⟩ := exists_parts_of_isFinite (isFinite_of_not hyn hyi)
          simp [hyp, significand_ne_zero hyp hy]

end Binary

/-- Whether an operator has given a value that programs compute with or has met a type
error or a division by zero. These are evaluation errors, and have no place yet. -/
inductive Answered : Except Failure Value → Prop where
  | value {v : Value} : v.IsOrdinary → Answered (.ok v)
  | operandType {c : Cause} : c.family = .operandType → Answered (.error (.ofCause c))
  | divisionByZero {c : Cause} : c.family = .divisionByZero → Answered (.error (.ofCause c))

namespace Answered

theorem number (x : Float) : Answered (.ok (.number x)) := .value (.inl rfl)

theorem string (s : String) : Answered (.ok (.string s)) := .value (.inr (.inl rfl))

theorem bool (b : Bool) : Answered (.ok (.bool b)) := .value (.inr (.inr rfl))

end Answered

/-- Whether two values have no remainder although nothing is wrong with the divisor. -/
def Value.LackRemainder : Value → Value → Prop
  | .number x, .number y =>
    (Binary.isInfinite x = true ∧ Binary.isNotANumber y = false) ∧ (y == 0.0) = false
  | _, _ => False

theorem Value.LackRemainder.exists_numbers {a b : Value} (h : a.LackRemainder b) :
    ∃ x y, a = .number x ∧ b = .number y := by
  cases a <;> cases b <;> first | exact ⟨_, _, rfl, rfl⟩ | cases h

namespace BinaryOperator

theorem ofSymbol?_eq_some_iff {text : String} {op : BinaryOperator} :
    ofSymbol? text = some op ↔ text = op.symbol := by
  refine ⟨fun h => ?_, fun h => h ▸ ofSymbol?_symbol op⟩
  rw [ofSymbol?] at h
  exact (of_decide_eq_true (List.find?_some h :)).symm

theorem answered_mismatch (op : BinaryOperator) (a b : Value) :
    Answered (.error (op.mismatch a b)) :=
  .operandType rfl

theorem modulo_of_lackRemainder {x y : Float}
    (h : Value.LackRemainder (.number x) (.number y)) :
    modulo.ofNumbers x y = .error (.fault .infiniteDividend) := by
  obtain ⟨hx, hy⟩ := h
  simp only [ofNumbers, hy, (Binary.remainder?_eq_none_iff hy).2 hx]
  rfl

/-- A remainder is given or is an error, unless there is none. -/
theorem answered_modulo (x y : Float) :
    Answered (modulo.ofNumbers x y) ↔ ¬ Value.LackRemainder (.number x) (.number y) := by
  refine ⟨fun h hlack => ?_, fun h => ?_⟩
  · rw [modulo_of_lackRemainder hlack] at h
    cases h
  · unfold ofNumbers
    cases hy : y == 0.0 with
    | true => exact .divisionByZero rfl
    | false =>
      cases hr : remainder? x y with
      | none => exact absurd ⟨(Binary.remainder?_eq_none_iff hy).1 hr, hy⟩ h
      | some r => exact .number r

/-- Any other operator answers all pairs of numbers. -/
theorem answered_ofNumbers {op : BinaryOperator} (h : op ≠ .modulo) (x y : Float) :
    Answered (op.ofNumbers x y) := by
  cases op with
  | modulo => exact absurd rfl h
  | divide =>
    dsimp only [ofNumbers]
    split
    · exact .divisionByZero rfl
    · exact .number _
  | power =>
    unfold ofNumbers
    cases power? x y with
    | none => exact .divisionByZero rfl
    | some r => exact .number r
  | add | subtract | multiply => exact .number _
  | less | lessEqual | greater | greaterEqual => exact .bool _
  | equal | notEqual | both | either => exact answered_mismatch _ _ _

theorem answered_apply (op : BinaryOperator) (a b : Value) :
    Answered (op.apply a b) ↔ ¬ (op = .modulo ∧ a.LackRemainder b) := by
  unfold apply
  split
  · exact iff_of_true (.bool _) nofun
  · exact iff_of_true (.bool _) nofun
  · exact iff_of_true (.bool _) nofun
  · exact iff_of_true (.bool _) nofun
  · exact iff_of_true (.string _) nofun
  · exact iff_of_true (.string _) nofun
  · exact iff_of_true (.string _) nofun
  · rename_i x y _ _
    by_cases hop : op = .modulo
    · subst hop
      simpa using answered_modulo x y
    · exact iff_of_true (answered_ofNumbers hop x y) fun h => hop h.1
  · rename_i hnumbers _ _ _ _ _
    refine iff_of_true (answered_mismatch op a b) fun ⟨_, h⟩ => ?_
    obtain ⟨x, y, ha, hb⟩ := h.exists_numbers
    exact hnumbers x y ha hb

end BinaryOperator

/-- A binary operator answers all operands, unless it asks for the remainder of an infinity. -/
theorem answered_applyBinary (op : String) (a b : Value) :
    Answered (applyBinary op a b) ↔ ¬ (op = "%" ∧ a.LackRemainder b) := by
  unfold applyBinary
  cases h : BinaryOperator.ofSymbol? op with
  | none =>
    refine iff_of_true (.operandType rfl) ?_
    rintro ⟨rfl, -⟩
    cases h
  | some o =>
    rw [BinaryOperator.ofSymbol?_eq_some_iff] at h
    subst h
    have hmodulo : o.symbol = "%" ↔ o = .modulo := by cases o <;> decide
    rw [hmodulo]
    exact o.answered_apply a b

theorem applyBinary_of_lackRemainder {a b : Value} (h : a.LackRemainder b) :
    applyBinary "%" a b = .error (.fault .infiniteDividend) := by
  obtain ⟨x, y, rfl, rfl⟩ := h.exists_numbers
  exact BinaryOperator.modulo_of_lackRemainder h

theorem answered_applyUnary (op : String) (a : Value) : Answered (applyUnary op a) := by
  unfold applyUnary
  cases UnaryOperator.ofSymbol? op with
  | none => exact .operandType rfl
  | some o =>
    dsimp only [UnaryOperator.apply]
    split
    · exact .number _
    · exact .bool _
    · exact .operandType rfl

end Scriptling
