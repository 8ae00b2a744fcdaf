import Scriptling.Fault
import Scriptling.Number.Arithmetic
import Scriptling.Value

/-!
# Operators

What operators do with values. Sums join strings as well, and turn a number
beside a string into its text; equality takes any two values; all others ask
for operands of one type.
-/
namespace Scriptling

inductive BinaryOperator where
  | add | subtract | multiply | divide | modulo | power
  | equal | notEqual | less | lessEqual | greater | greaterEqual
  | both | either
deriving DecidableEq, Repr

inductive UnaryOperator where
  | negate | invert
deriving DecidableEq, Repr

namespace BinaryOperator

def symbol : BinaryOperator → String
  | .add => "+"
  | .subtract => "-"
  | .multiply => "*"
  | .divide => "/"
  | .modulo => "%"
  | .power => "^"
  | .equal => "=="
  | .notEqual => "!="
  | .less => "<"
  | .lessEqual => "<="
  | .greater => ">"
  | .greaterEqual => ">="
  | .both => "&&"
  | .either => "||"

def all : List BinaryOperator :=
  [.add, .subtract, .multiply, .divide, .modulo, .power, .equal, .notEqual, .less, .lessEqual,
    .greater, .greaterEqual, .both, .either]

def ofSymbol? (text : String) : Option BinaryOperator :=
  all.find? (·.symbol = text)

theorem ofSymbol?_symbol (op : BinaryOperator) : ofSymbol? op.symbol = some op := by
  cases op <;> decide

/-- The error of operands that an operator does not take. -/
def mismatch (op : BinaryOperator) (a b : Value) : Failure :=
  .ofCause (.operands op.symbol a.typeName b.typeName)

/-- What an operator makes of two numbers. -/
def ofNumbers (op : BinaryOperator) (x y : Float) : Except Failure Value :=
  match op with
  | .add => .ok (.number (x + y))
  | .subtract => .ok (.number (x - y))
  | .multiply => .ok (.number (x * y))
  | .divide => if y == 0.0 then .error (.ofCause .divisionByZero) else .ok (.number (x / y))
  | .modulo =>
    if y == 0.0 then .error (.ofCause .moduloByZero)
    else
      match remainder? x y with
      | some r => .ok (.number r)
      | none => .error (.fault .infiniteDividend)
  | .power =>
    match power? x y with
    | some r => .ok (.number r)
    | none => .error (.ofCause .zeroToNegativePower)
  | .less => .ok (.bool (decide (x < y)))
  | .lessEqual => .ok (.bool (decide (x ≤ y)))
  | .greater => .ok (.bool (decide (y < x)))
  | .greaterEqual => .ok (.bool (decide (y ≤ x)))
  | .equal | .notEqual | .both | .either => .error (op.mismatch (.number x) (.number y))

def apply (op : BinaryOperator) (a b : Value) : Except Failure Value :=
  match op, a, b with
  | .equal, a, b => .ok (.bool (a.same b))
  | .notEqual, a, b => .ok (.bool (!a.same b))
  | .both, .bool p, .bool q => .ok (.bool (p && q))
  | .either, .bool p, .bool q => .ok (.bool (p || q))
  | .add, .string s, .string t => .ok (.string (s ++ t))
  | .add, .string s, .number y => .ok (.string (s ++ formatNumber y))
  | .add, .number x, .string t => .ok (.string (formatNumber x ++ t))
  | op, .number x, .number y => op.ofNumbers x y
  | op, a, b => .error (op.mismatch a b)

end BinaryOperator

namespace UnaryOperator

def symbol : UnaryOperator → String
  | .negate => "-"
  | .invert => "!"

def ofSymbol? (text : String) : Option UnaryOperator :=
  [UnaryOperator.negate, .invert].find? (·.symbol = text)

theorem ofSymbol?_symbol (op : UnaryOperator) : ofSymbol? op.symbol = some op := by
  cases op <;> decide

def apply (op : UnaryOperator) (a : Value) : Except Failure Value :=
  match op, a with
  | .negate, .number x => .ok (.number (-x))
  | .invert, .bool b => .ok (.bool (!b))
  | op, a => .error (.ofCause (.operand op.symbol a.typeName))

end UnaryOperator

/-- Applies the binary operator that a text names. -/
def applyBinary (op : String) (a b : Value) : Except Failure Value :=
  match BinaryOperator.ofSymbol? op with
  | some o => o.apply a b
  | none => .error (.ofCause (.unknownOperator op))

/-- Applies the prefix operator that a text names. -/
def applyUnary (op : String) (a : Value) : Except Failure Value :=
  match UnaryOperator.ofSymbol? op with
  | some o => o.apply a
  | none => .error (.ofCause (.unknownOperator op))

end Scriptling
