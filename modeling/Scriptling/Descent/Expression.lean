import Scriptling.Token.Stream
import Scriptling.Tree.Basic

/-!
# Expressions by recursive descent

Expressions are read level by level, from the loosest operators to the
tightest. The levels of binary operators read a chain of operands of the next
level and group it to the left; `^` groups to the right and takes a signed
exponent; the value of an assignment inside an expression reaches as far as an
expression can.

Every rule that is entered takes one unit of a budget, so that a text nested
too deeply is refused.
-/
namespace Scriptling.Descent

/-- Reads something off a stream or meets an error. -/
abbrev Reading (α : Type) := StateT Stream (Except Error) α

/-- The next token, which is not taken. -/
def peek : Reading Token := do
  let s ← (← get).extend 1
  set s
  return s.head

/-- The token behind the next one. -/
def peekSecond : Reading Token := do
  let s ← (← get).extend 2
  set s
  return s.tail.head

/-- Takes the next token, unless it is the end. -/
def advance : Reading Unit :=
  modify Stream.tail

/-- Takes the given keyword or operator. -/
def consume (text : String) : Reading Token := do
  let t ← peek
  if t.symbol.isMark text then
    advance
    return t
  else throw (unexpected (quote text) t)

/-- The error of a text that is nested too deeply. -/
def tooDeep : Error := .unplaced .nestedText

/-- The operator that a token is, if it is one of the given ones. -/
def operator? (ops : List String) (t : Token) : Option String :=
  match t.symbol with
  | .mark text => if ops.contains text then some text else none
  | _ => none

/-- Goes on with a chain of operands after its first part. There are fewer
operators than tokens in the given list, which is only counted off. -/
def chain (ops : List String) (operand : Reading Node) : List Token → Node → Reading Node
  | [], _ => throw tooDeep
  | _ :: more, left => do
    match operator? ops (← peek) with
    | some op =>
      advance
      let right ← operand
      chain ops operand more (.binary (.str op) left right)
    | none => return left

/-- A chain of operands with operators between them, grouped to the left. -/
def leftGrouped (ops : List String) (operand : Reading Node) : Reading Node := do
  let first ← operand
  chain ops operand (Token.missing :: (← get).tokens) first

/-- The levels of expressions, from the loosest to the tightest. -/
inductive Level where
  | expression
  | disjunction
  | conjunction
  | comparison
  | sum
  | product
  | signed
  | power
  | assignment
  | primary
deriving DecidableEq, Repr

/-- The operator with which an assignment combines the variable and the value. -/
def updateOperator? (t : Token) : Option String :=
  match t.symbol with
  | .mark text =>
    if text = "+=" then some "+"
    else if text = "-=" then some "-"
    else if text = "*=" then some "*"
    else if text = "/=" then some "/"
    else if text = "%=" then some "%"
    else none
  | _ => none

/-- Reads an expression of a level within a budget of rules. -/
def expression : Nat → Level → Reading Node
  | 0, _ => throw tooDeep
  | budget + 1, .expression => expression budget .disjunction
  | budget + 1, .disjunction => leftGrouped ["||"] (expression budget .conjunction)
  | budget + 1, .conjunction => leftGrouped ["&&"] (expression budget .comparison)
  | budget + 1, .comparison =>
    leftGrouped ["==", "!=", "<", "<=", ">", ">="] (expression budget .sum)
  | budget + 1, .sum => leftGrouped ["+", "-"] (expression budget .product)
  | budget + 1, .product => leftGrouped ["*", "/", "%"] (expression budget .signed)
  | budget + 1, .signed => do
    match operator? ["-", "!"] (← peek) with
    | some op =>
      advance
      return .unary (.str op) (← expression budget .signed)
    | none => expression budget .power
  | budget + 1, .power => do
    let base ← expression budget .assignment
    match operator? ["^"] (← peek) with
    | some op =>
      advance
      return .binary (.str op) base (← expression budget .signed)
    | none => return base
  | budget + 1, .assignment => do
    let t ← peek
    match t.symbol with
    | .ident name =>
      match updateOperator? (← peekSecond) with
      | some op =>
        advance
        advance
        return .update (.str name) (.str op) (← expression budget .expression) (.of t.position)
      | none => expression budget .primary
    | _ => expression budget .primary
  | budget + 1, .primary => do
    let t ← peek
    match t.symbol with
    | .number x =>
      advance
      return .number x
    | .string s =>
      advance
      return .string s
    | .bool b =>
      advance
      return .bool b
    | .ident name =>
      advance
      return .ident (.str name) (.of t.position)
    | .mark "(" =>
      advance
      let inner ← expression budget .expression
      let _ ← consume ")"
      return inner
    | _ => throw (unexpected "expression" t)

end Scriptling.Descent
