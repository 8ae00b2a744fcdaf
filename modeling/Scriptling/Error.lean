import Scriptling.Json.Display
import Scriptling.Text.Position

/-!
# Errors

Whatever a script does wrong is an error with a cause and, where it is known, a
place. A cause belongs to a family, which fixes the phase in which it arises
and the name that it has by default; its message is written here and nowhere
else.
-/
namespace Scriptling

/-- Where something stands. A tree document may leave out either part or put
anything in its place, so both are kept as the document gives them. -/
structure Mark where
  line : Json
  column : Json

namespace Mark

/-- No place. -/
def unknown : Mark := ⟨.null, .null⟩

/-- A position of a text. -/
def of (p : Position) : Mark := ⟨.int p.line, .int p.column⟩

/-- A place is known as soon as its line is. -/
def isKnown (m : Mark) : Bool := !m.line.isNull

/-- Keeps a place that is known and takes the other one for one that is not. -/
def orElse (m other : Mark) : Mark :=
  if !m.isKnown && other.isKnown then other else m

@[simp] theorem isKnown_of (p : Position) : (of p).isKnown = true := rfl

@[simp] theorem isKnown_unknown : unknown.isKnown = false := rfl

end Mark

/-- What is shown of an error. -/
structure Report where
  phase : String
  name : String
  message : String
  mark : Mark

namespace Report

/-- The title of a phase; a phase of another name is its own title. -/
def title (phase : String) : String :=
  if phase = "lex" then "Lex"
  else if phase = "parse" then "Parse"
  else if phase = "runtime" then "Runtime"
  else phase

/-- The line that an error is reported with. -/
def text (r : Report) : String :=
  title r.phase ++ " error: " ++ r.name ++ ": " ++ r.message ++
    if r.mark.isKnown then " at " ++ r.mark.line.display ++ ":" ++ r.mark.column.display else ""

end Report

/-- The families of errors. The last five are special evaluation errors. -/
inductive Family where
  | general
  | lexical
  | syntactic
  | evaluation
  | undefinedVariable
  | operandType
  | divisionByZero
  | endOfInput
  | iterationLimit
deriving DecidableEq, Repr

namespace Family

/-- The phase in which the errors of a family arise. -/
def phase : Family → String
  | .lexical => "lex"
  | .syntactic => "parse"
  | _ => "runtime"

/-- The name of an error that is given no other. -/
def defaultName : Family → String
  | .general => "Error"
  | .lexical => "UnexpectedCharacter"
  | .syntactic => "UnexpectedToken"
  | .evaluation => "Error"
  | .undefinedVariable => "UndefinedVariable"
  | .operandType => "TypeError"
  | .divisionByZero => "DivisionByZero"
  | .endOfInput => "UnexpectedEndOfInput"
  | .iterationLimit => "IterationLimit"

/-- Whether the errors of a family arise in the evaluation of a program. -/
def isEvaluation : Family → Bool
  | .general | .lexical | .syntactic => false
  | _ => true

/-- The report of an error of a family; an empty name is none. -/
def report (f : Family) (message : String) (mark : Mark) (name : String) : Report :=
  ⟨f.phase, if name.isEmpty then f.defaultName else name, message, mark⟩

end Family

/-- What went wrong. -/
inductive Cause where
  /-- A character that begins no token. -/
  | unexpectedCharacter (c : Char)
  /-- A string without its closing quote. -/
  | unterminatedString
  /-- A number literal that no double is near to. -/
  | numberOutOfRange
  /-- A token where none of its kind may stand. -/
  | unexpectedToken (expected found : String)
  /-- A text that ends too early. -/
  | unexpectedEnd (expected : String)
  /-- A `break` with no loop around it in a program text. -/
  | breakOutsideLoop
  /-- A program text that is nested too deeply. -/
  | nestedText
  /-- A variable without a value. -/
  | undefinedVariable (name : String)
  /-- Operands that an operator does not take. -/
  | operands (op left right : String)
  /-- An operand that a prefix operator does not take. -/
  | operand (op type : String)
  /-- A text that is no operator. -/
  | unknownOperator (op : String)
  /-- A condition that is no truth value. -/
  | condition (construct type : String)
  | divisionByZero
  | moduloByZero
  | zeroToNegativePower
  /-- No line is left for an `input` statement. -/
  | endOfInput (name : String)
  /-- More loop iterations than allowed. -/
  | iterationLimit (limit : Int)
  /-- A `break` that no loop of a tree takes. -/
  | strayBreak
  /-- A tree that is nested too deeply to be run. -/
  | nestedTree
deriving DecidableEq, Repr

namespace Cause

def family : Cause → Family
  | .unexpectedCharacter _ | .unterminatedString | .numberOutOfRange => .lexical
  | .unexpectedToken .. | .unexpectedEnd _ | .breakOutsideLoop | .nestedText => .syntactic
  | .undefinedVariable _ => .undefinedVariable
  | .operands .. | .operand .. | .unknownOperator _ | .condition .. => .operandType
  | .divisionByZero | .moduloByZero | .zeroToNegativePower => .divisionByZero
  | .endOfInput _ => .endOfInput
  | .iterationLimit _ => .iterationLimit
  | .strayBreak | .nestedTree => .evaluation

/-- The name of the kind of error. -/
def name : Cause → String
  | .unterminatedString => "UnterminatedString"
  | .numberOutOfRange => "NumberOutOfRange"
  | .unexpectedEnd _ => "UnexpectedEnd"
  | .breakOutsideLoop | .strayBreak => "BreakOutsideLoop"
  | .nestedText | .nestedTree => "NestingTooDeep"
  | c => c.family.defaultName

def message : Cause → String
  | .unexpectedCharacter c => "unexpected character " ++ quote (String.singleton c)
  | .unterminatedString => "unterminated string literal"
  | .numberOutOfRange => "number literal out of range"
  | .unexpectedToken expected found => "expected " ++ expected ++ ", found " ++ found
  | .unexpectedEnd expected => "expected " ++ expected ++ ", found end of input"
  | .breakOutsideLoop | .strayBreak => "'break' outside of a while loop"
  | .nestedText | .nestedTree => "expression nested too deeply"
  | .undefinedVariable name => "undefined variable " ++ name
  | .operands op left right =>
    "unsupported operand types for " ++ op ++ ": " ++ left ++ " and " ++ right
  | .operand op type =>
    "unsupported operand type for " ++ (if op = "-" then "unary -" else op) ++ ": " ++ type
  | .unknownOperator op => "unknown operator " ++ op
  | .condition construct type => construct ++ " condition must be Bool, got " ++ type
  | .divisionByZero => "division by zero"
  | .moduloByZero => "modulo by zero"
  | .zeroToNegativePower => "zero raised to a negative power"
  | .endOfInput name => "input ended before a line could be read into " ++ name
  | .iterationLimit limit => "more than " ++ toString limit ++ " loop iterations"

/-- Whether an error says that something is nested too deeply. -/
def isNesting : Cause → Bool
  | .nestedText | .nestedTree => true
  | _ => false

end Cause

/-- A cause and the place where it arose. -/
structure Error where
  cause : Cause
  mark : Mark

namespace Error

/-- An error at a position of the text. -/
def located (cause : Cause) (p : Position) : Error := ⟨cause, .of p⟩

/-- An error whose place is not known. -/
def unplaced (cause : Cause) : Error := ⟨cause, .unknown⟩

/-- Places an error that has no place yet. -/
def placedAt (e : Error) (mark : Mark) : Error := { e with mark := e.mark.orElse mark }

def report (e : Error) : Report :=
  ⟨e.cause.family.phase, e.cause.name, e.cause.message, e.mark⟩

def text (e : Error) : String := e.report.text

end Error
end Scriptling
