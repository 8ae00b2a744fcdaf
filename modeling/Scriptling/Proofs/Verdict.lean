import Scriptling.Descent.Expression
import Scriptling.ShiftReduce.Machine

/-!
# The verdict on a stream of tokens

The machine is driven here by tokens instead of lexemes. Where it cannot go on,
the error says what was wanted at that place, and a `break` with no loop around
it is refused as soon as it is read. The verdict on a stream is what the machine
makes of it: a program, or the first error.
-/
namespace Scriptling.ShiftReduce

namespace Terminal

/-- The terminal that a keyword, an operator or a bracket is. -/
def ofMark? (text : String) : Option Terminal :=
  (ofText? text).filter fun t => t != .truth && t != .falsity

theorem text?_of_ofText? {text : String} {t : Terminal} (h : ofText? text = some t) :
    t.text? = some text := by
  simpa using List.find?_some h

theorem ofText?_of_text? {text : String} {t : Terminal} (h : t.text? = some text) :
    ofText? text = some t := by
  cases t <;> simp only [text?, Option.some.injEq, reduceCtorEq] at h <;> subst h <;> decide

/-- How strongly an operator binds that stands between two operands. -/
def binding? (t : Terminal) : Option Nat :=
  if t = .caret then some 6 else t.strength?

end Terminal

namespace Occurrence

/-- What a token is to the machine. A mark that is no terminal is nothing to it,
and neither is the end. -/
def ofToken? (t : Token) : Option Occurrence :=
  match t.symbol with
  | .number x => some ⟨.number, "", t.position, some (.leaf (.number x))⟩
  | .string s => some ⟨.string, "", t.position, some (.leaf (.string s))⟩
  | .ident name =>
    some ⟨.ident, name, t.position, some (.leaf (.ident (.str name) (.of t.position)))⟩
  | .bool true => some ⟨.truth, "true", t.position, some (.leaf (.bool true))⟩
  | .bool false => some ⟨.falsity, "false", t.position, some (.leaf (.bool false))⟩
  | .mark text => (Terminal.ofMark? text).map fun terminal => ⟨terminal, text, t.position, none⟩
  | .finish => none

end Occurrence

namespace Opening

/-- Whether a block is the body of a loop. -/
def isBody : Opening → Bool
  | .body .. => true
  | _ => false

end Opening

/-- Whether a loop is around a place with the given blocks open. -/
def looped (blocks : List (Opening × List Grown)) : Bool :=
  blocks.any fun block => block.1.isBody

namespace Machine

/-- Whether a loop is around the place where the machine is. -/
def inLoop (m : Machine) : Bool := looped m.blocks

/-- What is wanted where a token cannot be read. -/
def wanted (m : Machine) (t : Token) : String :=
  let next := if t.symbol.isFinish && m.inBlock then quote "\x7d" else "expression"
  match m.control with
  | .boundary _ | .afterThen .. => next
  | .beforeParen _ => quote "("
  | .beforeName _ => "identifier after input"
  | .beforeBrace _ => quote "\x7b"
  | .operand .. => "expression"
  | .operator head pending .. => if inParen head pending then quote ")" else next

/-- The machine behind a token, if it can be read. -/
def move (m : Machine) (t : Token) : Option Machine :=
  (Occurrence.ofToken? t).bind fun o => (m.step o).toOption

/-- Reads one token. -/
def read (m : Machine) (t : Token) : Except Error Machine :=
  match m.move t with
  | none => .error (unexpected (m.wanted t) t)
  | some next =>
    if t.symbol.isMark "break" && !m.inLoop then .error (.located .breakOutsideLoop t.position)
    else .ok next

/-- Reads the token that marks the end. -/
def close (m : Machine) (t : Token) : Except Error Grown :=
  match m.finish.toOption with
  | some g => .ok g
  | none => .error (unexpected (m.wanted t) t)

/-- Reads tokens up to the end, or up to where they run out and the given
failure is met. -/
def judge (failure : Option Error) (m : Machine) : List Token → Except Error Grown
  | [] => .error (failure.getD (unexpected (m.wanted .missing) .missing))
  | t :: rest =>
    if t.symbol.isFinish then m.close t
    else
      match m.read t with
      | .ok next => judge failure next rest
      | .error e => .error e

/-- What the machine makes of a stream. -/
def verdict (m : Machine) (s : Stream) : Except Error Grown :=
  m.judge s.failure s.tokens

end Machine
end Scriptling.ShiftReduce
