import Scriptling.ShiftReduce.Machine
import Scriptling.ShiftReduce.Scanner

/-!
# Programs by shifting and reducing

The machine reads the whole text first, so the first lexeme that cannot stand
where it does is reported before anything else. The tree of a program that could
be read is then walked from left to right, up to a place that is too deep or a
number that is out of range. At last a `break` is refused that has no loop
around it.
-/
namespace Scriptling.ShiftReduce

/-- The error of a lexeme that cannot stand where it does. -/
def unexpectedLexeme (expected : Expected) (l : Lexeme) : Error :=
  .located (.unexpectedToken expected.text ((Terminal.ofLexeme l).name ++ " " ++ quote l.text))
    l.position

/-- The error of a text that ends too early. It is placed at its last lexeme. -/
def unexpectedFinish (expected : Expected) (last : Option Lexeme) : Error :=
  ⟨.unexpectedEnd expected.text, (last.map fun l => Mark.of l.position).getD .unknown⟩

/-- Reads lexemes up to the first that cannot stand where it does. -/
def feed (m : Machine) : List Lexeme → Except Error Machine
  | [] => .ok m
  | l :: rest =>
    match m.step (.ofLexeme l) with
    | .ok m => feed m rest
    | .error expected => .error (unexpectedLexeme expected l)

/-- How many levels a tree may have. -/
def maxHeight : Nat := 492

/-- Checks a program that has been read. -/
def check (g : Grown) : Except Error Node :=
  if maxHeight < g.height then .error (.unplaced .nestedText)
  else
    match g.overflow with
    | some p => .error (.located .numberOutOfRange p)
    | none =>
      match g.node with
      | .program body =>
        match Node.checkAllBreaks false body with
        | .error (.error e) => .error e
        | _ => .ok g.node
      | _ => .ok g.node

/-- Reads the program of a scanned text. -/
def parseScan (scan : Scan) : Except Error Node := do
  let m ← feed .start scan.lexemes
  match scan.error? with
  | some e => .error e
  | none =>
    match m.finish with
    | .error expected => .error (unexpectedFinish expected scan.lexemes.getLast?)
    | .ok g => check g

/-- Reads a program text. -/
def parse (text : String) : Except Error Node :=
  parseScan (scan text.toList)

end Scriptling.ShiftReduce
