import Scriptling.Eval.Env
import Scriptling.Eval.Limit
import Scriptling.Eval.Trace
import Scriptling.Fault
import Scriptling.Text.Lines

/-!
# States of a run

A run changes the table of variables, takes lines of input, adds lines of
output, counts the iterations of all loops together and keeps its trace. It
ends early with a failure, with a `break` on its way to its loop, or because
one of its bounds is reached.
-/
namespace Scriptling

structure State extends Buffer where
  env : Env
  iterations : Nat
  trace : Trace

namespace State

/-- The state before the first run. -/
def initial (buffer : Buffer) : State :=
  { buffer with env := .empty, iterations := 0, trace := .none }

end State

/-- Why an execution does not go on. -/
inductive Stop where
  | failure (f : Failure)
  /-- A `break` on its way to the loop around it. -/
  | leaving
  /-- The tree is nested too deeply. -/
  | tooDeep
  /-- A loop has used up the steps that it was given. -/
  | outOfSteps

/-- How a run is bounded and traced. -/
structure Settings where
  /-- Events up to this level are traced. -/
  level : Nat
  /-- The number of loop iterations that are allowed. -/
  limit : Limit

abbrev Run (α : Type) := EStateM Stop State α

namespace Run

/-- Ends an execution by an error without a place. -/
def fail {α : Type} (c : Cause) : Run α :=
  throw (.failure (.ofCause c))

def fault {α : Type} (f : Fault) : Run α :=
  throw (.failure (.fault f))

/-- The value of a computation that may fail. -/
def ofExcept {α : Type} : Except Failure α → Run α
  | .ok a => pure a
  | .error f => throw (.failure f)

/-- Records an event if its level is asked for. -/
def record (settings : Settings) (e : Event) : Run Unit :=
  if e.level ≤ settings.level then modify fun s => { s with trace := s.trace.add e } else pure ()

def write (line : String) : Run Unit :=
  modify fun s => { s with output := s.output.push line }

/-- Takes the next line of input. -/
def readLine? : Run (Option String) := do
  match (← get).pending with
  | [] => return none
  | line :: rest =>
    modify fun s => { s with pending := rest }
    return some line

/-- The variable that a tree names. -/
def variableOf (name : Json) : Run String :=
  match name.variableName? with
  | some x => return x
  | none => fault (.notAName name.kind)

def setVariable (name : Json) (value : Value) : Run Unit := do
  let x ← variableOf name
  modify fun s => { s with env := s.env.set x value }

/-- The value of a variable, which has to have one. -/
def lookup (name : Json) (mark : Mark) : Run Value := do
  let x ← variableOf name
  match (← get).env.get? x with
  | some v => return v
  | none => throw (.failure (.error ⟨.undefinedVariable x, mark⟩))

/-- Counts an iteration and checks the limit. -/
def countIteration (settings : Settings) : Run Unit := do
  modify fun s => { s with iterations := s.iterations + 1 }
  match settings.limit with
  | .unlimited => pure ()
  | .atMost n => if n < (← get).iterations then fail (.iterationLimit n)
  | .unusable kind => fault (.notALimit kind)

/-- Gives an error that has no place the one of a statement. -/
def placing {α : Type} (mark : Mark) (action : Run α) : Run α := fun s =>
  match action s with
  | .error (.failure (.error e)) s => .error (.failure (.error (e.placedAt mark))) s
  | r => r

/-- Runs the body of a loop and tells whether a `break` left it. -/
def leaves (body : Run Unit) : Run Bool := fun s =>
  match body s with
  | .ok _ s => .ok false s
  | .error .leaving s => .ok true s
  | .error e s => .error e s

/-- Repeats a body while a test holds and no `break` leaves it, up to the given
number of times. -/
def repeatWhile (test : Run Bool) (body : Run Unit) : Nat → Run Unit
  | 0 => throw .outOfSteps
  | steps + 1 => do
    if ← test then
      if ← leaves body then pure () else repeatWhile test body steps
    else pure ()

end Run
end Scriptling
