import Scriptling.Eval.Exec

/-!
# Running programs

A run starts with an empty table of variables and no iterations counted, and
keeps the input that is left and the output that is there. A `break` that no
loop takes and a tree that is nested too deeply end it with an error. Whatever
an error ends, everything done before stays done.
-/
namespace Scriptling

/-- The budget within which a tree is walked. -/
def walkingDepth : Nat := 991

/-- Ends a run: what is no failure of its own becomes an error, and the trace
gets its last event. -/
def conclude (settings : Settings) (body : Run Unit) : Run Unit := fun s =>
  let close (s : State) : State := { s with trace := s.trace.close }
  let last (e : Event) (s : State) : State :=
    close (if e.level ≤ settings.level then { s with trace := s.trace.add e } else s)
  let abort (e : Error) (s : State) : EStateM.Result Stop State Unit :=
    .error (.failure (.error e)) (last (.aborted e) s)
  match body s with
  | .ok _ s => .ok () (last (.finished s.env.size) s)
  | .error (.failure (.error e)) s => abort e s
  | .error .leaving s => abort (.unplaced .strayBreak) s
  | .error .tooDeep s => abort (.unplaced .nestedTree) s
  | .error (.failure (.fault f)) s => .error (.failure (.fault f)) (close s)
  | .error .outOfSteps s => .error .outOfSteps (close s)

/-- Runs a program with the given bounds on its loops and on its depth. -/
def runWithin (settings : Settings) (steps depth : Nat) (program : Node) : Run Unit := do
  modify fun s =>
    { s with
      env := .empty
      iterations := 0
      trace := if 0 < settings.level then s.trace.reopen else s.trace }
  match program with
  | .program body =>
    Run.record settings (.started body.length)
    conclude settings (inOrder (exec settings steps depth) body)
  | .loop _ body _ => Run.fault (.bodyNotList body.kind)
  | node => Run.fault (.notProgram node.kind)

/-- Runs a program. -/
def runProgram (settings : Settings) (program : Node) : Run Unit :=
  runWithin settings settings.limit.steps walkingDepth program

/-- Executes statements in the present state, outside of a run. -/
def execAll (settings : Settings) (statements : List Node) : Run Unit :=
  inOrder (exec settings settings.limit.steps walkingDepth) statements

/-- Executes one statement in the present state. -/
def execOne (settings : Settings) (statement : Node) : Run Unit :=
  exec settings settings.limit.steps walkingDepth statement

/-- Evaluates an expression in the present state. -/
def evalOne (settings : Settings) (expression : Node) : Run Value :=
  eval settings walkingDepth expression

end Scriptling
