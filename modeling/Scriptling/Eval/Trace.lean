import Scriptling.Error
import Scriptling.Value

/-!
# Traces

A run can keep an account of what it does. Every event has a level, from the
beginning and end of the run down to single statements, and a run records the
events up to the level that it is asked for.
-/
namespace Scriptling

inductive Event where
  | started (statements : Nat)
  | aborted (error : Error)
  | finished (bound : Nat)
  | printed (text : String)
  | received (name line : String)
  | assigned (name : String) (value : Value)
  | updated (name op : String) (value : Value)
  | tested (construct : String) (value : Value)
  | entered (kind : String) (line : Json)

namespace Event

def level : Event → Nat
  | .started _ | .aborted _ | .finished _ => 1
  | .printed _ | .received .. | .assigned .. | .updated .. => 2
  | .tested .. => 3
  | .entered .. => 4

/-- The line of an event. -/
def text : Event → String
  | .started n => "run: " ++ toString n ++ " top-level statements"
  | .aborted error => "aborted: " ++ error.text
  | .finished n => "finished: " ++ toString n ++ " variables bound"
  | .printed text => "print " ++ quote text
  | .received name line => "input " ++ name ++ " = " ++ quote line
  | .assigned name value =>
    "assign " ++ name ++ ": " ++ value.typeName ++ " = " ++ quote value.display
  | .updated name op value => "assign " ++ name ++ " " ++ op ++ "= -> " ++ quote value.display
  | .tested construct value => construct ++ " condition -> " ++ value.display
  | .entered kind line => "execute " ++ kind ++ " at line " ++ line.display

end Event

/-- The account of the last run. It is open while it can be added to. -/
inductive Trace where
  | none
  | closed (events : Array Event)
  | opened (events : Array Event)

namespace Trace

def events : Trace → Array Event
  | .none => #[]
  | .closed es | .opened es => es

/-- Begins a new account, or goes on with one that is still open. -/
def reopen : Trace → Trace
  | .opened es => .opened es
  | _ => .opened #[]

def close : Trace → Trace
  | .opened es => .closed es
  | t => t

/-- Adds an event to an account that is open. -/
def add (e : Event) : Trace → Trace
  | .opened es => .opened (es.push e)
  | t => t

/-- The text of the account, if there is one. -/
def text? : Trace → Option String
  | .none => Option.none
  | t => some (t.events.foldl (fun s e => s ++ e.text ++ "\n") "")

end Trace
end Scriptling
