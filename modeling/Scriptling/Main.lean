import Scriptling.CommandLine.Perform

/-!
# The command line tool

Reads the file that the command line asks for and the standard input, and
writes what the tool leaves behind.
-/
namespace Scriptling.CommandLine

/-- Looks a file up and reads it. -/
def findFile (name : String) : IO Found := do
  try
    return .text (← IO.FS.readFile name)
  catch
    | .noFileOrDirectory .. => return .missing
    | _ => return .unreadable

/-- What is said of an end that is no exit. -/
def Ending.report : Ending → String
  | .exit 2 => usage
  | .exit _ => ""
  | .fault _ => "Error: the tree cannot be run\n"
  | .document e => "Error: " ++ e.message ++ "\n"
  | .nestedTooDeep => "Error: the document is nested too deeply\n"
  | .loneSurrogate => "Error: the document has half a surrogate pair in it\n"
  | .unreadable file => "Error: file " ++ file ++ " cannot be read\n"
  | .endless => "Error: the run does not end\n"

def Ending.code : Ending → Nat
  | .exit n => n
  | _ => 1

/-- Whether a task runs a program, which may read the standard input. -/
def Task.isRun : Task → Bool
  | .runTree _ | .runScript _ => true
  | _ => false

/-- Carries out an outcome and yields the exit code. -/
def Outcome.carryOut (o : Outcome) : IO UInt32 := do
  for (name, text) in o.files do
    IO.FS.writeFile name text
  IO.print o.stdout
  IO.eprint (o.stderr ++ o.ending.report)
  return o.ending.code.toUInt32

end Scriptling.CommandLine

open Scriptling.CommandLine in
def main (arguments : List String) : IO UInt32 := do
  match plan arguments with
  | .error outcome => outcome.carryOut
  | .ok (options, task) =>
    let found ← findFile task.file
    let stdin ← if task.isRun && found.isText then (← IO.getStdin).readToEnd else pure ""
    (perform options task found stdin).carryOut
