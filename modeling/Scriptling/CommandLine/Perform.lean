import Scriptling.CommandLine.Options
import Scriptling.CommandLine.Path
import Scriptling.Eval.Program
import Scriptling.Json.Printer
import Scriptling.Json.Reader
import Scriptling.Text.Lines
import Scriptling.Tree.Document

/-!
# What the command line does

The tool lists the tokens of a script, stores its tree, runs a stored tree or
runs a script. Each of these is a function of the options, of the text of one
file and of the standard input; the caller reads the file and writes what is
to be written.
-/
namespace Scriptling.CommandLine

/-- How the tool ends. -/
inductive Ending where
  | exit (code : Nat)
  /-- A fault of a tree, which the tool does not handle. -/
  | fault (f : Fault)
  /-- A tree document with a number that is too large, which the tool does not
  handle either. -/
  | document (e : DocumentError)
  /-- A tree document nested more deeply than the tool can read, which it does not
  handle either. -/
  | nestedTooDeep
  /-- A tree with half a surrogate pair in its document. How it runs is not followed:
  the tool does not handle such a half when it has to write it down. -/
  | loneSurrogate
  /-- A file of this name that cannot be read as a text. -/
  | unreadable (file : String)
  /-- A run that has used up its steps. -/
  | endless

/-- What the tool leaves behind. -/
structure Outcome where
  ending : Ending
  stdout : String
  stderr : String
  /-- The files written, with their texts. -/
  files : List (String × String)

/-- The file that is read. -/
inductive Task where
  | listTokens (file : String)
  | storeTree (file : String)
  | runTree (file : String)
  | runScript (file : String)
deriving DecidableEq, Repr

namespace Task

/-- The task that options ask for. An empty name is none. -/
def ofOptions? (o : Options) : Option Task :=
  let given (name : Option String) : Option String := name.filter (!·.isEmpty)
  (given o.tokens).map .listTokens <|> (given o.emit).map .storeTree <|>
    (given o.tree).map .runTree <|> (given o.script).map .runScript

def file : Task → String
  | .listTokens f | .storeTree f | .runTree f | .runScript f => Path.normalize f

end Task

/-- Ends with a line on the standard error output. -/
def refuse (stdout message : String) : Outcome :=
  ⟨.exit 1, stdout, message ++ "\n", []⟩

/-- The line that a token is listed in. -/
def tokenLine (t : Token) : String :=
  toString t.position.line ++ ":" ++ toString t.position.column ++ "\t" ++ t.symbol.type ++ "\t" ++
    t.symbol.render ++ "\n"

/-- Lists the tokens of a script up to the first error. -/
def listTokens (text : String) : Outcome :=
  let stream := tokenize text
  let lines := (stream.tokens.filter fun t => !t.symbol.isFinish).map tokenLine
  match stream.failure with
  | none => ⟨.exit 0, String.join lines, "", []⟩
  | some e => refuse (String.join lines) e.text

/-- Reads a script and goes on with its tree. -/
def withScript (frontEnd : Option FrontEnd) (text : String) (next : Node → Outcome) : Outcome :=
  match frontEnd with
  | none => ⟨.fault (.notAName Options.emptyKind), "", "", []⟩
  | some f =>
    match f.parse text with
    | .error e => refuse "" e.text
    | .ok tree => next tree

/-- Stores the tree of a script beside it. -/
def storeTree (file : String) (tree : Node) : Outcome :=
  let document := tree.toDocument
  if Json.maxNesting < document.nesting then ⟨.fault .treeTooHigh, "", "", []⟩
  else
    let target := file ++ ".ast.json"
    ⟨.exit 0, target ++ "\n", "", [(target, document.print)]⟩

/-- The file that a trace is written to. -/
def traceFile : String := "debug.txt"

/-- Runs a tree with the lines of the standard input. -/
def runTree (settings : Settings) (tree : Node) (stdin : String) : Outcome :=
  let outcome (ending : Ending) (stderr : String) (s : State) : Outcome :=
    ⟨ending, s.text, stderr, (s.trace.text?.map (traceFile, ·)).toList⟩
  match runProgram settings tree (.initial (.ofText (Lines.normalize stdin))) with
  | .ok _ s => outcome (.exit 0) "" s
  | .error (.failure (.error e)) s => outcome (.exit 1) (e.text ++ "\n") s
  | .error (.failure (.fault f)) s => outcome (.fault f) "" s
  | .error _ s => outcome .endless "" s

/-- Runs a tree that is stored in a document. -/
def runDocument (settings : Settings) (file text stdin : String) : Outcome :=
  let invalid (message : String) : Outcome :=
    refuse "" ("Error: invalid AST file " ++ file ++ ": " ++ message)
  match Json.read Json.maxNesting text with
  | .error .malformed => invalid "<json syntax error>"
  | .error .nestedTooDeep => ⟨.nestedTooDeep, "", "", []⟩
  | .ok j =>
    match Node.ofDocument j with
    | .ok tree =>
      if Json.hasLoneSurrogate text then ⟨.loneSurrogate, "", "", []⟩
      else runTree settings tree stdin
    | .error .numberTooLarge => ⟨.document .numberTooLarge, "", "", []⟩
    | .error e => invalid e.message

/-- What stands behind the name of a file. -/
inductive Found where
  | missing
  /-- Something that is no text, such as a directory. -/
  | unreadable
  | text (content : String)
deriving DecidableEq, Repr

namespace Found

def isText : Found → Bool
  | .text _ => true
  | _ => false

end Found

/-- Performs a task, given what stands behind the name of its file. -/
def perform (o : Options) (task : Task) (found : Found) (stdin : String) : Outcome :=
  match found with
  | .missing => refuse "" ("Error: file " ++ task.file ++ " not found")
  | .unreadable => ⟨.unreadable task.file, "", "", []⟩
  | .text content =>
    let text := Lines.normalize content
    let settings : Settings := ⟨o.verbosity, o.limit⟩
    match task with
    | .listTokens _ => listTokens text
    | .storeTree _ => withScript o.frontEnd text (storeTree task.file)
    | .runTree _ => runDocument settings task.file text stdin
    | .runScript _ => withScript o.frontEnd text fun tree => runTree settings tree stdin

/-- How the tool is called. -/
def usage : String :=
  "usage: [-h] [-v] [--parser descent|grammar] [--max-iterations N] " ++
    "[--emit-ast FILE | --ast FILE | --tokens FILE] [script]\n"

/-- The task that a command line asks for, or the end that it leads to at once. -/
def plan (arguments : List String) : Except Outcome (Options × Task) :=
  match Request.ofCommandLine arguments with
  | .help => .error ⟨.exit 0, usage, "", []⟩
  | .misuse => .error ⟨.exit 2, "", "", []⟩
  | .perform o =>
    match Task.ofOptions? o with
    | some task => .ok (o, task)
    | none => .error ⟨.exit 2, "", "", []⟩

end Scriptling.CommandLine
