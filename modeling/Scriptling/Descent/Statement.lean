import Scriptling.Descent.Expression

/-!
# Programs by recursive descent

A program is a sequence of statements, with semicolons anywhere between them. A
name before `=` begins an assignment; whatever is no other statement is an
expression. A `break` is refused as soon as it is read if no loop is around it.
-/
namespace Scriptling.Descent

/-- Reads statements until one of the closing symbols stands next, which is not
taken. There are fewer statements and semicolons than tokens in the given list,
which is only counted off. -/
def sequence (closes : Symbol → Bool) (statement : Reading Node) :
    List Token → List Node → Reading (List Node)
  | [], _ => throw tooDeep
  | _ :: more, done => do
    let t ← peek
    if closes t.symbol then return done.reverse
    else if t.symbol.isMark ";" then
      advance
      sequence closes statement more done
    else
      let node ← statement
      sequence closes statement more (node :: done)

/-- The rules for statements. -/
inductive Rule where
  | statement
  | branch
  | loop
  | block
deriving DecidableEq, Repr

/-- An expression in parentheses. -/
def condition (budget : Nat) : Reading Node := do
  let _ ← consume "("
  let c ← expression budget .expression
  let _ ← consume ")"
  return c

def printStatement (budget : Nat) : Reading Node := do
  let t ← consume "print"
  return .print (← condition budget) (.of t.position)

def inputStatement : Reading Node := do
  let t ← consume "input"
  let name ← peek
  match name.symbol with
  | .ident x =>
    advance
    return .input (.str x) (.of t.position)
  | _ => throw (unexpected "identifier after input" name)

def breakStatement (inLoop : Bool) : Reading Node := do
  let t ← consume "break"
  if inLoop then return .leave (.of t.position)
  else throw (.located .breakOutsideLoop t.position)

/-- A name before `=` and a value, or else an expression. -/
def plainStatement (budget : Nat) (t : Token) : Reading Node := do
  match t.symbol with
  | .ident name =>
    if (← peekSecond).symbol.isMark "=" then
      advance
      advance
      return .assign (.str name) (← expression budget .expression) (.of t.position)
    else return .evaluate (← expression budget .expression) (.of t.position)
  | _ => return .evaluate (← expression budget .expression) (.of t.position)

/-- Whether a sequence of statements in a block ends before a symbol: at its
brace, or where the text ends without it. -/
def closesBlock (s : Symbol) : Bool :=
  s.isMark "\x7d" || s.isFinish

/-- Reads by a rule within a budget of rules. -/
def statement : Nat → Rule → Bool → Reading Node
  | 0, _, _ => throw tooDeep
  | budget + 1, .statement, inLoop => do
    let t ← peek
    match t.symbol with
    | .mark "print" => printStatement budget
    | .mark "input" => inputStatement
    | .mark "if" => statement budget .branch inLoop
    | .mark "while" => statement budget .loop inLoop
    | .mark "break" => breakStatement inLoop
    | .mark "\x7b" => statement budget .block inLoop
    | _ => plainStatement budget t
  | budget + 1, .branch, inLoop => do
    let t ← consume "if"
    let c ← condition budget
    let thenBlock ← statement budget .block inLoop
    if (← peek).symbol.isMark "else" then
      advance
      let elseBlock ← statement budget .block inLoop
      return .branch c thenBlock elseBlock (.of t.position)
    else return .branch c thenBlock .absent (.of t.position)
  | budget + 1, .loop, _ => do
    let t ← consume "while"
    let c ← condition budget
    let body ← statement budget .block true
    return .loop c body (.of t.position)
  | budget + 1, .block, inLoop => do
    let _ ← consume "\x7b"
    let body ← sequence closesBlock (statement budget .statement inLoop)
      (Token.missing :: (← get).tokens) []
    let _ ← consume "\x7d"
    return .block body

/-- Reads a whole program within a budget of rules. -/
def program (budget : Nat) : Reading Node := do
  let body ← sequence Symbol.isFinish (statement budget .statement false)
    (Token.missing :: (← get).tokens) []
  return .program body

/-- How many rules may be open at a time. -/
def budget : Nat := 987

/-- Reads the program that a stream of tokens holds. -/
def parseStream (s : Stream) : Except Error Node :=
  (program budget).run' s

/-- Reads a program text. -/
def parse (text : String) : Except Error Node :=
  parseStream (tokenize text)

end Scriptling.Descent
