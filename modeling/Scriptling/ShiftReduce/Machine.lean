import Scriptling.ShiftReduce.Terminal
import Scriptling.Tree.Breaks

/-!
# The shift-reduce machine

The machine reads terminals one by one and never looks ahead. It keeps the
blocks that are open, the statement that is being read, and the operators that
wait for their right operand. A binary operator is kept until one that binds
less strongly follows its operand; the value of an assignment inside an
expression takes in all that follows it. What it accepts is what the grammar of
the language derives (`Machine.accepts_iff_derives`).

A number out of range does not stop the machine. It is remembered, and so is how
high the tree grows before it.
-/
namespace Scriptling.ShiftReduce

/-- A tree and what a walk through it from left to right meets. The walk ends at
the first number that is out of range. -/
structure Grown where
  node : Node
  /-- The number of levels that the walk enters. A chain of operators of one
  strength is one level, whatever its length. -/
  height : Nat
  /-- The strength of the chain at the top, zero if there is none. -/
  strength : Nat
  /-- The number that ends the walk. -/
  overflow : Option Position

namespace Grown

def leaf (node : Node) : Grown := ⟨node, 1, 0, none⟩

/-- A number that is out of range. -/
def outOfRange (p : Position) : Grown := ⟨.number 0.0, 1, 0, some p⟩

/-- The levels that a walk through trees side by side enters, and the number
that ends it. -/
def walk : List Grown → Nat × Option Position
  | [] => (0, none)
  | g :: rest =>
    match g.overflow with
    | some p => (g.height, some p)
    | none =>
      let (height, overflow) := walk rest
      (max g.height height, overflow)

/-- A node of its own above some trees, which stand in the order of the text. -/
def above (node : Node) (parts : List Grown) : Grown :=
  let (height, overflow) := walk parts
  ⟨node, height + 1, 0, overflow⟩

/-- Two operands of a chain. If the left one is a chain of the same strength, its
operands are those of the new chain. -/
def chained (op : String) (strength : Nat) (left right : Grown) : Grown :=
  let first := if left.strength = strength then { left with height := left.height - 1 } else left
  { above (.binary (.str op) left.node right.node) [first, right] with strength := strength }

/-- Parentheses end a chain and leave no node. -/
def enclosed (g : Grown) : Grown := { g with strength := 0 }

end Grown

/-- A terminal as it occurs in a text. -/
structure Occurrence where
  terminal : Terminal
  /-- The text of a word or an operator; that of a literal does not matter. -/
  text : String
  position : Position
  /-- The tree of a terminal that is an operand by itself. -/
  operand : Option Grown

namespace Occurrence

/-- The operand that a lexeme is. -/
def operandOf (t : Terminal) (l : Lexeme) : Option Grown :=
  match t, l.piece with
  | .truth, _ => some (.leaf (.bool true))
  | .falsity, _ => some (.leaf (.bool false))
  | .ident, _ => some (.leaf (.ident (.str l.text) (.of l.position)))
  | .string, .string body => some (.leaf (.string (String.ofList body)))
  | .number, .number text =>
    match Lexeme.number? text with
    | some x => some (.leaf (.number x))
    | none => some (.outOfRange l.position)
  | _, _ => none

def ofLexeme (l : Lexeme) : Occurrence :=
  let t := Terminal.ofLexeme l
  let text := if t = .number ∨ t = .string then "" else l.text
  ⟨t, text, l.position, operandOf t l⟩

end Occurrence

/-- An operator, or a parenthesis, that waits for what follows it. -/
inductive Pending where
  | binary (op : String) (strength : Nat) (left : Grown)
  | signed (op : String)
  | power (base : Grown)
  | update (name op : String) (position : Position)
  | paren

/-- The statement that an expression belongs to. -/
inductive Head where
  | print (position : Position)
  | branch (position : Position)
  | loop (position : Position)
  | assign (name : String) (position : Position)
  | evaluate (position : Position)

namespace Head

/-- Whether the statement has an open parenthesis of its own. -/
def isParen : Head → Bool
  | .print _ | .branch _ | .loop _ => true
  | .assign .. | .evaluate _ => false

end Head

/-- What a block that is open belongs to. -/
inductive Opening where
  | bare
  | thenBlock (condition : Grown) (position : Position)
  | elseBlock (condition thenBlock : Grown) (position : Position)
  | body (condition : Grown) (position : Position)

/-- What stands before a place where a statement may begin. -/
inductive Boundary where
  /-- Nothing, or an opening brace. -/
  | start
  /-- A semicolon, or a statement that nothing can extend. -/
  | separator
  /-- A closing brace. -/
  | brace

/-- What an operand ends with. -/
inductive Ended where
  | closed
  | name (x : String) (position : Position)
  /-- The first terminal of a statement. -/
  | firstName (x : String) (position : Position)

/-- What the machine is doing. -/
inductive Control where
  | boundary (b : Boundary)
  /-- A branch is read up to the end of its first block. -/
  | afterThen (condition thenBlock : Grown) (position : Position)
  | beforeParen (head : Head)
  | beforeName (position : Position)
  | beforeBrace (opening : Opening)
  | operand (head : Head) (pending : List Pending)
  | operator (head : Head) (pending : List Pending) (operand : Grown) (ended : Ended)

structure Machine where
  /-- The open blocks from the innermost, with the statements before each one,
  the last one first. -/
  blocks : List (Opening × List Grown)
  /-- The statements of the innermost block, the last one first. -/
  done : List Grown
  control : Control

namespace Machine

def start : Machine := ⟨[], [], .boundary .start⟩

def inBlock (m : Machine) : Bool := !m.blocks.isEmpty

/-- Adds a statement to the innermost block. -/
def push (m : Machine) (statement : Grown) (b : Boundary) : Machine :=
  { m with done := statement :: m.done, control := .boundary b }

/-- What the branch at hand becomes if no second block follows. -/
def branchOf (condition thenBlock : Grown) (elseBlock? : Option Grown) (p : Position) : Grown :=
  .above (.branch condition.node thenBlock.node ((elseBlock?.map (·.node)).getD .absent) (.of p))
    ([condition, thenBlock] ++ elseBlock?.toList)

/-- Combines an operand with the operators that wait for it, from the innermost,
as long as they bind at least as strongly as the given strength. -/
def reduce (strength : Nat) : List Pending → Grown → List Pending × Grown
  | .binary op s left :: rest, g =>
    if strength ≤ s then reduce strength rest (.chained op s left g)
    else (.binary op s left :: rest, g)
  | .signed op :: rest, g => reduce strength rest (.above (.unary (.str op) g.node) [g])
  | .power base :: rest, g =>
    reduce strength rest (.above (.binary (.str "^") base.node g.node) [base, g])
  | pending, g => (pending, g)

/-- Combines an operand with all operators that wait for it since the last open
parenthesis. -/
def reduceAll : List Pending → Grown → List Pending × Grown
  | .binary op s left :: rest, g => reduceAll rest (.chained op s left g)
  | .signed op :: rest, g => reduceAll rest (.above (.unary (.str op) g.node) [g])
  | .power base :: rest, g =>
    reduceAll rest (.above (.binary (.str "^") base.node g.node) [base, g])
  | .update x op p :: rest, g =>
    reduceAll rest (.above (.update (.str x) (.str op) g.node (.of p)) [g])
  | pending, g => (pending, g)

/-- Whether the innermost open bracket is a parenthesis. -/
def inParen (head : Head) (pending : List Pending) : Bool :=
  head.isParen || pending.any fun
    | .paren => true
    | _ => false

/-- Takes an operand or what may stand before one. -/
def takeOperand (m : Machine) (head : Head) (pending : List Pending) (first : Bool)
    (o : Occurrence) : Option Machine :=
  match o.operand with
  | some operand =>
    let ended : Ended :=
      match o.terminal with
      | .ident => if first then .firstName o.text o.position else .name o.text o.position
      | _ => .closed
    some { m with control := .operator head pending operand ended }
  | none =>
    match o.terminal.sign? with
    | some op => some { m with control := .operand head (.signed op :: pending) }
    | none =>
      if o.terminal = .leftParen then some { m with control := .operand head (.paren :: pending) }
      else none

/-- The terminals expected where statements are separated. -/
def expectedAtBoundary (m : Machine) (b : Boundary) (t : Terminal) : Expected :=
  match b with
  | .start => .level m.inBlock
  | .separator => if Expected.statement.contains t then .level m.inBlock else .statement
  | .brace =>
    if Expected.statement.contains t then .level m.inBlock
    else if t = .otherwise then .statement
    else .blockEnd

/-- Closes the innermost block. -/
def closeBlock (m : Machine) : Option Machine :=
  match m.blocks with
  | [] => none
  | (opening, before) :: outer =>
    let block := Grown.above (.block (m.done.reverse.map (·.node))) m.done.reverse
    let m := { m with blocks := outer, done := before }
    match opening with
    | .bare => some (m.push block .brace)
    | .thenBlock condition p => some { m with control := .afterThen condition block p }
    | .elseBlock condition thenBlock p =>
      some (m.push (branchOf condition thenBlock (some block) p) .brace)
    | .body condition p =>
      some (m.push (.above (.loop condition.node block.node (.of p)) [condition, block]) .brace)

def openBlock (m : Machine) (opening : Opening) : Machine :=
  { m with blocks := (opening, m.done) :: m.blocks, done := [], control := .boundary .start }

/-- A step where a statement may begin. -/
def stepBoundary (m : Machine) (b : Boundary) (o : Occurrence) : Except Expected Machine :=
  match o.terminal with
  | .print => .ok { m with control := .beforeParen (.print o.position) }
  | .branch => .ok { m with control := .beforeParen (.branch o.position) }
  | .loop => .ok { m with control := .beforeParen (.loop o.position) }
  | .input => .ok { m with control := .beforeName o.position }
  | .leave => .ok (m.push (.leaf (.leave (.of o.position))) .separator)
  | .leftBrace => .ok (m.openBlock .bare)
  | .semicolon => .ok { m with control := .boundary .separator }
  | .rightBrace =>
    match m.closeBlock with
    | some m => .ok m
    | none => .error (m.expectedAtBoundary b o.terminal)
  | _ =>
    match m.takeOperand (.evaluate o.position) [] true o with
    | some m => .ok m
    | none => .error (m.expectedAtBoundary b o.terminal)

/-- Finishes the statement that an expression belongs to and that has no open
parenthesis. -/
def endStatement (m : Machine) (head : Head) (value : Grown) : Machine :=
  match head with
  | .assign x p => m.push (.above (.assign (.str x) value.node (.of p)) [value]) .separator
  | .print p => m.push (.above (.print value.node (.of p)) [value]) .separator
  | .branch p => { m with control := .beforeBrace (.thenBlock value p) }
  | .loop p => { m with control := .beforeBrace (.body value p) }
  | .evaluate p => m.push (.above (.evaluate value.node (.of p)) [value]) .separator

/-- The terminals expected behind an operand. -/
def expectedAfter (m : Machine) (head : Head) (pending : List Pending) (ended : Ended)
    (t : Terminal) : Expected :=
  let follow : Expected :=
    match ended with
    | .closed => .follow
    | .name .. => .followName
    | .firstName .. => .followFirstName
  if !follow.contains t then follow
  else if inParen head pending then [.rightParen]
  else if t = .rightParen then .statement
  else .level m.inBlock

/-- A step behind an operand that ends the expression, if it can end there. -/
def stepAfter (m : Machine) (head : Head) (pending : List Pending) (operand : Grown)
    (ended : Ended) (o : Occurrence) : Except Expected Machine :=
  match o.terminal with
  | .rightParen =>
    match reduceAll pending operand with
    | (.paren :: rest, g) => .ok { m with control := .operator head rest g.enclosed .closed }
    | (_, g) =>
      if head.isParen then .ok (m.endStatement head g)
      else .error (m.expectedAfter head pending ended o.terminal)
  | t =>
    if Expected.statement.contains t && !inParen head pending then
      (m.endStatement head (reduceAll pending operand).2).stepBoundary .separator o
    else .error (m.expectedAfter head pending ended t)

/-- A step behind an operand. -/
def stepOperator (m : Machine) (head : Head) (pending : List Pending) (operand : Grown)
    (ended : Ended) (o : Occurrence) : Except Expected Machine :=
  match o.terminal.strength? with
  | some s =>
    let (rest, g) := reduce s pending operand
    .ok { m with control := .operand head (.binary o.text s g :: rest) }
  | none =>
    match o.terminal, o.terminal.updateOperator?, ended with
    | .caret, _, _ => .ok { m with control := .operand head (.power operand :: pending) }
    | .equal, _, .firstName x p => .ok { m with control := .operand (.assign x p) [] }
    | _, some op, .firstName x p =>
      .ok { m with control := .operand head (.update x op p :: pending) }
    | _, some op, .name x p => .ok { m with control := .operand head (.update x op p :: pending) }
    | _, _, _ => m.stepAfter head pending operand ended o

/-- Reads one terminal, or tells which ones could have been read. -/
def step (m : Machine) (o : Occurrence) : Except Expected Machine :=
  match m.control with
  | .boundary b => m.stepBoundary b o
  | .afterThen condition thenBlock p =>
    if o.terminal = .otherwise then
      .ok { m with control := .beforeBrace (.elseBlock condition thenBlock p) }
    else (m.push (branchOf condition thenBlock none p) .brace).stepBoundary .brace o
  | .beforeParen head =>
    if o.terminal = .leftParen then .ok { m with control := .operand head [] }
    else .error [.leftParen]
  | .beforeName p =>
    if o.terminal = .ident then .ok (m.push (.leaf (.input (.str o.text) (.of p))) .separator)
    else .error [.ident]
  | .beforeBrace opening =>
    if o.terminal = .leftBrace then .ok (m.openBlock opening) else .error [.leftBrace]
  | .operand head pending =>
    match m.takeOperand head pending false o with
    | some m => .ok m
    | none => .error .operand
  | .operator head pending operand ended => m.stepOperator head pending operand ended o

/-- The program that has been read, if it may end here. -/
def finish (m : Machine) : Except Expected Grown :=
  let whole (m : Machine) (b : Boundary) : Except Expected Grown :=
    if m.inBlock then .error (m.expectedAtBoundary b .finish)
    else .ok (.above (.program (m.done.reverse.map (·.node))) m.done.reverse)
  match m.control with
  | .boundary b => whole m b
  | .afterThen condition thenBlock p =>
    whole (m.push (branchOf condition thenBlock none p) .brace) .brace
  | .beforeParen _ => .error [.leftParen]
  | .beforeName _ => .error [.ident]
  | .beforeBrace _ => .error [.leftBrace]
  | .operand .. => .error .operand
  | .operator head pending operand ended =>
    if inParen head pending then .error (m.expectedAfter head pending ended .finish)
    else whole (m.endStatement head (reduceAll pending operand).2) .separator

end Machine
end Scriptling.ShiftReduce
