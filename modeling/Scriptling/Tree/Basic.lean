import Scriptling.Error

/-!
# Program trees

Both front ends build trees of one type, and so do tree documents, which may
put any node in any place. Names, operators and places are kept as a document
gives them; a front end writes names and operators as texts and places as whole
numbers. A place for a node that holds none holds `absent`.
-/
namespace Scriptling

inductive Node where
  | absent
  | program (body : List Node)
  | block (statements : List Node)
  | print (value : Node) (mark : Mark)
  | input (name : Json) (mark : Mark)
  | assign (name : Json) (value : Node) (mark : Mark)
  | branch (condition thenBlock elseBlock : Node) (mark : Mark)
  | loop (condition body : Node) (mark : Mark)
  | leave (mark : Mark)
  | evaluate (value : Node) (mark : Mark)
  | number (x : Float)
  | string (s : String)
  | bool (b : Bool)
  | ident (name : Json) (mark : Mark)
  | binary (op : Json) (left right : Node)
  | unary (op : Json) (operand : Node)
  /-- An assignment that combines the variable with a value and yields the
  result. -/
  | update (name op : Json) (value : Node) (mark : Mark)

namespace Node

instance : Inhabited Node := ⟨.absent⟩

/-- The name of a node's kind. -/
def kind : Node → String
  | .absent => "NoneType"
  | .program _ => "Program"
  | .block _ => "Block"
  | .print .. => "PrintStmt"
  | .input .. => "InputStmt"
  | .assign .. => "Assign"
  | .branch .. => "IfStmt"
  | .loop .. => "WhileStmt"
  | .leave _ => "BreakStmt"
  | .evaluate .. => "ExprStmt"
  | .number _ => "NumberLiteral"
  | .string _ => "StringLiteral"
  | .bool _ => "BoolLiteral"
  | .ident .. => "Ident"
  | .binary .. => "BinaryOp"
  | .unary .. => "UnaryOp"
  | .update .. => "CompoundAssign"

/-- Where a node stands. Nodes of some kinds have no place of their own. -/
def mark : Node → Mark
  | .print _ m | .input _ m | .assign _ _ m | .branch _ _ _ m | .loop _ _ m | .leave m
  | .evaluate _ m | .ident _ m | .update _ _ _ m => m
  | _ => .unknown

def isAbsent : Node → Bool
  | .absent => true
  | _ => false

/-- Equality of places, if they matter. -/
def sameMark (places : Bool) (m n : Mark) : Bool :=
  !places || (m.line == n.line && m.column == n.column)

mutual

/-- Equality of trees. Places do not matter unless they are asked for. -/
def same (places : Bool) : Node → Node → Bool
  | .absent, .absent => true
  | .program as, .program bs => sameAll places as bs
  | .block as, .block bs => sameAll places as bs
  | .print a m, .print b n => same places a b && sameMark places m n
  | .input a m, .input b n => a == b && sameMark places m n
  | .assign x a m, .assign y b n => x == y && same places a b && sameMark places m n
  | .branch a b c m, .branch a' b' c' n =>
    same places a a' && same places b b' && same places c c' && sameMark places m n
  | .loop a b m, .loop a' b' n => same places a a' && same places b b' && sameMark places m n
  | .leave m, .leave n => sameMark places m n
  | .evaluate a m, .evaluate b n => same places a b && sameMark places m n
  | .number x, .number y => Binary.same x y
  | .string s, .string t => s == t
  | .bool a, .bool b => a == b
  | .ident x m, .ident y n => x == y && sameMark places m n
  | .binary o a b, .binary o' a' b' => o == o' && same places a a' && same places b b'
  | .unary o a, .unary o' a' => o == o' && same places a a'
  | .update x o a m, .update x' o' a' n =>
    x == x' && o == o' && same places a a' && sameMark places m n
  | _, _ => false

def sameAll (places : Bool) : List Node → List Node → Bool
  | [], [] => true
  | a :: as, b :: bs => same places a b && sameAll places as bs
  | _, _ => false

end

end Node
end Scriptling
