import Scriptling.Tree.Basic

/-!
# Tree documents

A tree is stored as a JSON document in which every node is an object with a
`type`. Reading one looks at the type first and then at the fields of that
type in a fixed order, and reports the first thing that is wrong. Fields of
other names are ignored; a name, an operator, a line and a column may be any
value.
-/
namespace Scriptling

/-- What is wrong with a tree document. -/
inductive DocumentError where
  /-- A value that is no object stands in the place of a node. -/
  | notANode
  /-- A value of this kind stands in the place of a list. -/
  | notAList (kind : String)
  | missingField (name : String)
  | badNumber (value : Json)
  | badString (value : Json)
  | badBool (value : Json)
  | unknownType (type : Json)
  /-- A whole number that no double is near to. -/
  | numberTooLarge

namespace DocumentError

def message : DocumentError → String
  | .notANode => "Invalid AST object"
  | .notAList kind => quote kind ++ " object is not iterable"
  | .missingField name => quote name
  | .badNumber v => "NumberLiteral value must be a number, got " ++ v.quoted
  | .badString v => "StringLiteral value must be a string, got " ++ v.quoted
  | .badBool v => "BoolLiteral value must be true or false, got " ++ v.quoted
  | .unknownType t => "Unknown AST node type: " ++ t.display
  | .numberTooLarge => "int too large to convert to float"

end DocumentError

namespace Node

/-- The fields that hold a place. -/
def markFields (m : Mark) : List (String × Json) :=
  [("line", m.line), ("column", m.column)]

mutual

/-- The document of a tree, with number literals written by the given function. -/
def documentWith (literal : Float → Json) : Node → Json
  | .absent => .null
  | .program body => .obj [("type", .str "Program"), ("body", .arr (documentsWith literal body))]
  | .block statements =>
    .obj [("type", .str "Block"), ("statements", .arr (documentsWith literal statements))]
  | .print value m =>
    .obj ([("type", .str "PrintStmt"), ("expr", documentWith literal value)] ++ markFields m)
  | .input name m => .obj ([("type", .str "InputStmt"), ("name", name)] ++ markFields m)
  | .assign name value m =>
    .obj ([("type", .str "Assign"), ("name", name), ("value", documentWith literal value)] ++
      markFields m)
  | .branch condition thenBlock elseBlock m =>
    .obj ([("type", .str "IfStmt"), ("condition", documentWith literal condition),
      ("then_block", documentWith literal thenBlock),
      ("else_block", documentWith literal elseBlock)] ++ markFields m)
  | .loop condition body m =>
    .obj ([("type", .str "WhileStmt"), ("condition", documentWith literal condition),
      ("body", documentWith literal body)] ++ markFields m)
  | .leave m => .obj (("type", .str "BreakStmt") :: markFields m)
  | .evaluate value m =>
    .obj ([("type", .str "ExprStmt"), ("expr", documentWith literal value)] ++ markFields m)
  | .number x => .obj [("type", .str "NumberLiteral"), ("value", literal x)]
  | .string s => .obj [("type", .str "StringLiteral"), ("value", .str s)]
  | .bool b => .obj [("type", .str "BoolLiteral"), ("value", .bool b)]
  | .ident name m => .obj ([("type", .str "Ident"), ("name", name)] ++ markFields m)
  | .binary op left right =>
    .obj [("type", .str "BinaryOp"), ("op", op), ("left", documentWith literal left),
      ("right", documentWith literal right)]
  | .unary op operand =>
    .obj [("type", .str "UnaryOp"), ("op", op), ("operand", documentWith literal operand)]
  | .update name op value m =>
    .obj ([("type", .str "CompoundAssign"), ("name", name), ("op", op),
      ("value", documentWith literal value)] ++ markFields m)

def documentsWith (literal : Float → Json) : List Node → List Json
  | [] => []
  | n :: rest => documentWith literal n :: documentsWith literal rest

end

/-- The document of a tree. -/
def toDocument : Node → Json :=
  documentWith .float

/-- A field of an object, read in each of the ways in which a node may need it. -/
structure Field where
  raw : Json
  node : Except DocumentError Node
  nodes : Except DocumentError (List Node)

/-- The fields of an object by name. -/
abbrev Fields := List (String × Field)

namespace Fields

def find? (name : String) : Fields → Option Field
  | [] => none
  | (k, f) :: rest => if k = name then some f else find? name rest

/-- A field that may be missing. -/
def rawD (fields : Fields) (name : String) : Json :=
  ((fields.find? name).map (·.raw)).getD .null

/-- A field that may not be missing. -/
def need (fields : Fields) (name : String) : Except DocumentError Field :=
  match fields.find? name with
  | some f => .ok f
  | none => .error (.missingField name)

def raw (fields : Fields) (name : String) : Except DocumentError Json :=
  (fields.need name).map (·.raw)

def node (fields : Fields) (name : String) : Except DocumentError Node := do
  (← fields.need name).node

def nodes (fields : Fields) (name : String) : Except DocumentError (List Node) := do
  (← fields.need name).nodes

/-- A node that may be missing. -/
def nodeD (fields : Fields) (name : String) : Except DocumentError Node :=
  match fields.find? name with
  | some f => f.node
  | none => .ok .absent

/-- The place that the fields give. -/
def mark (fields : Fields) : Mark :=
  ⟨fields.rawD "line", fields.rawD "column"⟩

end Fields

/-- The number that a literal's value stands for. -/
def numberOf : Json → Except DocumentError Float
  | .int n =>
    match Binary.ofInt? n with
    | some x => .ok x
    | none => .error .numberTooLarge
  | .float x => .ok x
  | j => .error (.badNumber j)

/-- Puts a node together from the fields of its object. -/
def ofFields (fields : Fields) : Except DocumentError Node :=
  match fields.rawD "type" with
  | .str "Program" => return .program (← fields.nodes "body")
  | .str "Block" => return .block (← fields.nodes "statements")
  | .str "PrintStmt" => return .print (← fields.node "expr") fields.mark
  | .str "InputStmt" => return .input (← fields.raw "name") fields.mark
  | .str "Assign" => return .assign (← fields.raw "name") (← fields.node "value") fields.mark
  | .str "IfStmt" =>
    return .branch (← fields.node "condition") (← fields.node "then_block")
      (← fields.nodeD "else_block") fields.mark
  | .str "WhileStmt" =>
    return .loop (← fields.node "condition") (← fields.node "body") fields.mark
  | .str "BreakStmt" => return .leave fields.mark
  | .str "ExprStmt" => return .evaluate (← fields.node "expr") fields.mark
  | .str "NumberLiteral" => return .number (← numberOf (← fields.raw "value"))
  | .str "StringLiteral" => do
    match ← fields.raw "value" with
    | .str s => return .string s
    | j => throw (.badString j)
  | .str "BoolLiteral" => do
    match ← fields.raw "value" with
    | .bool b => return .bool b
    | j => throw (.badBool j)
  | .str "Ident" => return .ident (← fields.raw "name") fields.mark
  | .str "BinaryOp" =>
    return .binary (← fields.raw "op") (← fields.node "left") (← fields.node "right")
  | .str "UnaryOp" => return .unary (← fields.raw "op") (← fields.node "operand")
  | .str "CompoundAssign" =>
    return .update (← fields.raw "name") (← fields.raw "op") (← fields.node "value") fields.mark
  | type => .error (.unknownType type)

mutual

/-- Reads a tree from its document. -/
def ofDocument : Json → Except DocumentError Node
  | .null => .ok .absent
  | .obj fields => ofFields (fieldsOf fields)
  | _ => .error .notANode

/-- Reads a list of trees. A text counts as the list of its characters and an
object as the list of its names, which are no trees; only the empty ones will
do. -/
def listOf : Json → Except DocumentError (List Node)
  | .arr items => itemsOf items
  | .str s => if s.isEmpty then .ok [] else .error .notANode
  | .obj fields => if fields.isEmpty then .ok [] else .error .notANode
  | j => .error (.notAList j.kind)

def itemsOf : List Json → Except DocumentError (List Node)
  | [] => .ok []
  | j :: rest => do
    let n ← ofDocument j
    let ns ← itemsOf rest
    return n :: ns

def fieldsOf : List (String × Json) → Fields
  | [] => []
  | (k, j) :: rest => (k, ⟨j, ofDocument j, listOf j⟩) :: fieldsOf rest

end

end Node
end Scriptling
