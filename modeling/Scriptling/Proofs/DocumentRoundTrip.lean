import Mathlib.Control.Monad.Basic
import Scriptling.Tree.Document

/-!
# Trees and their documents

The document of a tree is read back as the tree, whatever nodes stand in its places. Hence
reading a document puts it into a form that no further reading changes: numbers are
doubles, what may be missing and is missing is `null`, fields of other names are gone and
lists are arrays.
-/
namespace Scriptling.Node

@[simp] theorem ok_bind {ε α β : Type} (a : α) (k : α → Except ε β) :
    (Except.ok a >>= k) = k a := rfl

namespace Fields

@[simp] theorem find?_cons (name key : String) (f : Field) (rest : Fields) :
    find? name ((key, f) :: rest) = if key = name then some f else find? name rest := rfl

variable (fields : Fields) (name : String)

@[simp] theorem raw_eq : fields.raw name =
    match fields.find? name with
    | some f => .ok f.raw
    | none => .error (.missingField name) := by
  rw [raw, need]
  cases fields.find? name <;> rfl

@[simp] theorem node_eq : fields.node name =
    match fields.find? name with
    | some f => f.node
    | none => .error (.missingField name) := by
  rw [node, need]
  cases fields.find? name <;> rfl

@[simp] theorem nodes_eq : fields.nodes name =
    match fields.find? name with
    | some f => f.nodes
    | none => .error (.missingField name) := by
  rw [nodes, need]
  cases fields.find? name <;> rfl

end Fields

@[simp] theorem numberOf_float (x : Float) : numberOf (.float x) = .ok x := rfl

@[simp] theorem ofDocument_obj (fields : List (String × Json)) :
    ofDocument (.obj fields) = ofFields (fieldsOf fields) := by
  rw [ofDocument]

@[simp] theorem fieldsOf_nil : fieldsOf [] = [] := by
  rw [fieldsOf]

@[simp] theorem fieldsOf_cons (name : String) (j : Json) (rest : List (String × Json)) :
    fieldsOf ((name, j) :: rest) = (name, ⟨j, ofDocument j, listOf j⟩) :: fieldsOf rest := by
  rw [fieldsOf]

@[simp] theorem listOf_arr (items : List Json) : listOf (.arr items) = itemsOf items := by
  rw [listOf]

mutual

theorem ofDocument_documentWith : (n : Node) → ofDocument (documentWith .float n) = .ok n
  | .absent => by rw [documentWith, ofDocument]
  | .program body => by
    simp [documentWith, ofFields, Fields.rawD, itemsOf_documentsWith body]
  | .block statements => by
    simp [documentWith, ofFields, Fields.rawD, itemsOf_documentsWith statements]
  | .print value m => by
    simp [documentWith, markFields, ofFields, Fields.rawD, Fields.mark,
      ofDocument_documentWith value]
  | .input name m => by
    simp [documentWith, markFields, ofFields, Fields.rawD, Fields.mark]
  | .assign name value m => by
    simp [documentWith, markFields, ofFields, Fields.rawD, Fields.mark,
      ofDocument_documentWith value]
  | .branch condition thenBlock elseBlock m => by
    simp [documentWith, markFields, ofFields, Fields.rawD, Fields.mark, Fields.nodeD,
      ofDocument_documentWith condition, ofDocument_documentWith thenBlock,
      ofDocument_documentWith elseBlock]
  | .loop condition body m => by
    simp [documentWith, markFields, ofFields, Fields.rawD, Fields.mark,
      ofDocument_documentWith condition, ofDocument_documentWith body]
  | .leave m => by
    simp [documentWith, markFields, ofFields, Fields.rawD, Fields.mark, pure, Except.pure]
  | .evaluate value m => by
    simp [documentWith, markFields, ofFields, Fields.rawD, Fields.mark,
      ofDocument_documentWith value]
  | .number x => by
    simp [documentWith, ofFields, Fields.rawD]
  | .string s => by
    simp [documentWith, ofFields, Fields.rawD, pure, Except.pure]
  | .bool b => by
    simp [documentWith, ofFields, Fields.rawD, pure, Except.pure]
  | .ident name m => by
    simp [documentWith, markFields, ofFields, Fields.rawD, Fields.mark]
  | .binary op left right => by
    simp [documentWith, ofFields, Fields.rawD, ofDocument_documentWith left,
      ofDocument_documentWith right]
  | .unary op operand => by
    simp [documentWith, ofFields, Fields.rawD, ofDocument_documentWith operand]
  | .update name op value m => by
    simp [documentWith, markFields, ofFields, Fields.rawD, Fields.mark,
      ofDocument_documentWith value]

theorem itemsOf_documentsWith : (ns : List Node) → itemsOf (documentsWith .float ns) = .ok ns
  | [] => by rw [documentsWith, itemsOf]
  | n :: rest => by
    rw [documentsWith, itemsOf, ofDocument_documentWith n, itemsOf_documentsWith rest]
    rfl

end

/-- Reading undoes writing on all trees, those included that were read from a document. -/
theorem documents_read_back :
    (∀ n : Node, ofDocument n.toDocument = .ok n) ∧
      ∀ (j : Json) (n : Node), ofDocument j = .ok n → ofDocument n.toDocument = .ok n :=
  ⟨ofDocument_documentWith, fun _ n _ => ofDocument_documentWith n⟩

/-- A document with a whole number, a field of another name, a text for a list, and neither
an `else` nor a place. -/
def looseDocument : Json :=
  .obj [("note", .int 1), ("type", .str "IfStmt"),
    ("condition", .obj [("value", .int 3), ("type", .str "NumberLiteral")]),
    ("then_block", .obj [("type", .str "Block"), ("statements", .str "")])]

theorem looseDocument_read_back :
    let n : Node := .branch (.number 3) (.block []) .absent .unknown
    ofDocument looseDocument = .ok n ∧ ofDocument n.toDocument = .ok n := by
  intro n
  have h : ofDocument looseDocument = .ok n := rfl
  exact ⟨h, documents_read_back.2 looseDocument n h⟩

end Scriptling.Node
