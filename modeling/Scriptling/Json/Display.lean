import Scriptling.Json.Basic
import Scriptling.Number.Format
import Scriptling.Text.Quoted

/-!
# JSON values in messages

A message names a JSON value by a short text: texts in quotes, lists and objects
in brackets with their parts in the same form.
-/
namespace Scriptling
namespace Json

/-- A number of a document in a message. -/
def floatText (x : Float) : String :=
  writeNumber ⟨"nan", "inf"⟩ Decimal.pointed x

mutual

/-- The value as it stands inside a message. -/
def quoted : Json → String
  | .null => "None"
  | .bool true => "True"
  | .bool false => "False"
  | .int n => toString n
  | .float x => floatText x
  | .str s => quote s
  | .arr items => "[" ++ ", ".intercalate (quotedItems items) ++ "]"
  | .obj fields => "\x7b" ++ ", ".intercalate (quotedFields fields) ++ "\x7d"

def quotedItems : List Json → List String
  | [] => []
  | j :: rest => quoted j :: quotedItems rest

def quotedFields : List (String × Json) → List String
  | [] => []
  | (k, j) :: rest => (quote k ++ ": " ++ quoted j) :: quotedFields rest

end

/-- The value as a text of its own: a text stands for itself. -/
def display : Json → String
  | .str s => s
  | j => quoted j

/-- The name of a value's kind. -/
def kind : Json → String
  | .null => "NoneType"
  | .bool _ => "bool"
  | .int _ => "int"
  | .float _ => "float"
  | .str _ => "str"
  | .arr _ => "list"
  | .obj _ => "dict"

/-- The name that a value is for a variable. A list or an object is none. Names that
are no texts, which no script has, are told apart by their display only: null is one
name with the text `None`, and `1` and `true` are two. -/
def variableName? : Json → Option String
  | .arr _ | .obj _ => none
  | j => some j.display

@[simp] theorem display_str (s : String) : display (.str s) = s := rfl

@[simp] theorem variableName?_str (s : String) : variableName? (.str s) = some s := rfl

end Json
end Scriptling
