import Scriptling.Json.Basic
import Scriptling.Number.Format
import Scriptling.Text.Quoted

/-!
# JSON documents

A document puts every item and every field on a line of its own, two columns
further in than the brackets around it. Characters stand for themselves except
the quote, the backslash and the controls below the space.
-/
namespace Scriptling
namespace Json

/-- A character between the quotes of a JSON string. -/
def escape (c : Char) : List Char :=
  if c = '"' then ['\\', '"']
  else if c = '\\' then ['\\', '\\']
  else if c = '\n' then ['\\', 'n']
  else if c = '\r' then ['\\', 'r']
  else if c = '\t' then ['\\', 't']
  else if c.toNat = 8 then ['\\', 'b']
  else if c.toNat = 12 then ['\\', 'f']
  else if c.toNat < 32 then '\\' :: 'u' :: Quoted.hex 4 c.toNat
  else [c]

/-- A JSON string with its quotes. -/
def stringText (s : String) : String :=
  "\"" ++ String.ofList (s.toList.flatMap escape) ++ "\""

/-- A number that is not whole, or is written as if it were not. -/
def numberText (x : Float) : String :=
  writeNumber ⟨"NaN", "Infinity"⟩ Decimal.pointed x

/-- A new line at the given depth. -/
def newline (depth : Nat) : String :=
  String.ofList ('\n' :: List.replicate (2 * depth) ' ')

mutual

/-- The text of a value whose opening bracket stands at the given depth. -/
def document (depth : Nat) : Json → String
  | .null => "null"
  | .bool true => "true"
  | .bool false => "false"
  | .int n => toString n
  | .float x => numberText x
  | .str s => stringText s
  | .arr [] => "[]"
  | .arr (j :: rest) =>
    "[" ++ newline (depth + 1) ++ document (depth + 1) j ++ documentItems (depth + 1) rest ++
      newline depth ++ "]"
  | .obj [] => "\x7b\x7d"
  | .obj ((k, j) :: rest) =>
    "\x7b" ++ newline (depth + 1) ++ stringText k ++ ": " ++ document (depth + 1) j ++
      documentFields (depth + 1) rest ++ newline depth ++ "\x7d"

/-- All items but the first, each after a comma. -/
def documentItems (depth : Nat) : List Json → String
  | [] => ""
  | j :: rest => "," ++ newline depth ++ document depth j ++ documentItems depth rest

def documentFields (depth : Nat) : List (String × Json) → String
  | [] => ""
  | (k, j) :: rest =>
    "," ++ newline depth ++ stringText k ++ ": " ++ document depth j ++ documentFields depth rest

end

/-- The text of a document. -/
def print (j : Json) : String :=
  document 0 j

mutual

/-- The text of a value on one line. -/
def line : Json → String
  | .null => "null"
  | .bool true => "true"
  | .bool false => "false"
  | .int n => toString n
  | .float x => numberText x
  | .str s => stringText s
  | .arr items => "[" ++ ", ".intercalate (lineItems items) ++ "]"
  | .obj fields => "\x7b" ++ ", ".intercalate (lineFields fields) ++ "\x7d"

def lineItems : List Json → List String
  | [] => []
  | j :: rest => line j :: lineItems rest

def lineFields : List (String × Json) → List String
  | [] => []
  | (k, j) :: rest => (stringText k ++ ": " ++ line j) :: lineFields rest

end

end Json
end Scriptling
