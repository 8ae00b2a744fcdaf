import Scriptling.Descent.Statement
import Scriptling.ShiftReduce.Parse

/-!
# Front ends

There are two ways of reading a program text. They accept the same texts and
build the same trees; what they say about a text that they refuse differs.
-/
namespace Scriptling

inductive FrontEnd where
  | descent
  | grammar
deriving DecidableEq, Repr

namespace FrontEnd

def name : FrontEnd → String
  | .descent => "descent"
  | .grammar => "grammar"

def ofName? (name : String) : Option FrontEnd :=
  [FrontEnd.descent, .grammar].find? (·.name = name)

/-- What is said of a name that no front end has. -/
def unknown (name : String) : String :=
  "unknown parser " ++ quote name ++ "; expected one of " ++
    (Json.arr ([FrontEnd.descent, .grammar].map fun f => .str f.name)).quoted

/-- Reads a program text. -/
def parse : FrontEnd → String → Except Error Node
  | .descent => Descent.parse
  | .grammar => ShiftReduce.parse

end FrontEnd
end Scriptling
