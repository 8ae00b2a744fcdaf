import Scriptling.Number.Format

/-!
# Runtime values

Programs compute with numbers, strings and truth values. An embedding may bind
a variable to a whole number or to nothing; the language gives no operation on
these two beyond comparing and showing them.
-/
namespace Scriptling

inductive Value where
  | number (x : Float)
  | string (s : String)
  | bool (b : Bool)
  | whole (n : Int)
  | nothing

namespace Value

instance : Inhabited Value := ⟨.nothing⟩

/-- The name of a value's type in messages. -/
def typeName : Value → String
  | .number _ => "Number"
  | .string _ => "String"
  | .bool _ => "Bool"
  | .whole _ => "int"
  | .nothing => "NoneType"

/-- The text that printing a value shows. -/
def display : Value → String
  | .number x => formatNumber x
  | .string s => s
  | .bool true => "true"
  | .bool false => "false"
  | .whole n => toString n
  | .nothing => "None"

/-- Values of different types are never equal, and what is not a number equals
nothing. -/
def same : Value → Value → Bool
  | .number a, .number b => a == b
  | .string a, .string b => a == b
  | .bool a, .bool b => a == b
  | .whole a, .whole b => a == b
  | .nothing, .nothing => true
  | _, _ => false

def isNumber : Value → Bool
  | .number _ => true
  | _ => false

def isString : Value → Bool
  | .string _ => true
  | _ => false

def isBool : Value → Bool
  | .bool _ => true
  | _ => false

/-- The values that programs compute with. -/
def IsOrdinary (v : Value) : Prop :=
  v.isNumber ∨ v.isString ∨ v.isBool

instance (v : Value) : Decidable v.IsOrdinary :=
  inferInstanceAs (Decidable (_ ∨ _ ∨ _))

end Value
end Scriptling
