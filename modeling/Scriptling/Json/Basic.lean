import Scriptling.Number.Binary

/-!
# JSON values

The values of a JSON document. Whole numbers are kept apart from numbers with a
fraction or an exponent, and an object keeps its fields in the order in which
their names first occur.
-/
namespace Scriptling

inductive Json where
  | null
  | bool (value : Bool)
  | int (value : Int)
  | float (value : Float)
  | str (value : String)
  | arr (items : List Json)
  | obj (fields : List (String × Json))

namespace Json

instance : Inhabited Json := ⟨.null⟩

mutual

/-- How many arrays and objects stand one inside the other in a value. -/
def nesting : Json → Nat
  | .arr items => nestingOfItems items + 1
  | .obj fields => nestingOfFields fields + 1
  | _ => 0

def nestingOfItems : List Json → Nat
  | [] => 0
  | j :: rest => max (nesting j) (nestingOfItems rest)

def nestingOfFields : List (String × Json) → Nat
  | [] => 0
  | f :: rest => max (nesting f.2) (nestingOfFields rest)

end

/-- The nesting of a document up to which it is read and written. The stack of the
host sets this limit. -/
def maxNesting : Nat := 990

/-- The value of the field with the given name. -/
def field? (name : String) : List (String × Json) → Option Json
  | [] => none
  | (k, v) :: rest => if k = name then some v else field? name rest

/-- The integer that a value is worth; truth values are worth 0 and 1. -/
def integer? : Json → Option Int
  | .int n => some n
  | .bool b => some (if b then 1 else 0)
  | .float x => Binary.toInt? x
  | _ => none

mutual

/-- Equality of values. Numbers are compared by what they are worth, and the order
of fields does not matter. -/
def same : Json → Json → Bool
  | .null, .null => true
  | .str a, .str b => a == b
  | .arr as, .arr bs => sameItems as bs
  | .obj as, .obj bs => as.length == bs.length && sameFields as bs
  | .float a, .float b => Binary.same a b
  | a, b => a.integer?.isSome && a.integer? == b.integer?

def sameItems : List Json → List Json → Bool
  | [], [] => true
  | a :: as, b :: bs => same a b && sameItems as bs
  | _, _ => false

/-- Whether each of some fields has an equal one among others. -/
def sameFields : List (String × Json) → List (String × Json) → Bool
  | [], _ => true
  | (k, a) :: as, bs =>
    match field? k bs with
    | some b => same a b && sameFields as bs
    | none => false

end

instance : BEq Json := ⟨same⟩

/-- Sets a field: a name that is present keeps its place and gets the new value,
a new one goes to the end. -/
def setField (name : String) (value : Json) : List (String × Json) → List (String × Json)
  | [] => [(name, value)]
  | (k, v) :: rest => if k = name then (k, value) :: rest else (k, v) :: setField name value rest

/-- Looks up a field of an object; other values have none. -/
def get? (name : String) : Json → Option Json
  | .obj fields => field? name fields
  | _ => none

/-- A field of an object, or `null` if it is missing. -/
def getD (name : String) (j : Json) : Json :=
  (j.get? name).getD .null

def isNull : Json → Bool
  | .null => true
  | _ => false

theorem field?_setField_self (name : String) (value : Json) (fields : List (String × Json)) :
    field? name (setField name value fields) = some value := by
  induction fields with
  | nil => simp [setField, field?]
  | cons f rest ih =>
    obtain ⟨k, v⟩ := f
    by_cases h : k = name <;> simp [setField, field?, h, ih]

theorem field?_setField_of_ne {name other : String} (h : other ≠ name) (value : Json)
    (fields : List (String × Json)) :
    field? other (setField name value fields) = field? other fields := by
  induction fields with
  | nil => simp [setField, field?, Ne.symm h]
  | cons f rest ih =>
    obtain ⟨k, v⟩ := f
    by_cases hk : k = name
    · subst hk
      simp [setField, field?, Ne.symm h]
    · simp only [setField, hk, if_false, field?, ih]

end Json
end Scriptling
