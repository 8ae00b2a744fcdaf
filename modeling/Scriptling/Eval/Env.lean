import Scriptling.Value

/-!
# Environments

A program has one table of variables. Assigning a name declares it if it is
new, and the table lists the names in the order in which they were declared.
-/
namespace Scriptling

structure Env where
  bindings : List (String × Value)

namespace Env

def empty : Env := ⟨[]⟩

instance : Inhabited Env := ⟨empty⟩

/-- The value in a list of bindings. -/
def find? (name : String) : List (String × Value) → Option Value
  | [] => none
  | (k, v) :: rest => if k = name then some v else find? name rest

/-- Replaces the value of a name in place, or adds it at the end. -/
def put (name : String) (value : Value) : List (String × Value) → List (String × Value)
  | [] => [(name, value)]
  | (k, v) :: rest => if k = name then (k, value) :: rest else (k, v) :: put name value rest

def get? (env : Env) (name : String) : Option Value :=
  find? name env.bindings

def set (env : Env) (name : String) (value : Value) : Env :=
  ⟨put name value env.bindings⟩

def contains (env : Env) (name : String) : Bool :=
  (env.get? name).isSome

/-- The names in the order in which they were declared. -/
def names (env : Env) : List String :=
  env.bindings.map (·.1)

def size (env : Env) : Nat :=
  env.bindings.length

@[simp] theorem get?_set_self (env : Env) (name : String) (value : Value) :
    (env.set name value).get? name = some value := by
  obtain ⟨bindings⟩ := env
  simp only [set, get?]
  induction bindings with
  | nil => simp [put, find?]
  | cons b rest ih =>
    obtain ⟨k, v⟩ := b
    by_cases h : k = name <;> simp [put, find?, h, ih]

theorem get?_set_of_ne {name other : String} (h : other ≠ name) (env : Env) (value : Value) :
    (env.set name value).get? other = env.get? other := by
  obtain ⟨bindings⟩ := env
  simp only [set, get?]
  induction bindings with
  | nil => simp [put, find?, Ne.symm h]
  | cons b rest ih =>
    obtain ⟨k, v⟩ := b
    by_cases hk : k = name
    · subst hk
      simp [put, find?, Ne.symm h]
    · simp only [put, hk, if_false, find?, ih]

end Env
end Scriptling
