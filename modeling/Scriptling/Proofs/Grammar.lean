import Scriptling.Descent.Expression

/-!
# The grammar of programs

What a sequence of tokens means, without a word on how it is read. The grammar is
ambiguous: a minus between two operands may also be the sign of a second
statement, and the value of an assignment inside an expression may be taken to
end early or late.
-/
namespace Scriptling

namespace Descent.Level

/-- The binary operators of a level. -/
def operators : Level → List String
  | .disjunction => ["||"]
  | .conjunction => ["&&"]
  | .comparison => ["==", "!=", "<", "<=", ">", ">="]
  | .sum => ["+", "-"]
  | .product => ["*", "/", "%"]
  | .power => ["^"]
  | _ => []

/-- The levels of the operands of a binary operator. -/
def operands? : Level → Option (Level × Level)
  | .disjunction => some (.disjunction, .conjunction)
  | .conjunction => some (.conjunction, .comparison)
  | .comparison => some (.comparison, .sum)
  | .sum => some (.sum, .product)
  | .product => some (.product, .signed)
  | .power => some (.assignment, .signed)
  | _ => none

/-- The level whose expressions are also expressions of the given one. -/
def tighter? : Level → Option Level
  | .expression => some .disjunction
  | .disjunction => some .conjunction
  | .conjunction => some .comparison
  | .comparison => some .sum
  | .sum => some .product
  | .product => some .signed
  | .signed => some .power
  | .power => some .assignment
  | .assignment => some .primary
  | .primary => none

end Descent.Level

namespace Grammar

open Descent (Level)

/-- The expressions of a level, with their trees. -/
inductive Expression : Level → List Token → Node → Prop where
  | tighter {level level' : Level} {ts : List Token} {n : Node} :
    level.tighter? = some level' → Expression level' ts n → Expression level ts n
  | binary {level left right : Level} {ls rs : List Token} {t : Token} {op : String} {l r : Node} :
    level.operands? = some (left, right) → op ∈ level.operators → t.symbol = .mark op →
      Expression left ls l → Expression right rs r →
      Expression level (ls ++ t :: rs) (.binary (.str op) l r)
  | sign {t : Token} {op : String} {ts : List Token} {n : Node} :
    op ∈ ["-", "!"] → t.symbol = .mark op → Expression .signed ts n →
      Expression .signed (t :: ts) (.unary (.str op) n)
  | update {t u : Token} {x op : String} {ts : List Token} {n : Node} :
    op ∈ ["+", "-", "*", "/", "%"] → t.symbol = .ident x → u.symbol = .mark (op ++ "=") →
      Expression .expression ts n →
      Expression .assignment (t :: u :: ts) (.update (.str x) (.str op) n (.of t.position))
  | number {t : Token} {x : Float} :
    t.symbol = .number x → Expression .primary [t] (.number x)
  | string {t : Token} {s : String} :
    t.symbol = .string s → Expression .primary [t] (.string s)
  | bool {t : Token} {b : Bool} :
    t.symbol = .bool b → Expression .primary [t] (.bool b)
  | ident {t : Token} {x : String} :
    t.symbol = .ident x → Expression .primary [t] (.ident (.str x) (.of t.position))
  | paren {t u : Token} {ts : List Token} {n : Node} :
    t.symbol = .mark "(" → Expression .expression ts n → u.symbol = .mark ")" →
      Expression .primary (t :: ts ++ [u]) n

/-- No expression is empty. -/
theorem Expression.ne_nil {level : Level} {ts : List Token} {n : Node}
    (h : Expression level ts n) : ts ≠ [] := by
  induction h with
  | tighter _ _ ih => exact ih
  | _ => simp

/-- An expression in parentheses. -/
inductive Condition : List Token → Node → Prop where
  | intro {t u : Token} {ts : List Token} {n : Node} :
    t.symbol = .mark "(" → Expression .expression ts n → u.symbol = .mark ")" →
      Condition (t :: ts ++ [u]) n

/-- The parts of a program that hold statements. -/
inductive Phrase where
  | program
  /-- Statements and semicolons. Their tree is that of the block they would fill. -/
  | items
  | block
  | statement

/-- The phrases of a program, with their trees. The first argument tells whether a
`break` may stand in the phrase; the body of a loop always allows it. -/
inductive Derives : Bool → Phrase → List Token → Node → Prop where
  | program {inLoop : Bool} {ts : List Token} {ns : List Node} :
    Derives inLoop .items ts (.block ns) → Derives inLoop .program ts (.program ns)
  | nil {inLoop : Bool} : Derives inLoop .items [] (.block [])
  | semicolon {inLoop : Bool} {t : Token} {ts : List Token} {n : Node} :
    t.symbol = .mark ";" → Derives inLoop .items ts n → Derives inLoop .items (t :: ts) n
  | cons {inLoop : Bool} {ts us : List Token} {n : Node} {ns : List Node} :
    Derives inLoop .statement ts n → Derives inLoop .items us (.block ns) →
      Derives inLoop .items (ts ++ us) (.block (n :: ns))
  | block {inLoop : Bool} {t u : Token} {ts : List Token} {n : Node} :
    t.symbol = .mark "\x7b" → Derives inLoop .items ts n → u.symbol = .mark "\x7d" →
      Derives inLoop .block (t :: ts ++ [u]) n
  | print {inLoop : Bool} {t : Token} {ts : List Token} {n : Node} :
    t.symbol = .mark "print" → Condition ts n →
      Derives inLoop .statement (t :: ts) (.print n (.of t.position))
  | input {inLoop : Bool} {t u : Token} {x : String} :
    t.symbol = .mark "input" → u.symbol = .ident x →
      Derives inLoop .statement [t, u] (.input (.str x) (.of t.position))
  | branch {inLoop : Bool} {t : Token} {cs ts : List Token} {c thenBlock : Node} :
    t.symbol = .mark "if" → Condition cs c → Derives inLoop .block ts thenBlock →
      Derives inLoop .statement (t :: cs ++ ts) (.branch c thenBlock .absent (.of t.position))
  | branchElse {inLoop : Bool} {t u : Token} {cs ts es : List Token}
      {c thenBlock elseBlock : Node} :
    t.symbol = .mark "if" → Condition cs c → Derives inLoop .block ts thenBlock →
      u.symbol = .mark "else" → Derives inLoop .block es elseBlock →
      Derives inLoop .statement (t :: cs ++ ts ++ u :: es)
        (.branch c thenBlock elseBlock (.of t.position))
  | loop {inLoop : Bool} {t : Token} {cs ts : List Token} {c body : Node} :
    t.symbol = .mark "while" → Condition cs c → Derives true .block ts body →
      Derives inLoop .statement (t :: cs ++ ts) (.loop c body (.of t.position))
  | leave {t : Token} :
    t.symbol = .mark "break" → Derives true .statement [t] (.leave (.of t.position))
  | nested {inLoop : Bool} {ts : List Token} {n : Node} :
    Derives inLoop .block ts n → Derives inLoop .statement ts n
  | assign {inLoop : Bool} {t u : Token} {x : String} {ts : List Token} {n : Node} :
    t.symbol = .ident x → u.symbol = .mark "=" → Expression .expression ts n →
      Derives inLoop .statement (t :: u :: ts) (.assign (.str x) n (.of t.position))
  | evaluate {inLoop : Bool} {t : Token} {ts : List Token} {n : Node} :
    Expression .expression (t :: ts) n →
      Derives inLoop .statement (t :: ts) (.evaluate n (.of t.position))

/-- No statement or block is empty. -/
theorem Derives.ne_nil {inLoop : Bool} {phrase : Phrase} {ts : List Token} {n : Node}
    (h : Derives inLoop phrase ts n) (hp : phrase = .statement ∨ phrase = .block) : ts ≠ [] := by
  induction h with
  | nested _ ih => exact ih (.inr rfl)
  | program | nil | semicolon | cons => simp at hp
  | _ => simp

end Grammar
end Scriptling
