import Scriptling.Proofs.IterationLimit

/-!
# The meaning of programs

What expressions and statements do, as rules. Operands are evaluated from left to right
and always both of them. An assignment inside an expression reads its variable before it
evaluates the value. The condition of a loop is evaluated before each iteration, and the
iteration is counted between the condition and the body. A `break` ends the innermost loop.
The first failure ends everything, and what was done before it stays done. It keeps account
of the statements under way where it arose; its place is that of the innermost one that has
one.
-/
namespace Scriptling

namespace Node

/-- Whether a tree is an expression, with expressions in all its places. -/
inductive IsProperExpression : Node → Prop where
  | number {x : Float} : IsProperExpression (.number x)
  | string {s : String} : IsProperExpression (.string s)
  | bool {b : Bool} : IsProperExpression (.bool b)
  | ident {name : Json} {m : Mark} : IsProperExpression (.ident name m)
  | binary {op : Json} {l r : Node} : IsProperExpression l → IsProperExpression r →
    IsProperExpression (.binary op l r)
  | unary {op : Json} {n : Node} : IsProperExpression n → IsProperExpression (.unary op n)
  | update {name op : Json} {n : Node} {m : Mark} : IsProperExpression n →
    IsProperExpression (.update name op n m)

/-- Whether a tree is a statement, with expressions, statements and blocks in their places. -/
inductive IsProperStatement : Node → Prop where
  | print {e : Node} {m : Mark} : IsProperExpression e → IsProperStatement (.print e m)
  | input {name : Json} {m : Mark} : IsProperStatement (.input name m)
  | assign {name : Json} {e : Node} {m : Mark} : IsProperExpression e →
    IsProperStatement (.assign name e m)
  | branch {c : Node} {ts : List Node} {m : Mark} : IsProperExpression c →
    (∀ n ∈ ts, IsProperStatement n) → IsProperStatement (.branch c (.block ts) .absent m)
  | branchElse {c : Node} {ts es : List Node} {m : Mark} : IsProperExpression c →
    (∀ n ∈ ts, IsProperStatement n) → (∀ n ∈ es, IsProperStatement n) →
    IsProperStatement (.branch c (.block ts) (.block es) m)
  | loop {c : Node} {ns : List Node} {m : Mark} : IsProperExpression c →
    (∀ n ∈ ns, IsProperStatement n) → IsProperStatement (.loop c (.block ns) m)
  | leave {m : Mark} : IsProperStatement (.leave m)
  | evaluate {e : Node} {m : Mark} : IsProperExpression e → IsProperStatement (.evaluate e m)
  | block {ns : List Node} : (∀ n ∈ ns, IsProperStatement n) → IsProperStatement (.block ns)

end Node

/-- What a program works on: lines to read and lines written, variables, and the number of
iterations so far. -/
structure World extends Buffer where
  env : Env
  iterations : Nat

namespace World

/-- The value of a variable, which has to have one. -/
def read (w : World) (name : Json) (m : Mark) : Except Failure Value :=
  match name.variableName? with
  | none => .error (.fault (.notAName name.kind))
  | some x =>
    match w.env.get? x with
    | some v => .ok v
    | none => .error (.error ⟨.undefinedVariable x, m⟩)

/-- Gives a variable a value. -/
def store (w : World) (name : Json) (v : Value) : Except Failure World :=
  match name.variableName? with
  | none => .error (.fault (.notAName name.kind))
  | some x => .ok { w with env := w.env.set x v }

def write (w : World) (line : String) : World := { w with toBuffer := w.toBuffer.write line }

def counted (w : World) : World := { w with iterations := w.iterations + 1 }

end World

/-- Why an iteration may not begin, if it may not. -/
def Limit.refusal? (limit : Limit) (iterations : Nat) : Option Failure :=
  match limit with
  | .unlimited => none
  | .atMost n => if n < iterations then some (.ofCause (.iterationLimit n)) else none
  | .unusable kind => some (.fault (.notALimit kind))

/-- Places an error that has no place yet. -/
def Failure.placedAt : Failure → Mark → Failure
  | .error e, m => .error (e.placedAt m)
  | .fault f, _ => .fault f

/-- How a statement ends. -/
inductive Ending where
  | finished
  /-- By a `break` on its way to the loop around it. -/
  | leaving
  /-- By a failure that arose with the given statements under way, the innermost first. -/
  | failed (path : List Node) (f : Failure)

namespace Ending

/-- The end of a statement inside of another one is the end of the outer one. -/
def within (n : Node) : Ending → Ending
  | .failed path f => .failed (path ++ [n]) f
  | e => e

/-- What is seen of an ending: a failure has the place of the innermost statement that has
one. -/
def result : Ending → Except Stop Unit
  | .finished => .ok ()
  | .leaving => .error .leaving
  | .failed path f => .error (.failure (f.placedAt (Node.innermostMark path)))

end Ending

namespace BigStep

/-- The value of an expression or the failure that it meets, and the world after it. -/
inductive Evaluates : World → Node → World → Except Failure Value → Prop where
  | number {w : World} {x : Float} : Evaluates w (.number x) w (.ok (.number x))
  | string {w : World} {s : String} : Evaluates w (.string s) w (.ok (.string s))
  | bool {w : World} {b : Bool} : Evaluates w (.bool b) w (.ok (.bool b))
  | ident {w : World} {name : Json} {m : Mark} :
    Evaluates w (.ident name m) w (w.read name m)
  | binary {w w₁ w₂ : World} {op : Json} {l r : Node} {a b : Value} :
    Evaluates w l w₁ (.ok a) → Evaluates w₁ r w₂ (.ok b) →
    Evaluates w (.binary op l r) w₂ (applyBinary op.display a b)
  | binaryLeft {w w₁ : World} {op : Json} {l r : Node} {f : Failure} :
    Evaluates w l w₁ (.error f) → Evaluates w (.binary op l r) w₁ (.error f)
  | binaryRight {w w₁ w₂ : World} {op : Json} {l r : Node} {a : Value} {f : Failure} :
    Evaluates w l w₁ (.ok a) → Evaluates w₁ r w₂ (.error f) →
    Evaluates w (.binary op l r) w₂ (.error f)
  | unary {w w₁ : World} {op : Json} {n : Node} {a : Value} :
    Evaluates w n w₁ (.ok a) → Evaluates w (.unary op n) w₁ (applyUnary op.display a)
  | unaryOperand {w w₁ : World} {op : Json} {n : Node} {f : Failure} :
    Evaluates w n w₁ (.error f) → Evaluates w (.unary op n) w₁ (.error f)
  | update {w w₁ w₂ : World} {name op : Json} {n : Node} {m : Mark} {a b v : Value} :
    w.read name m = .ok a → Evaluates w n w₁ (.ok b) → applyBinary op.display a b = .ok v →
    w₁.store name v = .ok w₂ → Evaluates w (.update name op n m) w₂ (.ok v)
  | updateUnread {w : World} {name op : Json} {n : Node} {m : Mark} {f : Failure} :
    w.read name m = .error f → Evaluates w (.update name op n m) w (.error f)
  | updateValue {w w₁ : World} {name op : Json} {n : Node} {m : Mark} {a : Value} {f : Failure} :
    w.read name m = .ok a → Evaluates w n w₁ (.error f) →
    Evaluates w (.update name op n m) w₁ (.error f)
  | updateRefused {w w₁ : World} {name op : Json} {n : Node} {m : Mark} {a b : Value}
      {f : Failure} :
    w.read name m = .ok a → Evaluates w n w₁ (.ok b) → applyBinary op.display a b = .error f →
    Evaluates w (.update name op n m) w₁ (.error f)

/-- The truth value of the condition of a construct. -/
inductive Decides (construct : String) : World → Node → World → Except Failure Bool → Prop where
  | truth {w w₁ : World} {c : Node} {b : Bool} :
    Evaluates w c w₁ (.ok (.bool b)) → Decides construct w c w₁ (.ok b)
  | other {w w₁ : World} {c : Node} {v : Value} :
    Evaluates w c w₁ (.ok v) → v.isBool = false →
    Decides construct w c w₁ (.error (.ofCause (.condition construct v.typeName)))
  | fails {w w₁ : World} {c : Node} {f : Failure} :
    Evaluates w c w₁ (.error f) → Decides construct w c w₁ (.error f)

/-- What can be executed. -/
inductive Task where
  | statement (n : Node)
  | sequence (ns : List Node)
  /-- A loop from the test of its condition on. -/
  | repetition (condition : Node) (body : List Node)

/-- The end of a task and the world after it. -/
inductive Executes (limit : Limit) : Task → World → World → Ending → Prop where
  | print {w w₁ : World} {e : Node} {m : Mark} {v : Value} : Evaluates w e w₁ (.ok v) →
    Executes limit (.statement (.print e m)) w (w₁.write v.display) .finished
  | printValue {w w₁ : World} {e : Node} {m : Mark} {f : Failure} : Evaluates w e w₁ (.error f) →
    Executes limit (.statement (.print e m)) w w₁ (.failed [.print e m] f)
  | input {w w₁ : World} {name : Json} {m : Mark} {line : String} {rest : List String} :
    w.pending = line :: rest → World.store { w with pending := rest } name (.string line) = .ok w₁ →
    Executes limit (.statement (.input name m)) w w₁ .finished
  | inputUnnamed {w : World} {name : Json} {m : Mark} {line : String} {rest : List String}
      {f : Failure} :
    w.pending = line :: rest →
    World.store { w with pending := rest } name (.string line) = .error f →
    Executes limit (.statement (.input name m)) w { w with pending := rest }
      (.failed [.input name m] f)
  | inputEnds {w : World} {name : Json} {m : Mark} : w.pending = [] →
    Executes limit (.statement (.input name m)) w w
      (.failed [.input name m] (.ofCause (.endOfInput name.display)))
  | assign {w w₁ w₂ : World} {name : Json} {e : Node} {m : Mark} {v : Value} :
    Evaluates w e w₁ (.ok v) → w₁.store name v = .ok w₂ →
    Executes limit (.statement (.assign name e m)) w w₂ .finished
  | assignValue {w w₁ : World} {name : Json} {e : Node} {m : Mark} {f : Failure} :
    Evaluates w e w₁ (.error f) →
    Executes limit (.statement (.assign name e m)) w w₁ (.failed [.assign name e m] f)
  | assignUnnamed {w w₁ : World} {name : Json} {e : Node} {m : Mark} {v : Value} {f : Failure} :
    Evaluates w e w₁ (.ok v) → w₁.store name v = .error f →
    Executes limit (.statement (.assign name e m)) w w₁ (.failed [.assign name e m] f)
  | branchCondition {w w₁ : World} {c t e : Node} {m : Mark} {f : Failure} :
    Decides "if" w c w₁ (.error f) →
    Executes limit (.statement (.branch c t e m)) w w₁ (.failed [.branch c t e m] f)
  | branchThen {w w₁ w₂ : World} {c e : Node} {ns : List Node} {m : Mark} {o : Ending} :
    Decides "if" w c w₁ (.ok true) → Executes limit (.sequence ns) w₁ w₂ o →
    Executes limit (.statement (.branch c (.block ns) e m)) w w₂
      (o.within (.branch c (.block ns) e m))
  | branchElse {w w₁ w₂ : World} {c t : Node} {ns : List Node} {m : Mark} {o : Ending} :
    Decides "if" w c w₁ (.ok false) → Executes limit (.sequence ns) w₁ w₂ o →
    Executes limit (.statement (.branch c t (.block ns) m)) w w₂
      (o.within (.branch c t (.block ns) m))
  | branchNone {w w₁ : World} {c t : Node} {m : Mark} : Decides "if" w c w₁ (.ok false) →
    Executes limit (.statement (.branch c t .absent m)) w w₁ .finished
  | loop {w w₁ : World} {c : Node} {ns : List Node} {m : Mark} {o : Ending} :
    Executes limit (.repetition c ns) w w₁ o →
    Executes limit (.statement (.loop c (.block ns) m)) w w₁ (o.within (.loop c (.block ns) m))
  | leave {w : World} {m : Mark} : Executes limit (.statement (.leave m)) w w .leaving
  | evaluate {w w₁ : World} {e : Node} {m : Mark} {v : Value} : Evaluates w e w₁ (.ok v) →
    Executes limit (.statement (.evaluate e m)) w w₁ .finished
  | evaluateValue {w w₁ : World} {e : Node} {m : Mark} {f : Failure} :
    Evaluates w e w₁ (.error f) →
    Executes limit (.statement (.evaluate e m)) w w₁ (.failed [.evaluate e m] f)
  | block {w w₁ : World} {ns : List Node} {o : Ending} : Executes limit (.sequence ns) w w₁ o →
    Executes limit (.statement (.block ns)) w w₁ (o.within (.block ns))
  | nil {w : World} : Executes limit (.sequence []) w w .finished
  | cons {w w₁ w₂ : World} {n : Node} {ns : List Node} {o : Ending} :
    Executes limit (.statement n) w w₁ .finished → Executes limit (.sequence ns) w₁ w₂ o →
    Executes limit (.sequence (n :: ns)) w w₂ o
  | consStops {w w₁ : World} {n : Node} {ns : List Node} {o : Ending} :
    Executes limit (.statement n) w w₁ o → o ≠ .finished →
    Executes limit (.sequence (n :: ns)) w w₁ o
  | done {w w₁ : World} {c : Node} {ns : List Node} : Decides "while" w c w₁ (.ok false) →
    Executes limit (.repetition c ns) w w₁ .finished
  | condition {w w₁ : World} {c : Node} {ns : List Node} {f : Failure} :
    Decides "while" w c w₁ (.error f) → Executes limit (.repetition c ns) w w₁ (.failed [] f)
  | refused {w w₁ : World} {c : Node} {ns : List Node} {f : Failure} :
    Decides "while" w c w₁ (.ok true) → limit.refusal? w₁.counted.iterations = some f →
    Executes limit (.repetition c ns) w w₁.counted (.failed [] f)
  | again {w w₁ w₂ w₃ : World} {c : Node} {ns : List Node} {o : Ending} :
    Decides "while" w c w₁ (.ok true) → limit.refusal? w₁.counted.iterations = none →
    Executes limit (.sequence ns) w₁.counted w₂ .finished →
    Executes limit (.repetition c ns) w₂ w₃ o → Executes limit (.repetition c ns) w w₃ o
  | left {w w₁ w₂ : World} {c : Node} {ns : List Node} :
    Decides "while" w c w₁ (.ok true) → limit.refusal? w₁.counted.iterations = none →
    Executes limit (.sequence ns) w₁.counted w₂ .leaving →
    Executes limit (.repetition c ns) w w₂ .finished
  | bodyFails {w w₁ w₂ : World} {c : Node} {ns : List Node} {path : List Node} {f : Failure} :
    Decides "while" w c w₁ (.ok true) → limit.refusal? w₁.counted.iterations = none →
    Executes limit (.sequence ns) w₁.counted w₂ (.failed path f) →
    Executes limit (.repetition c ns) w w₂ (.failed path f)

end BigStep
end Scriptling
