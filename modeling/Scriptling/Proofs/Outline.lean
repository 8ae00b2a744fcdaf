import Scriptling.Proofs.Moves

/-!
# Outlines

Whether the machine can go on does not depend on the trees that it has built, nor
on the operators that wait. All that matters is which blocks and how many
parentheses are open and what has just been read: the outline of the machine.
The outline after a step is determined by the outline before it and the terminal.
-/
namespace Scriptling.ShiftReduce

/-- What a block belongs to, as far as it matters behind the block. -/
inductive Frame where
  | plain
  | thenBlock
  | body
deriving DecidableEq, Repr

/-- What an expression belongs to, as far as it matters behind the expression. -/
inductive Clause where
  | plain
  | print
  | branch
  | loop
deriving DecidableEq, Repr

/-- What an operand ends with, without the name. -/
inductive Ending where
  | closed
  | name
  | firstName
deriving DecidableEq, Repr

/-- What the machine is doing, without the trees. -/
inductive Stage where
  | boundary
  | afterThen
  | beforeParen (clause : Clause)
  | beforeName
  | beforeBrace (frame : Frame)
  | operand (clause : Clause) (parens : Nat)
  | operator (clause : Clause) (parens : Nat) (ending : Ending)
deriving DecidableEq, Repr

structure Outline where
  /-- The open blocks from the innermost. -/
  frames : List Frame
  stage : Stage
deriving DecidableEq, Repr

namespace Outline

def start : Outline := ⟨[], .boundary⟩

/-- Whether a loop is around. -/
def inLoop (o : Outline) : Bool := o.frames.contains .body

/-- The outline behind an operand or what may stand before one. -/
def takeOperand (fs : List Frame) (clause : Clause) (parens : Nat) (ending : Ending)
    (k : Terminal) : Option Outline :=
  if k = .ident then some ⟨fs, .operator clause parens ending⟩
  else if k.isOperand then some ⟨fs, .operator clause parens .closed⟩
  else if k.sign?.isSome then some ⟨fs, .operand clause parens⟩
  else if k = .leftParen then some ⟨fs, .operand clause (parens + 1)⟩
  else none

/-- The outline behind a closing brace. -/
def closeBlock : List Frame → Option Outline
  | [] => none
  | .thenBlock :: fs => some ⟨fs, .afterThen⟩
  | _ :: fs => some ⟨fs, .boundary⟩

/-- A step where a statement may begin. -/
def begin (fs : List Frame) : Terminal → Option Outline
  | .print => some ⟨fs, .beforeParen .print⟩
  | .branch => some ⟨fs, .beforeParen .branch⟩
  | .loop => some ⟨fs, .beforeParen .loop⟩
  | .input => some ⟨fs, .beforeName⟩
  | .leave => some ⟨fs, .boundary⟩
  | .leftBrace => some ⟨.plain :: fs, .boundary⟩
  | .semicolon => some ⟨fs, .boundary⟩
  | .rightBrace => closeBlock fs
  | k => takeOperand fs .plain 0 .firstName k

/-- The stage behind the closing parenthesis of a clause. -/
def afterClause : Clause → Option Stage
  | .plain => none
  | .print => some .boundary
  | .branch => some (.beforeBrace .thenBlock)
  | .loop => some (.beforeBrace .body)

/-- Whether a terminal continues an expression behind an operand. -/
def continues (ending : Ending) (k : Terminal) : Bool :=
  k.binding?.isSome || (k.updateOperator?.isSome && ending ≠ .closed)

/-- A step behind an operand. -/
def stepOperator (fs : List Frame) (clause : Clause) (parens : Nat) (ending : Ending)
    (k : Terminal) : Option Outline :=
  if continues ending k then some ⟨fs, .operand clause parens⟩
  else if k = .equal ∧ ending = .firstName then some ⟨fs, .operand .plain 0⟩
  else if k = .rightParen then
    match parens with
    | n + 1 => some ⟨fs, .operator clause n .closed⟩
    | 0 => (afterClause clause).map fun stage => ⟨fs, stage⟩
  else if clause = .plain ∧ parens = 0 then begin fs k
  else none

def step (o : Outline) (k : Terminal) : Option Outline :=
  match o.stage with
  | .boundary => begin o.frames k
  | .afterThen => if k = .otherwise then some ⟨o.frames, .beforeBrace .plain⟩ else begin o.frames k
  | .beforeParen clause => if k = .leftParen then some ⟨o.frames, .operand clause 0⟩ else none
  | .beforeName => if k = .ident then some ⟨o.frames, .boundary⟩ else none
  | .beforeBrace frame => if k = .leftBrace then some ⟨frame :: o.frames, .boundary⟩ else none
  | .operand clause parens => takeOperand o.frames clause parens .name k
  | .operator clause parens ending => stepOperator o.frames clause parens ending k

/-- Reads one token. A `break` is not read unless a loop is around. -/
def read (o : Outline) (t : Token) : Option Outline :=
  t.terminal?.bind fun k => if k = .leave ∧ o.inLoop = false then none else o.step k

/-- Reads tokens one by one. -/
def run (o : Outline) : List Token → Option Outline
  | [] => some o
  | t :: rest => (o.read t).bind fun next => next.run rest

/-- Whether a statement may begin. -/
def isReady (o : Outline) : Bool :=
  match o.stage with
  | .boundary | .afterThen => true
  | .operator clause parens _ => clause = .plain ∧ parens = 0
  | _ => false

/-- Whether a program may end. -/
def isFinal (o : Outline) : Bool :=
  o.isReady && o.frames.isEmpty

theorem run_append (o : Outline) (ts us : List Token) :
    o.run (ts ++ us) = (o.run ts).bind fun next => next.run us := by
  induction ts generalizing o with
  | nil => rfl
  | cons t ts ih =>
    rw [List.cons_append, run, run, Option.bind_assoc]
    exact Option.bind_congr fun next _ => ih next

/-- No statement begins with a terminal that cannot follow one. -/
theorem begin_eq_none {fs : List Frame} {k : Terminal}
    (h : Expected.statement.contains k = false) : begin fs k = none := by
  cases k <;> first | rfl | cases h

end Outline

def Opening.frame : Opening → Frame
  | .bare | .elseBlock .. => .plain
  | .thenBlock .. => .thenBlock
  | .body .. => .body

def Head.clause : Head → Clause
  | .print _ => .print
  | .branch _ => .branch
  | .loop _ => .loop
  | .assign .. | .evaluate _ => .plain

def Ended.ending : Ended → Ending
  | .closed => .closed
  | .name .. => .name
  | .firstName .. => .firstName

/-- The number of parentheses among what waits. -/
def Pending.parens : List Pending → Nat
  | [] => 0
  | .paren :: rest => parens rest + 1
  | _ :: rest => parens rest

def Control.stage : Control → Stage
  | .boundary _ => .boundary
  | .afterThen .. => .afterThen
  | .beforeParen head => .beforeParen head.clause
  | .beforeName _ => .beforeName
  | .beforeBrace opening => .beforeBrace opening.frame
  | .operand head pending => .operand head.clause (Pending.parens pending)
  | .operator head pending _ ended => .operator head.clause (Pending.parens pending) ended.ending

def Machine.outline (m : Machine) : Outline :=
  ⟨m.blocks.map fun block => block.1.frame, m.control.stage⟩

namespace Machine

variable {bs : List (Opening × List Grown)} {ds : List Grown} {head : Head}
  {pending : List Pending} {g : Grown} {ended : Ended} {o : Occurrence}

theorem inLoop_outline (m : Machine) : m.outline.inLoop = m.inLoop := by
  unfold Outline.inLoop inLoop looped outline
  induction m.blocks with
  | nil => rfl
  | cons block bs ih =>
    rw [List.map_cons, List.contains_cons, List.any_cons, ih]
    cases block.1 <;> rfl

theorem parens_reduce (s : Nat) (pending : List Pending) (g : Grown) :
    Pending.parens (reduce s pending g).1 = Pending.parens pending := by
  fun_induction reduce s pending g with
  | case1 rest g op s' left h ih => rw [ih, Pending.parens]; simp
  | case2 => rfl
  | case3 rest g op ih => rw [ih, Pending.parens]; simp
  | case4 rest g base ih => rw [ih, Pending.parens]; simp
  | case5 => rfl

/-- What is left when all operators have got their operands. -/
theorem reduceAll_cases (pending : List Pending) (g : Grown) :
    (∃ rest g', reduceAll pending g = (.paren :: rest, g') ∧
      Pending.parens pending = Pending.parens rest + 1) ∨
    ∃ g', reduceAll pending g = ([], g') ∧ Pending.parens pending = 0 := by
  induction pending generalizing g with
  | nil => exact .inr ⟨g, rfl, rfl⟩
  | cons p rest ih =>
    cases p with
    | paren => exact .inl ⟨rest, g, rfl, rfl⟩
    | binary op s left => exact ih _
    | signed op => exact ih _
    | power base => exact ih _
    | update x op p => exact ih _

theorem inParen_eq (head : Head) (pending : List Pending) :
    inParen head pending = !decide (head.clause = .plain ∧ Pending.parens pending = 0) := by
  induction pending with
  | nil => cases head <;> rfl
  | cons p rest ih =>
    cases p with
    | paren => simp [inParen, Pending.parens]
    | _ =>
      rw [inParen_cons (by simp), ih]
      rfl

theorem reduceAll_of_not_inParen (h : inParen head pending = false) (g : Grown) :
    ∃ g', reduceAll pending g = ([], g') := by
  rcases reduceAll_cases pending g with ⟨rest, g', -, hp⟩ | ⟨g', hr, -⟩
  · simp [inParen_eq, hp] at h
  · exact ⟨g', hr⟩

theorem isParen_of_not_inParen (h : inParen head pending = false) : head.isParen = false :=
  (Bool.or_eq_false_iff.1 h).1

theorem outline_takeOperand (ho : o.operand.isSome = o.terminal.isOperand) (m : Machine)
    (head : Head) (pending : List Pending) (first : Bool) :
    (m.takeOperand head pending first o).map outline =
      Outline.takeOperand m.outline.frames head.clause (Pending.parens pending)
        (if first then .firstName else .name) o.terminal := by
  unfold takeOperand Outline.takeOperand
  cases hop : o.operand with
  | some g =>
    have hk : o.terminal.isOperand = true := by rw [← ho, hop]; rfl
    cases ht : o.terminal <;> simp_all [Terminal.isOperand] <;> first | rfl | (cases first <;> rfl)
  | none =>
    have hk : o.terminal.isOperand = false := by rw [← ho, hop]; rfl
    cases ht : o.terminal <;> simp_all [Terminal.isOperand, Terminal.sign?] <;> rfl

theorem outline_closeBlock (m : Machine) :
    m.closeBlock.map outline = Outline.closeBlock m.outline.frames := by
  obtain ⟨bs, ds, c⟩ := m
  cases bs with
  | nil => rfl
  | cons block bs =>
    rw [closeBlock_cons]
    obtain ⟨opening, before⟩ := block
    cases opening <;> rfl

theorem outline_stepBoundary (ho : o.operand.isSome = o.terminal.isOperand) (m : Machine)
    (b : Boundary) :
    (m.stepBoundary b o).toOption.map outline = Outline.begin m.outline.frames o.terminal := by
  unfold stepBoundary
  split
  case h_8 ht =>
    rw [ht, Outline.begin, ← outline_closeBlock]
    cases m.closeBlock <;> rfl
  case h_9 =>
    rw [Outline.begin]
    · refine Eq.trans ?_ (outline_takeOperand ho m (.evaluate o.position) [] true)
      cases m.takeOperand (.evaluate o.position) [] true o <;> rfl
    all_goals assumption
  all_goals
    rename_i ht
    rw [ht]
    rfl

theorem outline_stepAfter (ho : o.operand.isSome = o.terminal.isOperand) (m : Machine) :
    (m.stepAfter head pending g ended o).toOption.map outline =
      if o.terminal = .rightParen then
        match Pending.parens pending with
        | n + 1 => some ⟨m.outline.frames, .operator head.clause n .closed⟩
        | 0 => (Outline.afterClause head.clause).map fun stage => ⟨m.outline.frames, stage⟩
      else if head.clause = .plain ∧ Pending.parens pending = 0 then
        Outline.begin m.outline.frames o.terminal
      else none := by
  unfold stepAfter
  split
  · rename_i ht
    rw [if_pos ht]
    rcases reduceAll_cases pending g with ⟨rest, g', hr, hp⟩ | ⟨g', hr, hp⟩
    · rw [hr, hp]
      rfl
    · rw [hr, hp]
      cases head <;> rfl
  · rename_i ht
    rw [if_neg ht, inParen_eq, Bool.not_not]
    by_cases hp : head.clause = .plain ∧ Pending.parens pending = 0
    · have hf : (m.endStatement head (reduceAll pending g).2).outline.frames =
          m.outline.frames := by
        cases head <;> rfl
      rw [if_pos hp, decide_eq_true hp, Bool.and_true]
      split
      · rw [outline_stepBoundary ho, hf]
      · rename_i hc
        rw [Outline.begin_eq_none (by simpa using hc)]
        rfl
    · simp [hp, Except.toOption]

theorem outline_stepOperator (ho : o.operand.isSome = o.terminal.isOperand) (m : Machine) :
    (m.stepOperator head pending g ended o).toOption.map outline =
      Outline.stepOperator m.outline.frames head.clause (Pending.parens pending) ended.ending
        o.terminal := by
  unfold Outline.stepOperator
  cases hs : o.terminal.strength? with
  | some s =>
    have hb := Terminal.binding?_of_strength? hs
    rw [stepOperator_binary hs, if_pos (by simp [Outline.continues, hb])]
    simp [outline, Control.stage, Except.toOption, Pending.parens, parens_reduce]
  | none =>
    by_cases hc : o.terminal = .caret
    · rw [stepOperator_caret hc, hc]
      rfl
    have hb : o.terminal.binding? = none := by simpa [Terminal.binding?, hc] using hs
    cases hu : o.terminal.updateOperator? with
    | some op =>
      have hk : o.terminal ≠ .equal := by
        intro h
        rw [h] at hu
        cases hu
      cases ended with
      | closed =>
        have hfin : Ended.closed.Final o.terminal := trivial
        rw [stepOperator_of_final hs hc hfin, outline_stepAfter ho]
        simp [Outline.continues, hb, hk, Ended.ending]
      | name x p =>
        rw [stepOperator_update hu (.inl rfl),
          if_pos (by simp [Outline.continues, hu, Ended.ending])]
        rfl
      | firstName x p =>
        rw [stepOperator_update hu (.inr rfl),
          if_pos (by simp [Outline.continues, hu, Ended.ending])]
        rfl
    | none =>
      rw [if_neg (by simp [Outline.continues, hb, hu])]
      by_cases he : o.terminal = .equal ∧ ended.ending = .firstName
      · cases ended with
        | firstName x p =>
          rw [stepOperator_equal he.1, if_pos he]
          rfl
        | closed => cases he.2
        | name x p => cases he.2
      · have hfin : ended.Final o.terminal := by
          cases ended with
          | closed => trivial
          | name x p => exact hu
          | firstName x p => exact ⟨hu, fun h => he ⟨h, rfl⟩⟩
        rw [if_neg he, stepOperator_of_final hs hc hfin, outline_stepAfter ho]

/-- The outline of the next machine is determined by the outline and the terminal. -/
theorem outline_step (ho : o.operand.isSome = o.terminal.isOperand) (m : Machine) :
    (m.step o).toOption.map outline = m.outline.step o.terminal := by
  obtain ⟨bs, ds, c⟩ := m
  cases c with
  | boundary b => exact outline_stepBoundary ho _ b
  | afterThen c block p =>
    by_cases hk : o.terminal = .otherwise
    · simp [step, Outline.step, outline, Control.stage, hk, Except.toOption, Opening.frame]
    · simp only [step, if_neg hk]
      rw [outline_stepBoundary ho]
      simp [Outline.step, outline, Control.stage, hk, push]
  | beforeParen head =>
    by_cases hk : o.terminal = .leftParen <;>
      simp [step, Outline.step, outline, Control.stage, hk, Except.toOption, Pending.parens]
  | beforeName p =>
    by_cases hk : o.terminal = .ident <;>
      simp [step, Outline.step, outline, Control.stage, hk, Except.toOption, push]
  | beforeBrace opening =>
    by_cases hk : o.terminal = .leftBrace <;>
      simp [step, Outline.step, outline, Control.stage, hk, Except.toOption, openBlock]
  | operand head pending =>
    rw [toOption_step_operand]
    exact outline_takeOperand ho _ head pending false
  | operator head pending g ended => exact outline_stepOperator ho _

theorem outline_move (m : Machine) (t : Token) :
    (m.move t).map outline = t.terminal?.bind m.outline.step := by
  unfold move Token.terminal?
  cases ho : Occurrence.ofToken? t with
  | none => rfl
  | some o => exact outline_step (Occurrence.isSome_operand ho) m

theorem outline_read (m : Machine) (t : Token) :
    (m.read t).toOption.map outline = m.outline.read t := by
  have hm := outline_move m t
  have hb : t.symbol.isMark "break" = true ↔ t.terminal? = some .leave :=
    Symbol.isMark_iff.trans (Token.terminal?_eq_iff (by decide)).symm
  unfold read Outline.read
  cases hk : t.terminal? with
  | none =>
    rw [hk] at hm
    cases hmv : m.move t with
    | none => rfl
    | some next => simp [hmv] at hm
  | some k =>
    rw [hk, Option.bind_some] at hm
    rw [hk, Option.some.injEq] at hb
    rw [Option.bind_some, inLoop_outline, ← hm]
    cases m.move t with
    | none => simp [Except.toOption]
    | some next =>
      by_cases hl : k = .leave ∧ m.inLoop = false
      · simp [hb.2 hl.1, hl, Except.toOption]
      · have : ¬ (t.symbol.isMark "break" = true ∧ m.inLoop = false) := by rwa [hb]
        simp [this, hl, Except.toOption]

theorem isSome_finish (m : Machine) : m.finish.toOption.isSome = m.outline.isFinal := by
  obtain ⟨bs, ds, c⟩ := m
  cases c with
  | operator head pending g ended =>
    rw [toOption_finish_operator (.boundary .start), inParen_eq]
    by_cases hp : head.clause = .plain ∧ Pending.parens pending = 0
    · have hh : head.isParen = false := by cases head <;> first | rfl | cases hp.1
      have hf : Outline.isFinal (outline ⟨bs, ds, .operator head pending g ended⟩) =
          bs.isEmpty := by
        simp [hp, Outline.isFinal, Outline.isReady, outline, Control.stage]
      rw [hf, decide_eq_true hp]
      rcases Head.cases_of_isParen hh with ⟨x, p, rfl⟩ | ⟨p, rfl⟩
      · cases bs <;> rfl
      · cases bs <;> rfl
    · simp [hp, Outline.isFinal, Outline.isReady, outline, Control.stage]
  | _ => cases bs <;> rfl

end Machine
end Scriptling.ShiftReduce
