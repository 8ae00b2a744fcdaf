import Scriptling.Proofs.Acceptance
import Scriptling.Proofs.Survey

/-!
# Statements on top of others

The machine never looks at statements that it has finished. So it reads tokens in the same way
whatever statements stand at the bottom of what it has read, and these stay where they are.
Where a program may end, the machine can be made to finish its last statement at once: at a
token that begins a program it moves as it would have moved at the start, unless that token is
a minus, which the last expression takes for itself.
-/
namespace Scriptling.ShiftReduce

/-- A terminal that begins a program continues no statement before it, unless it is a minus. -/
theorem Outline.terminal_of_begin {k : Terminal} (h : (begin [] k).isSome = true) :
    Expected.statement.contains k = true ∧ k ≠ .otherwise ∧ k.updateOperator? = none ∧
      k ≠ .equal ∧ (k = .minus ∨ k.strength? = none ∧ k ≠ .caret) := by
  revert h
  cases k <;> decide

namespace Machine

variable {m : Machine} {t : Token} {o : Occurrence} {ds : List Grown}

/-- Puts statements under those that stand before the outermost block. -/
def under (ds : List Grown) : List (Opening × List Grown) → List (Opening × List Grown)
  | [] => []
  | [(opening, before)] => [(opening, before ++ ds)]
  | block :: blocks => block :: under ds blocks

/-- The machine with further statements at the very bottom. -/
def on (ds : List Grown) : Machine → Machine
  | ⟨[], done, c⟩ => ⟨[], done ++ ds, c⟩
  | ⟨blocks, done, c⟩ => ⟨under ds blocks, done, c⟩

theorem inBlock_on (m : Machine) : (m.on ds).inBlock = m.inBlock := by
  obtain ⟨blocks, done, c⟩ := m
  match blocks with
  | [] => rfl
  | [_] => rfl
  | _ :: _ :: _ => rfl

theorem control_on (m : Machine) : (m.on ds).control = m.control := by
  obtain ⟨blocks, done, c⟩ := m
  cases blocks <;> rfl

theorem withControl_on (m : Machine) (c : Control) :
    { m.on ds with control := c } = on ds { m with control := c } := by
  obtain ⟨blocks, done, c⟩ := m
  cases blocks <;> rfl

theorem push_on (m : Machine) (d : Grown) (b : Boundary) :
    (m.on ds).push d b = (m.push d b).on ds := by
  obtain ⟨blocks, done, c⟩ := m
  cases blocks <;> rfl

theorem openBlock_on (m : Machine) (opening : Opening) :
    (m.on ds).openBlock opening = (m.openBlock opening).on ds := by
  obtain ⟨blocks, done, c⟩ := m
  cases blocks <;> rfl

theorem closeBlock_on (m : Machine) : (m.on ds).closeBlock = m.closeBlock.map (on ds) := by
  obtain ⟨blocks, done, c⟩ := m
  match blocks with
  | [] => rfl
  | [(opening, before)] => cases opening <;> rfl
  | (opening, before) :: next :: blocks =>
    obtain ⟨opening', before'⟩ := next
    cases opening <;> cases blocks <;> rfl

theorem takeOperand_on (m : Machine) (head : Head) (pending : List Pending) (first : Bool) :
    (m.on ds).takeOperand head pending first o =
      (m.takeOperand head pending first o).map (on ds) := by
  unfold takeOperand
  simp only [withControl_on]
  repeat' split
  all_goals rfl

theorem expectedAtBoundary_on (m : Machine) (b : Boundary) (k : Terminal) :
    (m.on ds).expectedAtBoundary b k = m.expectedAtBoundary b k := by
  simp only [expectedAtBoundary, inBlock_on]

theorem stepBoundary_on (m : Machine) (b : Boundary) :
    (m.on ds).stepBoundary b o = (m.stepBoundary b o).map (on ds) := by
  unfold stepBoundary
  rw [closeBlock_on, takeOperand_on, expectedAtBoundary_on]
  simp only [withControl_on, push_on, openBlock_on]
  split
  case h_8 => cases m.closeBlock <;> rfl
  case h_9 => cases m.takeOperand (.evaluate o.position) [] true o <;> rfl
  all_goals rfl

theorem endStatement_on (m : Machine) (head : Head) (g : Grown) :
    (m.on ds).endStatement head g = (m.endStatement head g).on ds := by
  cases head with
  | branch p => exact withControl_on m _
  | loop p => exact withControl_on m _
  | _ => exact push_on m _ _

theorem stepAfter_on (m : Machine) (head : Head) (pending : List Pending) (g : Grown)
    (ended : Ended) :
    (m.on ds).stepAfter head pending g ended o =
      (m.stepAfter head pending g ended o).map (on ds) := by
  unfold stepAfter expectedAfter
  simp only [withControl_on, endStatement_on, stepBoundary_on, inBlock_on]
  repeat' split
  all_goals rfl

theorem stepOperator_on (m : Machine) (head : Head) (pending : List Pending) (g : Grown)
    (ended : Ended) :
    (m.on ds).stepOperator head pending g ended o =
      (m.stepOperator head pending g ended o).map (on ds) := by
  unfold stepOperator
  simp only [withControl_on, stepAfter_on]
  repeat' split
  all_goals rfl

/-- Finished statements do not matter to a step. -/
theorem step_on (m : Machine) : (m.on ds).step o = (m.step o).map (on ds) := by
  unfold step
  rw [control_on]
  simp only [withControl_on, push_on, openBlock_on, stepBoundary_on, takeOperand_on,
    stepOperator_on]
  cases m.control with
  | boundary b => rfl
  | operator head pending g ended => rfl
  | operand head pending =>
    dsimp only
    cases m.takeOperand head pending false o <;> rfl
  | _ =>
    dsimp only
    split <;> rfl

theorem outline_on (m : Machine) : (m.on ds).outline = m.outline := by
  have hframes : ∀ blocks, (under ds blocks).map (·.1.frame) = blocks.map (·.1.frame) := by
    intro blocks
    fun_induction under ds blocks with
    | case1 => rfl
    | case2 => rfl
    | case3 block blocks _ ih => rw [List.map_cons, ih, List.map_cons]
  obtain ⟨blocks, done, c⟩ := m
  cases blocks with
  | nil => rfl
  | cons block blocks => exact congrArg (Outline.mk · _) (hframes (block :: blocks))

theorem inLoop_on (m : Machine) : (m.on ds).inLoop = m.inLoop := by
  rw [← inLoop_outline, ← inLoop_outline, outline_on]

theorem move_on (m : Machine) (t : Token) : (m.on ds).move t = (m.move t).map (on ds) := by
  unfold move
  cases Occurrence.ofToken? t with
  | none => rfl
  | some o =>
    rw [Option.bind_some, Option.bind_some, step_on]
    cases m.step o <;> rfl

theorem toOption_read (m : Machine) (t : Token) :
    (m.read t).toOption = if t.symbol.isMark "break" && !m.inLoop then none else m.move t := by
  unfold read
  cases m.move t with
  | none => simp [Except.toOption]
  | some next =>
    dsimp only
    split <;> rfl

theorem toOption_read_on (m : Machine) (t : Token) :
    ((m.on ds).read t).toOption = (m.read t).toOption.map (on ds) := by
  rw [toOption_read, toOption_read, inLoop_on, move_on]
  split <;> rfl

/-- Reads tokens one by one. -/
def readAll (m : Machine) : List Token → Option Machine
  | [] => some m
  | t :: ts => (m.read t).toOption.bind fun next => next.readAll ts

theorem readAll_append (m : Machine) (ts us : List Token) :
    m.readAll (ts ++ us) = (m.readAll ts).bind fun next => next.readAll us := by
  induction ts generalizing m with
  | nil => rfl
  | cons t ts ih =>
    rw [List.cons_append, readAll, readAll, Option.bind_assoc]
    exact Option.bind_congr fun next _ => ih next

theorem readAll_on (m : Machine) (ts : List Token) :
    (m.on ds).readAll ts = (m.readAll ts).map (on ds) := by
  induction ts generalizing m with
  | nil => rfl
  | cons t ts ih =>
    rw [readAll, readAll, toOption_read_on]
    cases (m.read t).toOption with
    | none => rfl
    | some next => exact ih next

theorem outline_readAll (m : Machine) (ts : List Token) :
    (m.readAll ts).map outline = m.outline.run ts := by
  induction ts generalizing m with
  | nil => rfl
  | cons t ts ih =>
    rw [readAll, Outline.run, ← outline_read]
    cases (m.read t).toOption with
    | none => rfl
    | some next => exact ih next

/-- The verdict on tokens that can be read is that on what follows them. -/
theorem verdict_of_readAll {ts : List Token} {next : Machine} (h : m.readAll ts = some next)
    (more : List Token) (failure : Option Error) :
    m.verdict ⟨ts ++ more, failure⟩ = next.verdict ⟨more, failure⟩ := by
  induction ts generalizing m with
  | nil =>
    cases h
    rfl
  | cons t ts ih =>
    obtain ⟨next', hread, h⟩ := Option.bind_eq_some_iff.1 h
    have houtline : m.outline.read t = some next'.outline := by
      rw [← outline_read, hread]
      rfl
    rw [List.cons_append, verdict_cons (Outline.isFinish_of_read houtline)]
    cases hr : m.read t with
    | error e => simp [hr, Except.toOption] at hread
    | ok next'' =>
      cases hr ▸ hread
      exact ih h

/-- A favourable verdict is reached by reading every token. -/
theorem exists_readAll_of_verdict {ts : List Token} {p : Position} {g : Grown}
    (hts : ∀ t ∈ ts, t.symbol.isFinish = false) (h : m.verdict (.whole ts p) = .ok g) :
    ∃ next, m.readAll ts = some next ∧ next.finish.toOption = some g := by
  induction ts generalizing m with
  | nil =>
    refine ⟨m, rfl, ?_⟩
    have hclose : m.close ⟨.finish, p⟩ = .ok g := h
    unfold close at hclose
    cases hf : m.finish.toOption with
    | none => simp [hf] at hclose
    | some g' =>
      rw [hf] at hclose
      cases hclose
      rfl
  | cons t ts ih =>
    rw [Stream.whole, List.cons_append, verdict_cons (hts t List.mem_cons_self)] at h
    cases hr : m.read t with
    | error e => simp [hr] at h
    | ok next' =>
      rw [hr] at h
      obtain ⟨next, hnext, hfinish⟩ := ih (fun u hu => hts u (List.mem_cons_of_mem _ hu)) h
      refine ⟨next, ?_, hfinish⟩
      rw [readAll, hr]
      exact hnext

/-- The machine with its last statement finished, where this is possible. -/
def settle (m : Machine) : Machine :=
  match m.control with
  | .afterThen condition block p => m.push (branchOf condition block none p) .brace
  | .operator head pending g _ => m.endStatement head (reduceAll pending g).2
  | _ => m

/-- What the machine is doing where a program may end. -/
inductive Final : Machine → Prop where
  | boundary (done : List Grown) (b : Boundary) : Final ⟨[], done, .boundary b⟩
  | afterThen (done : List Grown) (condition block : Grown) (p : Position) :
    Final ⟨[], done, .afterThen condition block p⟩
  | operator (done : List Grown) {head : Head} {pending : List Pending} (g : Grown)
    (ended : Ended) : inParen head pending = false →
    Final ⟨[], done, .operator head pending g ended⟩

theorem final_of_isFinal (h : m.outline.isFinal = true) : m.Final := by
  obtain ⟨blocks, done, c⟩ := m
  obtain ⟨hready, hblocks⟩ := Bool.and_eq_true_iff.1 h
  obtain rfl : blocks = [] := by simpa [outline] using hblocks
  cases c with
  | boundary b => exact .boundary done b
  | afterThen condition block p => exact .afterThen done condition block p
  | operator head pending g ended =>
    refine .operator done g ended ?_
    rw [inParen_eq]
    simpa [Outline.isReady, outline, Control.stage] using hready
  | _ => cases hready

theorem Final.settle_eq (h : m.Final) : ∃ b, m.settle = ⟨[], m.settle.done, .boundary b⟩ := by
  cases h with
  | boundary done b => exact ⟨b, rfl⟩
  | afterThen done condition block p => exact ⟨.brace, rfl⟩
  | operator done g ended hparen =>
    rcases Head.cases_of_isParen (isParen_of_not_inParen hparen) with ⟨x, p, rfl⟩ | ⟨p, rfl⟩
    · exact ⟨.separator, rfl⟩
    · exact ⟨.separator, rfl⟩

theorem Final.toOption_finish (h : m.Final) :
    m.finish.toOption =
      some (.above (.program (m.settle.done.reverse.map (·.node))) m.settle.done.reverse) := by
  obtain ⟨b, hb⟩ := h.settle_eq
  have hsettle : m.settle.finish.toOption = some (.above
      (.program (m.settle.done.reverse.map (·.node))) m.settle.done.reverse) := by
    rw [hb, toOption_finish_boundary]
    rfl
  rw [← hsettle]
  cases h with
  | boundary done b => rfl
  | afterThen done condition block p => rfl
  | operator done g ended hparen =>
    rw [toOption_finish_operator (.operator _ _ g ended), hparen, if_neg Bool.false_ne_true]
    rfl

/-- What begins a statement depends only on the blocks and the finished statements. -/
theorem toOption_stepBoundary_congr (blocks : List (Opening × List Grown)) (done : List Grown)
    (c c' : Control) (b b' : Boundary) :
    (stepBoundary ⟨blocks, done, c⟩ b o).toOption =
      (stepBoundary ⟨blocks, done, c'⟩ b' o).toOption := by
  have hclose : closeBlock ⟨blocks, done, c⟩ = closeBlock ⟨blocks, done, c'⟩ := by
    cases blocks with
    | nil => rfl
    | cons block blocks => rw [closeBlock_cons, closeBlock_cons]
  have htake : takeOperand ⟨blocks, done, c⟩ (.evaluate o.position) [] true o =
      takeOperand ⟨blocks, done, c'⟩ (.evaluate o.position) [] true o := rfl
  unfold stepBoundary
  rw [hclose, htake]
  split
  case h_8 => cases closeBlock ⟨blocks, done, c'⟩ <;> rfl
  case h_9 => cases takeOperand ⟨blocks, done, c'⟩ (.evaluate o.position) [] true o <;> rfl
  all_goals rfl

/-- Where a program may end, the machine goes on as if it had just begun, but on top of the
statements before. Only a minus behind an operand is taken for an operator. -/
theorem Final.toOption_read_eq (h : m.Final) {k : Terminal} (ht : t.terminal? = some k)
    (hk : (Outline.begin [] k).isSome = true)
    (hminus : ¬ (m.control.hasOperand = true ∧ k = .minus)) :
    (m.read t).toOption = ((start.on m.settle.done).read t).toOption := by
  obtain ⟨o, ho, rfl⟩ := Option.map_eq_some_iff.1 ht
  obtain ⟨hstatement, helse, hupdate, hequal, hbinds⟩ := Outline.terminal_of_begin hk
  have hloop : m.inLoop = (start.on m.settle.done).inLoop := by cases h <;> rfl
  rw [toOption_read, toOption_read, hloop, move, move, ho, Option.bind_some, Option.bind_some]
  congr 1
  obtain ⟨b, hb⟩ := h.settle_eq
  have hstart : (start.on m.settle.done).step o =
      stepBoundary ⟨[], m.settle.done, .boundary .start⟩ .start o := rfl
  rw [hstart]
  cases h with
  | boundary done b => exact toOption_stepBoundary_congr _ _ _ _ _ _
  | afterThen done condition block p =>
    simp only [step, if_neg helse]
    exact toOption_stepBoundary_congr _ _ _ _ _ _
  | @operator done head pending g ended hparen =>
    obtain ⟨hstrength, hcaret⟩ : o.terminal.strength? = none ∧ o.terminal ≠ .caret :=
      hbinds.resolve_left fun hk => hminus ⟨rfl, hk⟩
    have hfinal : ended.Final o.terminal := by
      cases ended with
      | closed => trivial
      | name x p => exact hupdate
      | firstName x p => exact ⟨hupdate, hequal⟩
    have hright : o.terminal ≠ .rightParen := by
      intro hright
      rw [hright] at hstatement
      cases hstatement
    -- The token ends the expression, since no parenthesis is open, and is read at the boundary.
    have hafter : step ⟨[], done, .operator head pending g ended⟩ o =
        (settle ⟨[], done, .operator head pending g ended⟩).stepBoundary .separator o := by
      simp only [step, stepOperator_of_final hstrength hcaret hfinal, stepAfter, hstatement, hparen,
        Bool.not_false, Bool.and_self, if_true]
      rfl
    rw [hafter, hb]
    exact toOption_stepBoundary_congr _ _ _ _ _ _

theorem settle_on (m : Machine) : (m.on ds).settle = (m.settle).on ds := by
  unfold settle
  rw [control_on]
  cases m.control with
  | afterThen condition block p => exact push_on m _ _
  | operator head pending g ended => exact endStatement_on m _ _
  | _ => rfl

/-- Whether a token begins a program, but continues no statement before it. -/
def Separate (m : Machine) (t : Token) : Prop :=
  ∃ k, t.terminal? = some k ∧ (Outline.begin [] k).isSome = true ∧
    ¬ (m.control.hasOperand = true ∧ k = .minus)

/-- What is read behind a program is read on top of its statements. -/
theorem readAll_cons_of_isFinal (h : m.outline.isFinal = true) (ht : m.Separate t)
    (ts : List Token) :
    m.readAll (t :: ts) = (start.readAll (t :: ts)).map (on m.settle.done) := by
  obtain ⟨k, hk, hbegin, hminus⟩ := ht
  rw [← readAll_on, readAll, readAll, (final_of_isFinal h).toOption_read_eq hk hbegin hminus]

theorem terminal_of_start {next : Machine} (h : (start.read t).toOption = some next) :
    ∃ k, t.terminal? = some k ∧ (Outline.begin [] k).isSome = true := by
  have houtline : Outline.start.read t = some next.outline := by
    rw [← show start.outline = Outline.start from rfl, ← outline_read, h]
    rfl
  obtain ⟨k, hk, hread⟩ := Option.bind_eq_some_iff.1 houtline
  refine ⟨k, hk, ?_⟩
  split at hread
  · cases hread
  · have hbegin : Outline.begin [] k = some next.outline := hread
    rw [hbegin]
    rfl

/-- Whether a program of the given statements is built of tokens. -/
def Builds (ts : List Token) (ns : List Node) : Prop :=
  ∃ m, start.readAll ts = some m ∧ m.outline.isFinal = true ∧
    m.settle.done.reverse.map (·.node) = ns

theorem Builds.append {ts us : List Token} {ns ns' : List Node} (hm : start.readAll ts = some m)
    (hfinal : m.outline.isFinal = true) (hns : m.settle.done.reverse.map (·.node) = ns)
    (h : Builds us ns') (hseam : ∀ t ∈ us.head?, m.Separate t) : Builds (ts ++ us) (ns ++ ns') := by
  obtain ⟨m', hm', hfinal', rfl⟩ := h
  cases us with
  | nil =>
    cases hm'
    refine ⟨m, by rwa [List.append_nil], hfinal, ?_⟩
    rw [hns]
    exact (List.append_nil ns).symm
  | cons t us =>
    refine ⟨m'.on m.settle.done, ?_, ?_, ?_⟩
    · rw [readAll_append, hm, Option.bind_some, readAll_cons_of_isFinal hfinal (hseam t rfl), hm']
      rfl
    · rwa [outline_on]
    · obtain ⟨b, hb⟩ := (final_of_isFinal hfinal').settle_eq
      rw [settle_on, hb, ← hns]
      simp [on]

end Machine
end Scriptling.ShiftReduce
