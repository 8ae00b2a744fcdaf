import Scriptling.Proofs.Observation

/-!
# The levels of a trace

Tracing changes nothing but the trace, and what a lower level traces is a part of what a
higher one does. To see this, look at a state as if events up to a level had been traced
only. A run at that level, from the state as it is seen, is the run at the higher level,
seen in the same way: the two agree action by action, since the only one that looks at the
level is to record an event.
-/
namespace Scriptling

theorem Event.level_pos (e : Event) : 0 < e.level := by
  cases e <;> exact Nat.succ_pos _

namespace Trace

/-- What is left of a trace without the events above a level. -/
def upTo (level : Nat) : Trace → Trace
  | .none => .none
  | .closed es => .closed (es.filter (·.level ≤ level))
  | .opened es => .opened (es.filter (·.level ≤ level))

theorem upTo_add (level : Nat) (e : Event) (t : Trace) :
    (t.add e).upTo level = if e.level ≤ level then (t.upTo level).add e else t.upTo level := by
  cases t with
  | opened es => by_cases h : e.level ≤ level <;> simp [add, upTo, h]
  | _ => simp [add, upTo]

theorem upTo_close (level : Nat) (t : Trace) : t.close.upTo level = (t.upTo level).close := by
  cases t <;> rfl

theorem upTo_reopen (level : Nat) (t : Trace) : t.reopen.upTo level = (t.upTo level).reopen := by
  cases t <;> simp [reopen, upTo]

end Trace

/-- A state as it is seen if events up to a level are traced. At level zero there is no
trace. -/
def State.upTo (level : Nat) (s : State) : State :=
  { s with trace := if 0 < level then s.trace.upTo level else .none }

/-- A state after an event has been recorded, if it is one to be traced at a level. -/
def State.recorded (level : Nat) (e : Event) (s : State) : State :=
  if e.level ≤ level then { s with trace := s.trace.add e } else s

/-- A state after the last event of a run. -/
def State.concluded (level : Nat) (e : Event) (s : State) : State :=
  { s.recorded level e with trace := (s.recorded level e).trace.close }

theorem Run.record_apply (settings : Settings) (e : Event) (s : State) :
    record settings e s = .ok () (s.recorded settings.level e) := by
  unfold record State.recorded
  split <;> rfl

/-- How a run ends, by the end of its statements. -/
theorem conclude_apply (settings : Settings) (body : Run Unit) (s : State) :
    conclude settings body s =
      match body s with
      | .ok _ s' => .ok () (s'.concluded settings.level (.finished s'.env.size))
      | .error (.failure (.error e)) s' =>
        .error (.failure (.error e)) (s'.concluded settings.level (.aborted e))
      | .error .leaving s' =>
        .error (.failure (.ofCause .strayBreak))
          (s'.concluded settings.level (.aborted (.unplaced .strayBreak)))
      | .error .tooDeep s' =>
        .error (.failure (.ofCause .nestedTree))
          (s'.concluded settings.level (.aborted (.unplaced .nestedTree)))
      | .error (.failure (.fault f)) s' =>
        .error (.failure (.fault f)) { s' with trace := s'.trace.close }
      | .error .outOfSteps s' => .error .outOfSteps { s' with trace := s'.trace.close } := rfl

/-- An event is seen in a trace at its level and above. -/
theorem State.upTo_recorded {j k : Nat} (h : j ≤ k) (e : Event) (s : State) :
    (s.recorded k e).upTo j = (s.upTo j).recorded j e := by
  have hpos := e.level_pos
  have hadd := s.trace.upTo_add j e
  unfold recorded
  by_cases hj : e.level ≤ j
  · rw [if_pos hj] at hadd
    rw [if_pos hj, if_pos (Nat.le_trans hj h)]
    simp only [upTo, if_pos (Nat.lt_of_lt_of_le hpos hj), hadd]
  · rw [if_neg hj] at hadd
    rw [if_neg hj]
    split
    · simp only [upTo, hadd]
    · rfl

theorem State.upTo_close (level : Nat) (s : State) :
    State.upTo level { s with trace := s.trace.close } =
      { s.upTo level with trace := (s.upTo level).trace.close } := by
  by_cases hl : 0 < level
  · simp only [upTo, if_pos hl, Trace.upTo_close]
  · simp only [upTo, if_neg hl, Trace.close]

theorem State.upTo_concluded {j k : Nat} (h : j ≤ k) (e : Event) (s : State) :
    (s.concluded k e).upTo j = (s.upTo j).concluded j e := by
  rw [concluded, upTo_close, upTo_recorded h]
  rfl

/-- The state in which the statements of a program start, seen at a level. -/
theorem State.upTo_started {j k : Nat} (h : j ≤ k) (s : State) :
    (s.started k).upTo j = (s.upTo j).started j := by
  by_cases hj : 0 < j
  · simp only [upTo, started, if_pos hj, if_pos (Nat.lt_of_lt_of_le hj h), Trace.upTo_reopen]
  · simp only [upTo, started, if_neg hj]

/-- The end of an action, with its state as it is seen at a level. -/
def resultUpTo {α : Type} (level : Nat) :
    EStateM.Result Stop State α → EStateM.Result Stop State α
  | .ok a s => .ok a (s.upTo level)
  | .error e s => .error e (s.upTo level)

/-- What is seen of an end apart from the trace is seen at every level. -/
theorem observed_resultUpTo {α : Type} (level : Nat) (r : EStateM.Result Stop State α) :
    observed (resultUpTo level r) = observed r := by
  cases r <;> rfl

theorem endState_resultUpTo {α : Type} (level : Nat) (r : EStateM.Result Stop State α) :
    endState (resultUpTo level r) = (endState r).upTo level := by
  cases r <;> rfl

/-- Whether an action is another one, as that is seen at a level. -/
def SeenAs {α : Type} (level : Nat) (coarse fine : Run α) : Prop :=
  ∀ s : State, coarse (s.upTo level) = resultUpTo level (fine s)

namespace SeenAs

variable {level : Nat} {α β : Type}

theorem pure (a : α) : SeenAs level (pure a) (pure a) := fun _ => rfl

theorem throw (e : Stop) : SeenAs level (throw e) (throw e : Run α) := fun _ => rfl

theorem bind {coarse fine : Run α} {k k' : α → Run β} (h : SeenAs level coarse fine)
    (hk : ∀ a, SeenAs level (k a) (k' a)) : SeenAs level (coarse >>= k) (fine >>= k') := by
  intro s
  have hs := h s
  cases hf : fine s with
  | ok a s' =>
    rw [hf] at hs
    rw [bind_of_ok hf, bind_of_ok hs]
    exact hk a s'
  | error e s' =>
    rw [hf] at hs
    rw [bind_of_error hf, bind_of_error hs]
    rfl

/-- A change of the state that has nothing to do with the trace. -/
theorem modify {f : State → State} (h : ∀ s : State, f (s.upTo level) = (f s).upTo level) :
    SeenAs level (modify f : Run Unit) (modify f) :=
  fun s => congrArg (EStateM.Result.ok ()) (h s)

theorem ofExcept (r : Except Failure α) : SeenAs level (Run.ofExcept r) (Run.ofExcept r) := by
  cases r with
  | ok a => exact .pure a
  | error f => exact .throw _

theorem write (line : String) : SeenAs level (Run.write line) (Run.write line) :=
  .modify fun _ => rfl

theorem readLine? : SeenAs level Run.readLine? Run.readLine? := by
  intro s
  have hp : (s.upTo level).pending = s.pending := rfl
  rw [Run.readLine?, bind_get, bind_get, hp]
  cases s.pending <;> rfl

theorem variableOf (name : Json) : SeenAs level (Run.variableOf name) (Run.variableOf name) := by
  unfold Run.variableOf
  split
  · exact .pure _
  · exact .throw _

theorem setVariable (name : Json) (v : Value) :
    SeenAs level (Run.setVariable name v) (Run.setVariable name v) :=
  .bind (.variableOf name) fun _ => .modify fun _ => rfl

theorem lookup (name : Json) (m : Mark) :
    SeenAs level (Run.lookup name m) (Run.lookup name m) := by
  refine .bind (.variableOf name) fun x s => ?_
  have he : (s.upTo level).env = s.env := rfl
  rw [bind_get, bind_get, he]
  cases s.env.get? x <;> rfl

/-- The limit is held against the count, which is the same. -/
theorem countIteration (j k : Nat) (limit : Limit) :
    SeenAs level (Run.countIteration ⟨j, limit⟩) (Run.countIteration ⟨k, limit⟩) := by
  intro s
  rw [Run.countIteration_refusal, Run.countIteration_refusal]
  have hcount : (s.upTo level).counted.iterations = s.counted.iterations := rfl
  simp only [hcount]
  cases limit.refusal? s.counted.iterations <;> rfl

theorem placing (m : Mark) {coarse fine : Run α} (h : SeenAs level coarse fine) :
    SeenAs level (Run.placing m coarse) (Run.placing m fine) := by
  intro s
  unfold Run.placing
  rw [h s]
  rcases fine s with ⟨a, s'⟩ | ⟨(e | f) | _ | _ | _, s'⟩ <;> rfl

theorem leaves {coarse fine : Run Unit} (h : SeenAs level coarse fine) :
    SeenAs level (Run.leaves coarse) (Run.leaves fine) := by
  intro s
  unfold Run.leaves
  rw [h s]
  rcases fine s with ⟨a, s'⟩ | ⟨f | _ | _ | _, s'⟩ <;> rfl

theorem repeatWhile {test test' : Run Bool} {body body' : Run Unit}
    (ht : SeenAs level test test') (hb : SeenAs level body body') (steps : Nat) :
    SeenAs level (Run.repeatWhile test body steps) (Run.repeatWhile test' body' steps) := by
  induction steps with
  | zero => exact .throw _
  | succ steps ih =>
    refine .bind ht fun b => ?_
    cases b with
    | false => exact .pure ()
    | true =>
      refine .bind (.leaves hb) fun left => ?_
      cases left with
      | false => exact ih
      | true => exact .pure ()

theorem inOrder {run run' : Node → Run Unit} (h : ∀ n, SeenAs level (run n) (run' n))
    (ns : List Node) : SeenAs level (inOrder run ns) (inOrder run' ns) := by
  induction ns with
  | nil => exact .pure ()
  | cons n ns ih => exact .bind (h n) fun _ => ih

theorem inBlock {run run' : Node → Run Unit} (h : ∀ n, SeenAs level (run n) (run' n))
    (n : Node) : SeenAs level (inBlock run n) (inBlock run' n) := by
  cases n with
  | block ns => exact .inOrder h ns
  | _ => exact .throw _

end SeenAs

namespace SeenAs

variable {j k : Nat}

/-- A run at a lower level records what is seen at that level. -/
theorem record (h : j ≤ k) (limit : Limit) (e : Event) :
    SeenAs j (Run.record ⟨j, limit⟩ e) (Run.record ⟨k, limit⟩ e) := by
  intro s
  rw [Run.record_apply, Run.record_apply]
  exact congrArg (EStateM.Result.ok ()) (State.upTo_recorded h e s).symm

theorem eval (h : j ≤ k) (limit : Limit) (depth : Nat) (node : Node) :
    SeenAs j (eval ⟨j, limit⟩ depth node) (eval ⟨k, limit⟩ depth node) := by
  induction depth generalizing node with
  | zero => exact .throw _
  | succ depth ih =>
    cases node with
    | number x => exact .pure _
    | string s => exact .pure _
    | bool b => exact .pure _
    | ident name m => exact .lookup name m
    | binary op left right =>
      exact .bind (ih left) fun _ => .bind (ih right) fun _ => .ofExcept _
    | unary op operand => exact .bind (ih operand) fun _ => .ofExcept _
    | update name op value m =>
      exact .bind (.lookup name m) fun _ => .bind (ih value) fun _ => .bind (.ofExcept _) fun _ =>
        .bind (.setVariable name _) fun _ => .bind (.record h limit _) fun _ => .pure _
    | _ => exact .throw _

theorem evalCondition (h : j ≤ k) (limit : Limit) (depth : Nat) (construct : String)
    (node : Node) : SeenAs j (evalCondition ⟨j, limit⟩ depth construct node)
      (evalCondition ⟨k, limit⟩ depth construct node) := by
  refine .bind (.eval h limit depth node) fun v => .bind (.record h limit _) fun _ => ?_
  cases v with
  | bool b => exact .pure b
  | _ => exact .throw _

theorem exec (h : j ≤ k) (limit : Limit) (steps depth : Nat) (node : Node) :
    SeenAs j (exec ⟨j, limit⟩ steps depth node) (exec ⟨k, limit⟩ steps depth node) := by
  induction depth using Nat.strongRecOn generalizing node with
  | ind depth ih =>
    match depth with
    | 0 | 1 | 2 => exact .throw _
    | depth + 3 =>
      have inner : ∀ n, SeenAs j (Scriptling.exec ⟨j, limit⟩ steps depth n)
          (Scriptling.exec ⟨k, limit⟩ steps depth n) := fun n => ih depth (by omega) n
      refine .bind (.record h limit _) fun _ => .placing node.mark ?_
      cases node with
      | print value m =>
        exact .bind (.eval h limit _ value) fun _ => .bind (.record h limit _) fun _ => .write _
      | input name m =>
        refine .bind .readLine? fun line? => ?_
        cases line? with
        | some line => exact .bind (.setVariable name _) fun _ => .record h limit _
        | none => exact .throw _
      | assign name value m =>
        exact .bind (.eval h limit _ value) fun _ => .bind (.setVariable name _) fun _ =>
          .record h limit _
      | branch condition thenBlock elseBlock m =>
        refine .bind (.evalCondition h limit _ "if" condition) fun c => ?_
        cases c with
        | true => exact .inBlock inner thenBlock
        | false =>
          simp only [Bool.false_eq_true, if_false]
          split
          · exact .pure ()
          · exact .inBlock inner elseBlock
      | loop condition body m =>
        exact .repeatWhile (.evalCondition h limit _ "while" condition)
          (.bind (.countIteration j k limit) fun _ => .inBlock inner body) steps
      | leave m => exact .throw _
      | evaluate value m => exact .bind (.eval h limit _ value) fun _ => .pure ()
      | block statements => exact .inOrder inner statements
      | _ => exact .throw _

theorem conclude (h : j ≤ k) (limit : Limit) {coarse fine : Run Unit}
    (hb : SeenAs j coarse fine) :
    SeenAs j (conclude ⟨j, limit⟩ coarse) (conclude ⟨k, limit⟩ fine) := by
  intro s
  rw [conclude_apply, conclude_apply, hb s]
  rcases fine s with ⟨_, s'⟩ | ⟨(e | f) | _ | _ | _, s'⟩ <;> dsimp only [resultUpTo]
  · rw [State.upTo_concluded h]
    rfl
  · rw [State.upTo_concluded h]
  · rw [State.upTo_close]
  · rw [State.upTo_concluded h]
  · rw [State.upTo_concluded h]
  · rw [State.upTo_close]

/-- A run at a lower level is the run at a higher one, as it is seen at the lower. -/
theorem runWithin (h : j ≤ k) (limit : Limit) (steps depth : Nat) (program : Node) :
    SeenAs j (runWithin ⟨j, limit⟩ steps depth program)
      (runWithin ⟨k, limit⟩ steps depth program) := by
  have afterStart : ∀ {coarse fine : Run Unit}, SeenAs j coarse fine → ∀ s : State,
      coarse ((s.upTo j).started j) = resultUpTo j (fine (s.started k)) :=
    fun hrun s => State.upTo_started h s ▸ hrun (s.started k)
  intro s
  cases program with
  | program body =>
    exact afterStart (.bind (.record h limit _) fun _ =>
      .conclude h limit (.inOrder (.exec h limit steps depth) body)) s
  | loop condition body m => exact afterStart (.throw (.failure (.fault (.bodyNotList _)))) s
  | _ => exact afterStart (.throw (.failure (.fault (.notProgram _)))) s

end SeenAs

/-- Tracing does not influence a run, and its levels are nested. Whatever the tree, the run
has the same end, output, input left, variables and iterations at two levels, and the trace
at the lower one is the trace at the higher one without the events above it. At level zero
there is no trace. -/
theorem trace_levels_nested {j k : Nat} (h : j ≤ k) (limit : Limit) (steps depth : Nat)
    (program : Node) (b : Buffer) :
    let run (level : Nat) := runWithin ⟨level, limit⟩ steps depth program (.initial b)
    observed (run j) = observed (run k) ∧
      (0 < j → (endState (run j)).trace = (endState (run k)).trace.upTo j) ∧
      (j = 0 → (endState (run j)).trace = .none) := by
  intro run
  have hstart : (State.initial b).upTo j = .initial b := by
    unfold State.upTo State.initial
    split <;> rfl
  have hrun : run j = resultUpTo j (run k) := by
    have hseen := SeenAs.runWithin h limit steps depth program (.initial b)
    rwa [hstart] at hseen
  rw [hrun, observed_resultUpTo, endState_resultUpTo]
  refine ⟨rfl, fun hj => if_pos hj, ?_⟩
  rintro rfl
  rfl

/-- An assignment, a condition and a variable that has no value. -/
def unfinishedTree : Node :=
  .program [.assign (.str "x") (.number 1) (.of ⟨1, 1⟩),
    .branch (.binary (.str "==") (.ident (.str "x") (.of ⟨2, 5⟩)) (.number 1))
      (.block [.print (.string "a") (.of ⟨2, 13⟩)]) .absent (.of ⟨2, 1⟩),
    .print (.ident (.str "y") (.of ⟨3, 7⟩)) (.of ⟨3, 1⟩)]

/-- Of nine events of a run that fails, four are traced at the second level. -/
theorem unfinishedTree_trace_levels :
    let run (level : Nat) :=
      runWithin ⟨level, .atMost 0⟩ 1 walkingDepth unfinishedTree (.initial ⟨["b"], #[]⟩)
    (observed (run 2) = observed (run 4) ∧
      (0 < 2 → (endState (run 2)).trace = (endState (run 4)).trace.upTo 2) ∧
      (2 = 0 → (endState (run 2)).trace = .none)) ∧
    (endState (run 4)).trace.events.size = 9 ∧ (endState (run 2)).trace.events.size = 4 :=
  ⟨trace_levels_nested (by decide) _ _ _ _ _, rfl, rfl⟩

end Scriptling
