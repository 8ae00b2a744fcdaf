import Scriptling.Proofs.Actions

/-!
# Watched runs

A run with an observer, who is told of every statement and every expression that is
entered or left and of every body of a loop that is entered, with the state at that
moment. Watching changes nothing: what is seen of the states of a watched run is the run.
The bodies entered are the iterations counted, but for one that a bound on loops ended.
-/
namespace Scriptling

/-- What an observer is told of. -/
inductive Moment where
  | executing (statement : Node)
  | executed (statement : Node)
  | evaluating (expression : Node)
  | evaluated (expression : Node) (value : Value)
  /-- The body of a loop is entered. -/
  | iterating

namespace Moment

def isIterating : Moment → Bool
  | .iterating => true
  | _ => false

end Moment

structure Point where
  moment : Moment
  state : State

/-- The state of a run and what has been seen of it, the latest first. -/
structure Watch where
  state : State
  points : List Point

namespace Watch

/-- How many bodies of loops have been entered. -/
def bodies (w : Watch) : Nat :=
  w.points.countP (·.moment.isIterating)

theorem bodies_cons (s s' : State) (m : Moment) (points : List Point) :
    bodies ⟨s, ⟨m, s⟩ :: points⟩ = bodies ⟨s', points⟩ + if m.isIterating then 1 else 0 :=
  List.countP_cons

end Watch

abbrev Watched (α : Type) := EStateM Stop Watch α

namespace Watched

variable {α β : Type}

/-- The end of a run with what was seen of it. -/
def attach (points : List Point) : EStateM.Result Stop State α → EStateM.Result Stop Watch α
  | .ok a s => .ok a ⟨s, points⟩
  | .error e s => .error e ⟨s, points⟩

/-- The end of a watched run without what was seen of it. -/
def erase : EStateM.Result Stop Watch α → EStateM.Result Stop State α
  | .ok a w => .ok a w.state
  | .error e w => .error e w.state

def see (m : Moment) : Watched Unit :=
  modify fun w => { w with points := ⟨m, w.state⟩ :: w.points }

/-- An action in which nothing is seen. -/
def lift (action : Run α) : Watched α := fun w =>
  attach w.points (action w.state)

/-- Deals with the end of a watched run as is done with that of a run. -/
def around (construct : Run α → Run β) (w : Watched α) : Watched β := fun x =>
  attach (endState (w x)).points (construct (fun _ => erase (w x)) x.state)

def repeatWhile (test : Watched Bool) (body : Watched Unit) : Nat → Watched Unit
  | 0 => throw .outOfSteps
  | steps + 1 => do
    if ← test then
      if ← around Run.leaves body then pure () else repeatWhile test body steps
    else pure ()

def inOrder (run : Node → Watched Unit) : List Node → Watched Unit
  | [] => pure ()
  | n :: rest => do
    run n
    inOrder run rest

def inBlock (run : Node → Watched Unit) : Node → Watched Unit
  | .block statements => inOrder run statements
  | node => lift (Run.fault (.notBlock node.kind))

/-- The evaluation of an expression is seen when it begins and when it ends. -/
def evaluation (expression : Node) (body : Watched Value) : Watched Value := do
  see (.evaluating expression)
  let v ← body
  see (.evaluated expression v)
  return v

/-- The execution of a statement is seen when it begins and when it ends. -/
def execution (statement : Node) (body : Watched Unit) : Watched Unit := do
  see (.executing statement)
  body
  see (.executed statement)

/-- Evaluates an expression under observation. -/
def eval (settings : Settings) : Nat → Node → Watched Value
  | 0, _ => throw .tooDeep
  | depth + 1, node => evaluation node <|
    match node with
    | .binary op left right => do
      let a ← eval settings depth left
      let b ← eval settings depth right
      lift (Run.ofExcept (applyBinary op.display a b))
    | .unary op operand => do
      let a ← eval settings depth operand
      lift (Run.ofExcept (applyUnary op.display a))
    | .update name op value m => do
      let current ← lift (Run.lookup name m)
      let operand ← eval settings depth value
      let result ← lift (Run.ofExcept (applyBinary op.display current operand))
      lift (Run.setVariable name result)
      lift (Run.record settings (.updated name.display op.display result))
      return result
    | node => lift (Scriptling.eval settings (depth + 1) node)

def evalCondition (settings : Settings) (depth : Nat) (construct : String) (node : Node) :
    Watched Bool := do
  let v ← eval settings depth node
  lift (Run.record settings (.tested construct v))
  match v with
  | .bool b => return b
  | v => lift (Run.fail (.condition construct v.typeName))

/-- Executes a statement under observation. -/
def exec (settings : Settings) (steps : Nat) : Nat → Node → Watched Unit
  | depth + 3, node => execution node <| do
    lift (Run.record settings (.entered node.kind node.mark.line))
    around (Run.placing node.mark) <|
      match node with
      | .print value _ => do
        let v ← eval settings (depth + 1) value
        lift (Run.record settings (.printed v.display))
        lift (Run.write v.display)
      | .input name _ => do
        match ← lift Run.readLine? with
        | some line =>
          lift (Run.setVariable name (.string line))
          lift (Run.record settings (.received name.display line))
        | none => lift (Run.fail (.endOfInput name.display))
      | .assign name value _ => do
        let v ← eval settings (depth + 1) value
        lift (Run.setVariable name v)
        lift (Run.record settings (.assigned name.display v))
      | .branch condition thenBlock elseBlock _ => do
        if ← evalCondition settings (depth + 1) "if" condition then
          inBlock (exec settings steps depth) thenBlock
        else if elseBlock.isAbsent then pure ()
        else inBlock (exec settings steps depth) elseBlock
      | .loop condition body _ =>
        repeatWhile (evalCondition settings (depth + 1) "while" condition)
          (do
            lift (Run.countIteration settings)
            see .iterating
            inBlock (exec settings steps depth) body)
          steps
      | .leave _ => throw .leaving
      | .evaluate value _ => do
        let _ ← eval settings (depth + 1) value
      | .block statements => inOrder (exec settings steps depth) statements
      | node => lift (Run.fault (.notStatement node.kind))
  | _, _ => throw .tooDeep

/-- Runs a program under observation. -/
def runWithin (settings : Settings) (steps depth : Nat) (program : Node) : Watched Unit := do
  lift (modify fun s =>
    { s with
      env := .empty
      iterations := 0
      trace := if 0 < settings.level then s.trace.reopen else s.trace })
  match program with
  | .program body =>
    lift (Run.record settings (.started body.length))
    around (conclude settings) (inOrder (exec settings steps depth) body)
  | .loop _ body _ => lift (Run.fault (.bodyNotList body.kind))
  | node => lift (Run.fault (.notProgram node.kind))

end Watched

/-- Whether a stop is due to the limit on iterations. -/
def Stop.isLimit : Stop → Bool
  | .failure (.error e) =>
    match e.cause with
    | .iterationLimit _ => true
    | _ => false
  | .failure (.fault (.notALimit _)) => true
  | _ => false

theorem Stop.IsQuiet.isLimit {e : Stop} (h : e.IsQuiet) : e.isLimit = false := by
  unfold Stop.isLimit
  split
  · split
    · rename_i n hn
      exact absurd hn (h n)
    · rfl
  · rename_i kind
    exact absurd rfl (h kind)
  · rfl

/-- How many iterations have been counted whose bodies were not entered. -/
def excess {σ α : Type} (r : EStateM.Result Stop σ α) : Nat :=
  if (stop? r).any Stop.isLimit then 1 else 0

/-- Whether watching a run shows the run, and its iterations. -/
structure Shows {α : Type} (w : Watched α) (r : Run α) : Prop where
  same : ∀ x, Watched.erase (w x) = r x.state
  tally : ∀ x, (endState (w x)).bodies + excess (w x) + x.state.iterations =
    x.bodies + (endState (w x)).state.iterations

namespace Shows

open Watched (attach erase see lift around)

variable {α β : Type}

theorem erase_attach (points : List Point) (r : EStateM.Result Stop State α) :
    erase (attach points r) = r := by
  cases r <;> rfl

theorem endState_attach (points : List Point) (r : EStateM.Result Stop State α) :
    endState (attach points r) = ⟨endState r, points⟩ := by
  cases r <;> rfl

theorem endState_erase (r : EStateM.Result Stop Watch α) :
    endState (erase r) = (endState r).state := by
  cases r <;> rfl

theorem excess_attach (points : List Point) (r : EStateM.Result Stop State α) :
    excess (attach points r) = excess r := by
  cases r <;> rfl

theorem excess_erase (r : EStateM.Result Stop Watch α) : excess (erase r) = excess r := by
  cases r <;> rfl

theorem excess_eq_zero {σ : Type} {r : EStateM.Result Stop σ α}
    (h : ∀ e ∈ stop? r, e.IsQuiet) : excess r = 0 := by
  cases r with
  | ok a s => rfl
  | error e s => simp [excess, (h e rfl).isLimit]

theorem lift_quiet {action : Run α} (h : action.Quiet) : Shows (lift action) action where
  same x := erase_attach _ _
  tally x := by
    have hs := h x.state
    change (endState (attach x.points (action x.state))).bodies +
      excess (attach x.points (action x.state)) + _ = _ + (endState (attach _ _)).state.iterations
    rw [endState_attach, excess_attach, excess_eq_zero hs.stop, hs.iterations]
    rfl

theorem pure (a : α) : Shows (pure a) (pure a) :=
  ⟨fun _ => rfl, fun _ => rfl⟩

theorem throw {e : Stop} (h : e.isLimit = false) : Shows (throw e) (throw e : Run α) := by
  refine ⟨fun _ => rfl, fun x => ?_⟩
  have he : excess ((MonadExcept.throw e : Watched α) x) = 0 := by
    change (if e.isLimit = true then 1 else 0) = 0
    rw [h]
    rfl
  rw [he]
  rfl

theorem bind {w : Watched α} {r : Run α} {k : α → Watched β} {k' : α → Run β} (h : Shows w r)
    (hk : ∀ a, Shows (k a) (k' a)) : Shows (w >>= k) (r >>= k') := by
  refine ⟨fun x => ?_, fun x => ?_⟩
  · have hs := h.same x
    cases hw : w x with
    | ok a x' =>
      rw [hw] at hs
      rw [bind_of_ok hw, bind_of_ok hs.symm]
      exact (hk a).same x'
    | error e x' =>
      rw [hw] at hs
      rw [bind_of_error hw, bind_of_error hs.symm]
      rfl
  · have ht := h.tally x
    cases hw : w x with
    | ok a x' =>
      have ht' := (hk a).tally x'
      rw [hw] at ht
      rw [bind_of_ok hw]
      have hz : excess (.ok a x' : EStateM.Result Stop Watch α) = 0 := rfl
      rw [endState_ok, hz] at ht
      omega
    | error e x' =>
      rw [hw] at ht
      rw [bind_of_error hw]
      exact ht

/-- What is seen on the way makes no difference, unless a body is entered. -/
theorem see_bind {m : Moment} (hm : m.isIterating = false) {k : Unit → Watched α} {r : Run α}
    (h : Shows (k ()) r) : Shows (see m >>= k) r where
  same x := h.same ⟨x.state, ⟨m, x.state⟩ :: x.points⟩
  tally x := by
    have ht := h.tally ⟨x.state, ⟨m, x.state⟩ :: x.points⟩
    have hb := Watch.bodies_cons x.state x.state m x.points
    rw [hm, if_neg nofun, Nat.add_zero] at hb
    rw [hb] at ht
    exact ht

theorem evaluation {w : Watched Value} {r : Run Value} (node : Node) (h : Shows w r) :
    Shows (Watched.evaluation node w) r := by
  rw [← bind_pure r]
  exact .see_bind rfl (.bind h fun v => .see_bind rfl (.pure v))

theorem execution {w : Watched Unit} {r : Run Unit} (node : Node) (h : Shows w r) :
    Shows (Watched.execution node w) r := by
  rw [← bind_pure r]
  refine .see_bind rfl (.bind h fun _ => ?_)
  rw [← bind_pure (see (.executed node))]
  exact .see_bind rfl (.pure ())

/-- Whether a construct looks at the end of an action only and keeps what was counted. -/
structure Handles (construct : Run α → Run β) : Prop where
  ending : ∀ r s, construct r s = construct (fun _ => r s) s
  iterations : ∀ r s, (endState (construct (fun _ => r) s)).iterations = (endState r).iterations
  excess : ∀ r s, excess (construct (fun _ => r) s) = excess r

theorem around {construct : Run α → Run β} (hc : Handles construct) {w : Watched α} {r : Run α}
    (h : Shows w r) : Shows (around construct w) (construct r) where
  same x := by
    rw [Watched.around, erase_attach, h.same, ← hc.ending]
  tally x := by
    have ht := h.tally x
    rw [Watched.around, endState_attach, excess_attach, hc.excess, hc.iterations, excess_erase,
      endState_erase]
    exact ht

theorem handles_placing (mark : Mark) : Handles (Run.placing mark : Run α → Run α) := by
  refine ⟨fun _ _ => rfl, fun r s => ?_, fun r s => ?_⟩
  all_goals
    unfold Run.placing
    dsimp only
    split <;> rfl

theorem handles_leaves : Handles Run.leaves := by
  refine ⟨fun _ _ => rfl, fun r s => ?_, fun r s => ?_⟩
  all_goals
    unfold Run.leaves
    dsimp only
    split <;> rfl

theorem handles_conclude (settings : Settings) : Handles (conclude settings) := by
  refine ⟨fun _ _ => rfl, fun r s => ?_, fun r s => ?_⟩
  all_goals
    unfold conclude
    dsimp only
    split <;> (try split) <;> rfl

theorem countIteration_cases (settings : Settings) (s : State) :
    Run.countIteration settings s = .ok () s.counted ∨
      ∃ e, e.isLimit = true ∧ Run.countIteration settings s = .error e s.counted := by
  rw [Run.countIteration_apply]
  split
  · exact .inl rfl
  · split
    · exact .inr ⟨_, rfl, rfl⟩
    · exact .inl rfl
  · exact .inr ⟨_, rfl, rfl⟩

/-- An iteration is counted before its body is entered. -/
theorem iteration {w : Watched α} {r : Run α} (settings : Settings) (h : Shows w r) :
    Shows (do lift (Run.countIteration settings); see .iterating; w)
      (do Run.countIteration settings; r) := by
  have hlift : ∀ x, lift (Run.countIteration settings) x =
      attach x.points (Run.countIteration settings x.state) := fun _ => rfl
  refine ⟨fun x => ?_, fun x => ?_⟩ <;> have hl := hlift x
  all_goals
    rcases countIteration_cases settings x.state with hc | ⟨e, he, hc⟩ <;> rw [hc] at hl
  · rw [bind_of_ok hc, bind_of_ok hl]
    exact h.same _
  · rw [bind_of_error hc, bind_of_error hl]
    rfl
  · rw [bind_of_ok hl]
    have ht := h.tally ⟨x.state.counted, ⟨.iterating, x.state.counted⟩ :: x.points⟩
    rw [Watch.bodies_cons _ x.state] at ht
    change _ + (x.state.iterations + 1) = x.bodies + 1 + _ at ht
    have hw : (see .iterating >>= fun _ => w) ⟨x.state.counted, x.points⟩ =
        w ⟨x.state.counted, ⟨.iterating, x.state.counted⟩ :: x.points⟩ := rfl
    rw [hw]
    omega
  · rw [bind_of_error hl]
    change x.bodies + (if e.isLimit = true then 1 else 0) + _ = x.bodies + (x.state.iterations + 1)
    rw [he, if_pos rfl]
    omega

theorem repeatWhile {test : Watched Bool} {test' : Run Bool} {body : Watched Unit}
    {body' : Run Unit} (ht : Shows test test') (hb : Shows body body') (steps : Nat) :
    Shows (Watched.repeatWhile test body steps) (Run.repeatWhile test' body' steps) := by
  induction steps with
  | zero => exact .throw rfl
  | succ steps ih =>
    refine .bind ht fun b => ?_
    cases b with
    | false => exact .pure ()
    | true =>
      refine .bind (.around handles_leaves hb) fun left => ?_
      cases left with
      | false => exact ih
      | true => exact .pure ()

theorem inOrder {run : Node → Watched Unit} {run' : Node → Run Unit}
    (h : ∀ n, Shows (run n) (run' n)) (ns : List Node) :
    Shows (Watched.inOrder run ns) (Scriptling.inOrder run' ns) := by
  induction ns with
  | nil => exact .pure ()
  | cons n ns ih => exact .bind (h n) fun _ => ih

theorem inBlock {run : Node → Watched Unit} {run' : Node → Run Unit}
    (h : ∀ n, Shows (run n) (run' n)) (n : Node) :
    Shows (Watched.inBlock run n) (Scriptling.inBlock run' n) := by
  cases n with
  | block ns => exact inOrder h ns
  | _ => exact .lift_quiet (.fault nofun)

theorem eval (settings : Settings) (depth : Nat) (node : Node) :
    Shows (Watched.eval settings depth node) (Scriptling.eval settings depth node) := by
  induction depth generalizing node with
  | zero => exact .throw rfl
  | succ depth ih =>
    refine .evaluation node ?_
    cases node with
    | binary op left right =>
      exact .bind (ih left) fun a => .bind (ih right) fun b =>
        .lift_quiet (.ofExcept fun _ => quiet_of_applyBinary)
    | unary op operand =>
      exact .bind (ih operand) fun a => .lift_quiet (.ofExcept fun _ => quiet_of_applyUnary)
    | update name op value m =>
      exact .bind (.lift_quiet (.lookup name m)) fun _ => .bind (ih value) fun _ =>
        .bind (.lift_quiet (.ofExcept fun _ => quiet_of_applyBinary)) fun _ =>
        .bind (.lift_quiet (.setVariable name _)) fun _ =>
        .bind (.lift_quiet (.record settings _)) fun _ => .pure _
    | _ => exact .lift_quiet (quiet_eval settings (depth + 1) _)

theorem evalCondition (settings : Settings) (depth : Nat) (construct : String) (node : Node) :
    Shows (Watched.evalCondition settings depth construct node)
      (Scriptling.evalCondition settings depth construct node) := by
  refine .bind (eval settings depth node) fun v =>
    .bind (.lift_quiet (.record settings _)) fun _ => ?_
  cases v with
  | bool b => exact .pure b
  | _ => exact .lift_quiet (.fail nofun)

/-- Watching a statement shows its execution. -/
theorem exec (settings : Settings) (steps depth : Nat) (node : Node) :
    Shows (Watched.exec settings steps depth node) (Scriptling.exec settings steps depth node) := by
  induction depth using Nat.strongRecOn generalizing node with
  | ind depth ih =>
    match depth with
    | 0 | 1 | 2 => exact .throw rfl
    | depth + 3 =>
      have inner : ∀ n, Shows (Watched.exec settings steps depth n)
          (Scriptling.exec settings steps depth n) := fun n => ih depth (by omega) n
      refine .execution node (.bind (.lift_quiet (.record settings _)) fun _ =>
        .around (handles_placing node.mark) ?_)
      cases node with
      | print value m =>
        exact .bind (eval settings _ value) fun _ =>
          .bind (.lift_quiet (.record settings _)) fun _ => .lift_quiet (.write _)
      | input name m =>
        refine .bind (.lift_quiet .readLine?) fun line? => ?_
        cases line? with
        | some line =>
          exact .bind (.lift_quiet (.setVariable name _)) fun _ => .lift_quiet (.record settings _)
        | none => exact .lift_quiet (.fail nofun)
      | assign name value m =>
        exact .bind (eval settings _ value) fun _ => .bind (.lift_quiet (.setVariable name _))
          fun _ => .lift_quiet (.record settings _)
      | branch condition thenBlock elseBlock m =>
        refine .bind (evalCondition settings _ "if" condition) fun c => ?_
        cases c with
        | true => exact inBlock inner thenBlock
        | false =>
          simp only [Bool.false_eq_true, if_false]
          split
          · exact .pure ()
          · exact inBlock inner elseBlock
      | loop condition body m =>
        exact repeatWhile (evalCondition settings _ "while" condition)
          (.iteration settings (inBlock inner body)) steps
      | leave m => exact .throw rfl
      | evaluate value m => exact .bind (eval settings _ value) fun _ => .pure ()
      | block statements => exact inOrder inner statements
      | _ => exact .lift_quiet (.fault nofun)

/-- A watched run of a program is the run, and the bodies entered are the iterations
counted, but for one that a bound on loops has ended. -/
theorem runWithin (settings : Settings) (steps depth : Nat) (program : Node) (x : Watch) :
    erase (Watched.runWithin settings steps depth program x) =
        Scriptling.runWithin settings steps depth program x.state ∧
      (endState (Watched.runWithin settings steps depth program x)).bodies +
          excess (Watched.runWithin settings steps depth program x) =
        x.bodies +
          (endState (Watched.runWithin settings steps depth program x)).state.iterations := by
  have afterReset : ∀ {w : Watched Unit} {r : Run Unit}, Shows w r → ∀ x : Watch,
      x.state.iterations = 0 → erase (w x) = r x.state ∧
        (endState (w x)).bodies + excess (w x) = x.bodies + (endState (w x)).state.iterations := by
    intro w r h x hx
    have ht := h.tally x
    rw [hx, Nat.add_zero] at ht
    exact ⟨h.same x, ht⟩
  cases program with
  | program body =>
    have h : Shows
        (do
          lift (Run.record settings (.started body.length))
          Watched.around (conclude settings)
            (Watched.inOrder (Watched.exec settings steps depth) body))
        (do
          Run.record settings (.started body.length)
          conclude settings (Scriptling.inOrder (Scriptling.exec settings steps depth) body)) :=
      .bind (.lift_quiet (.record settings _)) fun _ =>
        .around (handles_conclude settings) (inOrder (exec settings steps depth) body)
    exact afterReset h ⟨_, x.points⟩ rfl
  | loop condition body m =>
    exact afterReset (lift_quiet (.fault (f := .bodyNotList body.kind) nofun)) ⟨_, x.points⟩ rfl
  | _ => exact afterReset (lift_quiet (.fault (f := .notProgram _) nofun)) ⟨_, x.points⟩ rfl

end Shows

end Scriptling
