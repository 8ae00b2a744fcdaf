import Scriptling.Proofs.Observation
import Scriptling.Proofs.TraceLevels

/-!
# Actions with the same effect

Two actions are equivalent if in every world they come to the same result and leave the same
world. Their traces may differ, and an action that the depth of a tree ends says nothing of the
other one. Equivalent actions may stand for each other in every larger one, so what a tree does
depends on no bound on its depth as long as none is met.
-/
namespace Scriptling

/-- How two actions end that have the same effect, unless a bound on the depth ends one of
them. -/
inductive Matches {α : Type} :
    EStateM.Result Stop State α → EStateM.Result Stop State α → Prop where
  | ok {a : α} {s t : State} : s.world = t.world → Matches (.ok a s) (.ok a t)
  | error {e : Stop} {s t : State} : s.world = t.world → Matches (.error e s) (.error e t)
  | tooDeep_left {s : State} {r : EStateM.Result Stop State α} : Matches (.error .tooDeep s) r
  | tooDeep_right {s : State} {r : EStateM.Result Stop State α} : Matches r (.error .tooDeep s)

namespace Matches

variable {α : Type} {r r' : EStateM.Result Stop State α}

theorem of_observed (h : observed r = observed r') : Matches r r' := by
  obtain ⟨hresult, hworld⟩ := Prod.mk.inj h
  cases r with
  | ok a s =>
    cases r' with
    | ok a' t =>
      cases hresult
      exact .ok hworld
    | error e t => cases hresult
  | error e s =>
    cases r' with
    | ok a t => cases hresult
    | error e' t =>
      cases hresult
      exact .error hworld

end Matches

namespace Run

variable {α β : Type}

/-- Whether two actions have the same effect, unless a bound on the depth ends one of them. -/
def Equivalent (first second : Run α) : Prop :=
  ∀ s t : State, s.world = t.world → Matches (first s) (second t)

namespace Equivalent

/-- Actions that are known exactly and give the same are equivalent. -/
theorem of_gives {first second : Run α}
    (h : ∀ w, ∃ w' x, first.Gives w w' x ∧ second.Gives w w' x) : Equivalent first second := by
  intro s t hst
  obtain ⟨w', x, hfirst, hsecond⟩ := h s.world
  exact .of_observed ((hfirst s rfl).trans (hsecond t hst.symm).symm)

theorem tooDeep_left (second : Run α) : Equivalent (throw .tooDeep) second :=
  fun _ _ _ => .tooDeep_left

theorem tooDeep_right (first : Run α) : Equivalent first (throw .tooDeep) :=
  fun _ _ _ => .tooDeep_right

theorem pure (a : α) : Equivalent (pure a : Run α) (pure a) :=
  of_gives fun w => ⟨w, _, .pure a, .pure a⟩

theorem throw (e : Stop) : Equivalent (throw e : Run α) (throw e) :=
  of_gives fun w => ⟨w, _, .throw e, .throw e⟩

/-- It does not matter which events are recorded. -/
theorem record (settings : Settings) (e e' : Event) :
    Equivalent (record settings e) (record settings e') :=
  of_gives fun w => ⟨w, _, .record settings e, .record settings e'⟩

theorem write (line : String) : Equivalent (write line) (write line) :=
  of_gives fun w => ⟨_, _, .write (w := w) line, .write line⟩

theorem readLine? : Equivalent readLine? readLine? :=
  of_gives fun w => by
    cases h : w.pending with
    | nil => exact ⟨w, _, .readLine?_nil h, .readLine?_nil h⟩
    | cons line rest => exact ⟨_, _, .readLine?_cons h, .readLine?_cons h⟩

theorem lookup (name : Json) (m : Mark) : Equivalent (lookup name m) (lookup name m) :=
  of_gives fun w => ⟨w, _, .lookup rfl, .lookup rfl⟩

theorem setVariable (name : Json) (v : Value) :
    Equivalent (setVariable name v) (setVariable name v) :=
  of_gives fun w => by
    cases h : w.store name v with
    | ok w' => exact ⟨w', _, .setVariable_ok h, .setVariable_ok h⟩
    | error f => exact ⟨w, _, .setVariable_error h, .setVariable_error h⟩

theorem ofExcept (r : Except Failure α) : Equivalent (ofExcept r) (ofExcept r) :=
  of_gives fun w => ⟨w, _, .ofExcept rfl, .ofExcept rfl⟩

theorem countIteration (settings : Settings) :
    Equivalent (countIteration settings) (countIteration settings) :=
  of_gives fun w => by
    cases h : settings.limit.refusal? w.counted.iterations with
    | none => exact ⟨_, _, .countIteration_ok h, .countIteration_ok h⟩
    | some f => exact ⟨_, _, .countIteration_error h, .countIteration_error h⟩

theorem bind {first second : Run α} {k k' : α → Run β} (h : Equivalent first second)
    (hk : ∀ a, Equivalent (k a) (k' a)) : Equivalent (first >>= k) (second >>= k') := by
  intro s t hst
  have hends := h s t hst
  generalize hf : first s = r at hends
  generalize hg : second t = r' at hends
  cases hends with
  | ok hworld =>
    rw [bind_of_ok hf, bind_of_ok hg]
    exact hk _ _ _ hworld
  | error hworld =>
    rw [bind_of_error hf, bind_of_error hg]
    exact .error hworld
  | tooDeep_left =>
    rw [bind_of_error hf]
    exact .tooDeep_left
  | tooDeep_right =>
    rw [bind_of_error hg]
    exact .tooDeep_right

theorem placing (m : Mark) {first second : Run α} (h : Equivalent first second) :
    Equivalent (placing m first) (placing m second) := by
  intro s t hst
  have hends := h s t hst
  unfold Run.placing
  generalize first s = r at hends
  generalize second t = r' at hends
  cases hends with
  | ok hworld => exact .ok hworld
  | @error e _ _ hworld => rcases e with (e | f) | _ | _ | _ <;> exact .error hworld
  | tooDeep_left => exact .tooDeep_left
  | tooDeep_right => exact .tooDeep_right

theorem leaves {first second : Run Unit} (h : Equivalent first second) :
    Equivalent (leaves first) (leaves second) := by
  intro s t hst
  have hends := h s t hst
  unfold Run.leaves
  generalize first s = r at hends
  generalize second t = r' at hends
  cases hends with
  | ok hworld => exact .ok hworld
  | @error e _ _ hworld =>
    rcases e with f | _ | _ | _
    · exact .error hworld
    · exact .ok hworld
    · exact .error hworld
    · exact .error hworld
  | tooDeep_left => exact .tooDeep_left
  | tooDeep_right => exact .tooDeep_right

theorem repeatWhile {test test' : Run Bool} {body body' : Run Unit} (ht : Equivalent test test')
    (hb : Equivalent body body') (steps : Nat) :
    Equivalent (repeatWhile test body steps) (repeatWhile test' body' steps) := by
  induction steps with
  | zero => exact .throw _
  | succ steps ih =>
    refine .bind ht fun b => ?_
    cases b with
    | false => exact .pure ()
    | true =>
      refine .bind hb.leaves fun left => ?_
      cases left with
      | false => exact ih
      | true => exact .pure ()

/-- What an expression yields does not depend on the bound on its depth. -/
theorem eval (settings : Settings) (depth depth' : Nat) (node : Node) :
    Equivalent (eval settings depth node) (eval settings depth' node) := by
  induction depth generalizing depth' node with
  | zero => exact .tooDeep_left _
  | succ depth ih =>
    cases depth' with
    | zero => exact .tooDeep_right _
    | succ depth' =>
      cases node with
      | number x => exact .pure _
      | string s => exact .pure _
      | bool b => exact .pure _
      | ident name m => exact .lookup name m
      | binary op left right =>
        exact .bind (ih depth' left) fun _ => .bind (ih depth' right) fun _ => .ofExcept _
      | unary op operand => exact .bind (ih depth' operand) fun _ => .ofExcept _
      | update name op value m =>
        exact .bind (.lookup name m) fun _ => .bind (ih depth' value) fun _ =>
          .bind (.ofExcept _) fun _ => .bind (.setVariable name _) fun _ =>
          .bind (.record settings _ _) fun _ => .pure _
      | _ => exact .throw _

theorem evalCondition (settings : Settings) (depth depth' : Nat) (construct : String)
    (node : Node) :
    Equivalent (evalCondition settings depth construct node)
      (evalCondition settings depth' construct node) := by
  refine .bind (.eval settings depth depth' node) fun v => .bind (.record settings _ _) fun _ => ?_
  cases v with
  | bool b => exact .pure b
  | _ => exact .throw _

section Statements

variable (settings : Settings) (steps : Nat)

theorem inOrder {run run' : Node → Run Unit} (h : ∀ n, Equivalent (run n) (run' n))
    (ns : List Node) : Equivalent (inOrder run ns) (inOrder run' ns) := by
  induction ns with
  | nil => exact .pure ()
  | cons n ns ih => exact .bind (h n) fun _ => ih

theorem inBlock {run run' : Node → Run Unit} (h : ∀ n, Equivalent (run n) (run' n))
    (n : Node) : Equivalent (inBlock run n) (inBlock run' n) := by
  cases n with
  | block ns => exact .inOrder h ns
  | _ => exact .throw _

/-- Statements with equivalent bodies at one place are equivalent. -/
theorem exec_branch {depth depth' : Nat} (condition : Node) {first first' second second' : Node}
    (m : Mark)
    (hfirst : Equivalent (Scriptling.inBlock (exec settings steps depth) first)
      (Scriptling.inBlock (exec settings steps depth') first'))
    (hsecond : Equivalent (Scriptling.inBlock (exec settings steps depth) second)
      (Scriptling.inBlock (exec settings steps depth') second'))
    (habsent : second.isAbsent = second'.isAbsent) :
    Equivalent (exec settings steps (depth + 3) (.branch condition first second m))
      (exec settings steps (depth' + 3) (.branch condition first' second' m)) := by
  refine .bind (.record settings _ _) fun _ => .placing m ?_
  refine .bind (.evalCondition settings _ _ "if" condition) fun c => ?_
  cases c with
  | true => exact hfirst
  | false =>
    simp only [Bool.false_eq_true, if_false, habsent]
    split
    · exact .pure ()
    · exact hsecond

theorem exec_loop {depth depth' : Nat} (condition : Node) {body body' : Node} (m : Mark)
    (hbody : Equivalent (Scriptling.inBlock (exec settings steps depth) body)
      (Scriptling.inBlock (exec settings steps depth') body')) :
    Equivalent (exec settings steps (depth + 3) (.loop condition body m))
      (exec settings steps (depth' + 3) (.loop condition body' m)) :=
  .bind (.record settings _ _) fun _ => .placing m <|
    .repeatWhile (.evalCondition settings _ _ "while" condition)
      (.bind (.countIteration settings) fun _ => hbody) steps

theorem exec_block {depth depth' : Nat} {ns ns' : List Node}
    (h : Equivalent (Scriptling.inOrder (exec settings steps depth) ns)
      (Scriptling.inOrder (exec settings steps depth') ns')) :
    Equivalent (exec settings steps (depth + 3) (.block ns))
      (exec settings steps (depth' + 3) (.block ns')) :=
  .bind (.record settings _ _) fun _ => .placing _ h

/-- Statements are compared where both bounds admit them. -/
theorem exec_of_add {n n' : Node} (depth depth' : Nat)
    (h : ∀ k k', depth = k + 3 → depth' = k' + 3 →
      Equivalent (exec settings steps (k + 3) n) (exec settings steps (k' + 3) n')) :
    Equivalent (exec settings steps depth n) (exec settings steps depth' n') := by
  match depth, depth' with
  | 0, _ | 1, _ | 2, _ => exact .tooDeep_left _
  | _ + 3, 0 | _ + 3, 1 | _ + 3, 2 => exact .tooDeep_right _
  | k + 3, k' + 3 => exact h k k' rfl rfl

/-- The effect of a statement does not depend on the bound on its depth. -/
theorem exec (depth depth' : Nat) (n : Node) :
    Equivalent (exec settings steps depth n) (exec settings steps depth' n) := by
  induction depth using Nat.strongRecOn generalizing depth' n with
  | ind depth ih =>
    refine exec_of_add settings steps depth depth' ?_
    rintro k k' rfl rfl
    have inner : ∀ n, Equivalent (Scriptling.exec settings steps k n)
        (Scriptling.exec settings steps k' n) := ih k (by omega) k'
    cases n with
    | print value m =>
      exact .bind (.record settings _ _) fun _ => .placing m <|
        .bind (.eval settings _ _ value) fun _ => .bind (.record settings _ _) fun _ => .write _
    | input name m =>
      refine .bind (.record settings _ _) fun _ => .placing m <| .bind .readLine? fun line? => ?_
      cases line? with
      | some line => exact .bind (.setVariable name _) fun _ => .record settings _ _
      | none => exact .throw _
    | assign name value m =>
      exact .bind (.record settings _ _) fun _ => .placing m <|
        .bind (.eval settings _ _ value) fun _ => .bind (.setVariable name _) fun _ =>
        .record settings _ _
    | branch condition first second m =>
      exact exec_branch settings steps condition m (.inBlock inner first) (.inBlock inner second)
        rfl
    | loop condition body m => exact exec_loop settings steps condition m (.inBlock inner body)
    | leave m => exact .bind (.record settings _ _) fun _ => .placing m <| .throw _
    | evaluate value m =>
      exact .bind (.record settings _ _) fun _ => .placing m <|
        .bind (.eval settings _ _ value) fun _ => .pure ()
    | block ns => exact exec_block settings steps (.inOrder inner ns)
    | _ => exact .bind (.record settings _ _) fun _ => .placing _ <| .throw _

end Statements

end Equivalent
end Run

theorem State.world_recorded (level : Nat) (e : Event) (s : State) :
    (s.recorded level e).world = s.world := by
  unfold State.recorded
  split <;> rfl

theorem State.world_concluded (level : Nat) (e : Event) (s : State) :
    (s.concluded level e).world = s.world :=
  s.world_recorded level e

/-- Whether a run has ended because its program is nested too deeply. -/
def IsNested (r : EStateM.Result Stop State Unit) : Prop :=
  stop? r = some (.failure (.ofCause .nestedTree))

/-- Runs that end in the same way are observed to do so, unless a bound on the depth ends one of
them. -/
theorem Matches.observed_conclude {settings : Settings} {first second : Run Unit} {s t : State}
    (h : Matches (first s) (second t)) (hfirst : ¬ IsNested (conclude settings first s))
    (hsecond : ¬ IsNested (conclude settings second t)) :
    observed (conclude settings first s) = observed (conclude settings second t) := by
  rw [conclude_apply] at hfirst hsecond ⊢
  rw [conclude_apply]
  generalize first s = r at h hfirst ⊢
  generalize second t = r' at h hsecond ⊢
  have hconcluded : ∀ {s t : State} (e e' : Event), s.world = t.world →
      (s.concluded settings.level e).world = (t.concluded settings.level e').world := by
    intro s t e e' hworld
    rw [State.world_concluded, State.world_concluded, hworld]
  cases h with
  | ok hworld => exact congrArg (Prod.mk _) (hconcluded _ _ hworld)
  | @error e _ _ hworld =>
    rcases e with (e | f) | _ | _ | _
    · exact congrArg (Prod.mk _) (hconcluded _ _ hworld)
    · exact congrArg (Prod.mk _) hworld
    · exact congrArg (Prod.mk _) (hconcluded _ _ hworld)
    · exact absurd rfl hfirst
    · exact congrArg (Prod.mk _) hworld
  | tooDeep_left => exact absurd rfl hfirst
  | tooDeep_right => exact absurd rfl hsecond

/-- Programs of equivalent statements have the same runs. -/
theorem observed_runWithin {settings : Settings} {steps depth depth' : Nat} {ns ns' : List Node}
    (h : (inOrder (exec settings steps depth) ns).Equivalent
      (inOrder (exec settings steps depth') ns')) {s : State}
    (hfirst : ¬ IsNested (runWithin settings steps depth (.program ns) s))
    (hsecond : ¬ IsNested (runWithin settings steps depth' (.program ns') s)) :
    observed (runWithin settings steps depth (.program ns) s) =
      observed (runWithin settings steps depth' (.program ns') s) := by
  have hrun : ∀ depth ns, runWithin settings steps depth (.program ns) s =
      conclude settings (inOrder (exec settings steps depth) ns)
        ((s.started settings.level).recorded settings.level (.started ns.length)) := by
    intro depth ns
    have hrecord := Run.record_apply settings (.started ns.length) (s.started settings.level)
    exact bind_of_ok hrecord
  rw [hrun] at hfirst hsecond ⊢
  rw [hrun]
  refine Matches.observed_conclude (h _ _ ?_) hfirst hsecond
  rw [State.world_recorded, State.world_recorded]

end Scriptling
