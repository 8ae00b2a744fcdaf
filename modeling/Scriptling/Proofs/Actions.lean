import Scriptling.Eval.Program

/-!
# Quiet actions

Whatever a run does moves its input and output on and never takes back an iteration.
Everything but a loop is quiet besides: it counts no iteration and does not end because
of a bound on loops. Evaluating an expression is quiet as a whole.
-/
namespace Scriptling

section Endings

variable {σ α β : Type}

/-- The state in which a computation ends. -/
def endState : EStateM.Result Stop σ α → σ
  | .ok _ s => s
  | .error _ s => s

/-- Why a computation has stopped, if it has. -/
def stop? : EStateM.Result Stop σ α → Option Stop
  | .ok _ _ => none
  | .error e _ => some e

@[simp] theorem endState_ok (a : α) (s : σ) : endState (.ok a s) = s := rfl

@[simp] theorem endState_error (e : Stop) (s : σ) :
    endState (.error e s : EStateM.Result Stop σ α) = s := rfl

@[simp] theorem stop?_ok (a : α) (s : σ) : stop? (.ok a s) = none := rfl

@[simp] theorem stop?_error (e : Stop) (s : σ) :
    stop? (.error e s : EStateM.Result Stop σ α) = some e := rfl

theorem bind_of_ok {r : EStateM Stop σ α} {k : α → EStateM Stop σ β} {s s' : σ} {a : α}
    (h : r s = .ok a s') : (r >>= k) s = k a s' := by
  change EStateM.bind r k s = _
  rw [EStateM.bind, h]

theorem bind_of_error {r : EStateM Stop σ α} {k : α → EStateM Stop σ β} {s s' : σ} {e : Stop}
    (h : r s = .error e s') : (r >>= k) s = .error e s' := by
  change EStateM.bind r k s = _
  rw [EStateM.bind, h]

theorem bind_get (k : σ → EStateM Stop σ β) (s : σ) : ((get : EStateM Stop σ σ) >>= k) s = k s s :=
  rfl

end Endings

theorem Run.readLine?_nil {s : State} (h : s.pending = []) : readLine? s = .ok none s := by
  rw [readLine?, bind_get, h]
  rfl

theorem Run.readLine?_cons {s : State} {line : String} {rest : List String}
    (h : s.pending = line :: rest) :
    readLine? s = .ok (some line) { s with pending := rest } := by
  rw [readLine?, bind_get, h]
  rfl

/-- Whether a state can come after another one. -/
structure State.Onward (s s' : State) : Prop where
  output : s.output.toList <+: s'.output.toList
  pending : s'.pending <:+ s.pending
  iterations : s.iterations ≤ s'.iterations

namespace State.Onward

variable {s s' s'' : State}

theorem refl (s : State) : s.Onward s :=
  ⟨List.prefix_refl _, List.suffix_refl _, Nat.le_refl _⟩

theorem trans (h : s.Onward s') (h' : s'.Onward s'') : s.Onward s'' :=
  ⟨h.output.trans h'.output, h'.pending.trans h.pending, Nat.le_trans h.iterations h'.iterations⟩

theorem of_eq (hbuffer : s'.toBuffer = s.toBuffer) (hiterations : s'.iterations = s.iterations) :
    s.Onward s' := by
  refine ⟨?_, ?_, Nat.le_of_eq hiterations.symm⟩
  · simp [hbuffer]
  · simp [hbuffer]

end State.Onward

/-- Whether a stop is not due to a bound on loops. -/
def Stop.IsQuiet : Stop → Prop
  | .failure (.error e) => ∀ n, e.cause ≠ .iterationLimit n
  | .failure (.fault f) => ∀ kind, f ≠ .notALimit kind
  | .outOfSteps => False
  | .leaving | .tooDeep => True

/-- Whether a computation from a state has ended without counting iterations. -/
structure EndsQuietly {α : Type} (s : State) (r : EStateM.Result Stop State α) : Prop where
  onward : s.Onward (endState r)
  iterations : (endState r).iterations = s.iterations
  stop : ∀ e ∈ stop? r, e.IsQuiet

namespace Run

variable {α β : Type}

/-- Whether an action moves on from every state. -/
def Advances (action : Run α) : Prop :=
  ∀ s : State, s.Onward (endState (action s))

namespace Advances

theorem pure (a : α) : Advances (pure a) := fun s => .refl s

/-- Whatever follows an action moves on from its end. -/
theorem next {k : α → Run β} (hk : ∀ a, (k a).Advances) (r : Run α) (s : State) :
    (endState (r s)).Onward (endState ((r >>= k) s)) := by
  cases hr : r s with
  | ok a s' =>
    rw [bind_of_ok hr]
    exact hk a s'
  | error e s' =>
    rw [bind_of_error hr]
    exact .refl s'

theorem bind {r : Run α} {k : α → Run β} (h : r.Advances) (hk : ∀ a, (k a).Advances) :
    Advances (r >>= k) :=
  fun s => (h s).trans (next hk r s)

theorem repeatWhile {test : Run Bool} {body : Run Unit} (ht : test.Advances)
    (hb : (leaves body).Advances) (steps : Nat) : (repeatWhile test body steps).Advances := by
  induction steps with
  | zero => exact fun s => .refl s
  | succ steps ih =>
    refine .bind ht fun b => ?_
    cases b with
    | false => exact .pure ()
    | true =>
      refine .bind hb fun left => ?_
      cases left with
      | false => exact ih
      | true => exact .pure ()

end Advances

/-- Whether an action never has anything to do with loops. -/
def Quiet (action : Run α) : Prop :=
  ∀ s, EndsQuietly s (action s)

namespace Quiet

theorem bind {r : Run α} {k : α → Run β} (h : r.Quiet) (hk : ∀ a, (k a).Quiet) :
    Quiet (r >>= k) := by
  intro s
  have hs := h s
  cases hr : r s with
  | error e s' =>
    rw [hr] at hs
    rw [bind_of_error hr]
    exact ⟨hs.onward, hs.iterations, hs.stop⟩
  | ok a s' =>
    rw [hr] at hs
    have hs' := hk a s'
    rw [bind_of_ok hr]
    exact ⟨hs.onward.trans hs'.onward, hs'.iterations.trans hs.iterations, hs'.stop⟩

theorem pure (a : α) : Quiet (pure a : Run α) := fun s => ⟨.refl s, rfl, nofun⟩

theorem throw {e : Stop} (h : e.IsQuiet) : Quiet (throw e : Run α) := by
  intro s
  refine ⟨.refl s, rfl, ?_⟩
  rintro e' ⟨⟩
  exact h

/-- A change of the variables or of the trace. -/
theorem modify {f : State → State} (hbuffer : ∀ s, (f s).toBuffer = s.toBuffer)
    (hiterations : ∀ s, (f s).iterations = s.iterations) : Quiet (modify f : Run Unit) := by
  intro s
  exact ⟨.of_eq (hbuffer s) (hiterations s), hiterations s, nofun⟩

theorem fail {c : Cause} (h : ∀ n, c ≠ .iterationLimit n) : Quiet (fail c : Run α) :=
  .throw h

theorem fault {f : Fault} (h : ∀ kind, f ≠ .notALimit kind) : Quiet (fault f : Run α) :=
  .throw h

theorem record (settings : Settings) (e : Event) : Quiet (record settings e) := by
  unfold Run.record
  split
  · exact .modify (fun _ => rfl) fun _ => rfl
  · exact .pure ()

theorem write (line : String) : Quiet (write line) := by
  intro s
  refine ⟨⟨?_, List.suffix_refl _, Nat.le_refl _⟩, rfl, nofun⟩
  change s.output.toList <+: (s.output.push line).toList
  rw [Array.toList_push]
  exact List.prefix_append _ _

theorem readLine? : Quiet readLine? := by
  intro s
  rw [Run.readLine?, bind_get]
  cases hp : s.pending with
  | nil => exact Quiet.pure none s
  | cons line rest =>
    refine ⟨⟨List.prefix_refl _, ?_, Nat.le_refl _⟩, rfl, nofun⟩
    change rest <:+ s.pending
    rw [hp]
    exact List.suffix_cons _ _

theorem variableOf (name : Json) : Quiet (variableOf name) := by
  unfold Run.variableOf
  split
  · exact .pure _
  · exact .fault nofun

theorem setVariable (name : Json) (value : Value) : Quiet (setVariable name value) :=
  .bind (.variableOf name) fun _ => .modify (fun _ => rfl) fun _ => rfl

theorem lookup (name : Json) (mark : Mark) : Quiet (lookup name mark) := by
  refine .bind (.variableOf name) fun x s => ?_
  rw [bind_get]
  cases s.env.get? x with
  | some v => exact Quiet.pure v s
  | none =>
    have hstop : Stop.IsQuiet (.failure (.error ⟨.undefinedVariable x, mark⟩)) := nofun
    exact Quiet.throw hstop s

/-- What operators refuse is no bound on loops. -/
theorem ofExcept {r : Except Failure α} (h : ∀ f, r = .error f → Stop.IsQuiet (.failure f)) :
    Quiet (ofExcept r) := by
  cases r with
  | ok a => exact .pure a
  | error f => exact .throw (h f rfl)

end Quiet
end Run

theorem quiet_of_applyBinary {op : String} {a b : Value} {f : Failure}
    (h : applyBinary op a b = .error f) : Stop.IsQuiet (.failure f) := by
  unfold applyBinary BinaryOperator.apply BinaryOperator.ofNumbers at h
  repeat' split at h
  all_goals
    cases h
    try nofun

theorem quiet_of_applyUnary {op : String} {a : Value} {f : Failure}
    (h : applyUnary op a = .error f) : Stop.IsQuiet (.failure f) := by
  unfold applyUnary UnaryOperator.apply at h
  repeat' split at h
  all_goals
    cases h
    try nofun

/-- The state with one more iteration counted. -/
def State.counted (s : State) : State := { s with iterations := s.iterations + 1 }

theorem State.onward_counted (s : State) : s.Onward s.counted :=
  ⟨List.prefix_refl _, List.suffix_refl _, Nat.le_succ _⟩

theorem Run.countIteration_apply (settings : Settings) (s : State) :
    countIteration settings s =
      match settings.limit with
      | .unlimited => .ok () s.counted
      | .atMost n =>
        if n < s.counted.iterations then .error (.failure (.ofCause (.iterationLimit n))) s.counted
        else .ok () s.counted
      | .unusable kind => .error (.failure (.fault (.notALimit kind))) s.counted := by
  obtain ⟨level, limit⟩ := settings
  cases limit with
  | unlimited => rfl
  | atMost n =>
    change (if n < s.counted.iterations then (fail (.iterationLimit n) : Run Unit) else pure ())
      s.counted = _
    by_cases h : n < s.counted.iterations
    · simp only [if_pos h]
      rfl
    · simp only [if_neg h]
      rfl
  | unusable kind => rfl

/-- Expressions have nothing to do with loops. -/
theorem quiet_eval (settings : Settings) (depth : Nat) (node : Node) :
    (eval settings depth node).Quiet := by
  induction depth generalizing node with
  | zero => exact .throw trivial
  | succ depth ih =>
    cases node with
    | number x => exact .pure _
    | string s => exact .pure _
    | bool b => exact .pure _
    | ident name m => exact .lookup name m
    | binary op left right =>
      exact .bind (ih left) fun a => .bind (ih right) fun b =>
        .ofExcept fun _ => quiet_of_applyBinary
    | unary op operand =>
      exact .bind (ih operand) fun a => .ofExcept fun _ => quiet_of_applyUnary
    | update name op value m =>
      exact .bind (.lookup name m) fun _ => .bind (ih value) fun _ =>
        .bind (.ofExcept fun _ => quiet_of_applyBinary) fun _ =>
        .bind (.setVariable name _) fun _ => .bind (.record settings _) fun _ => .pure _
    | _ => exact .fault nofun

theorem quiet_evalCondition (settings : Settings) (depth : Nat) (construct : String)
    (node : Node) : (evalCondition settings depth construct node).Quiet := by
  refine .bind (quiet_eval settings depth node) fun v => .bind (.record settings _) fun _ => ?_
  split
  · exact .pure _
  · exact .fail nofun

end Scriptling
