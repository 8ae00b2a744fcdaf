import Scriptling.Proofs.IterationLimit
import Scriptling.Proofs.OperatorFailures

/-!
# How runs end

Whatever tree is run, its run ends in few ways: normally, with an evaluation error, with the
remainder of an infinity, with something in the tree that is out of its place, or with a limit
that is none. A run with a limit never uses up its steps. Every repetition of a loop counts an
iteration, and an action that goes on leaves the count within the limit, so at each repetition
the count and the steps that are left exceed the limit together.
-/
namespace Scriptling

/-- Whether something in a tree is out of its place. -/
def Fault.IsMisplacement : Fault → Prop
  | .notStatement _ | .notExpression _ | .notBlock _ | .notAName _ => True
  | _ => False

/-- The number of iterations that a limit lets pass, if it is bounded. -/
def Limit.most? : Limit → Option Nat
  | .unlimited => none
  | .atMost n => some n.toNat
  | .unusable _ => some 0

theorem Limit.lt_steps (limit : Limit) : ∀ N ∈ limit.most?, N < limit.steps := by
  cases limit with
  | unlimited => exact nofun
  | atMost n =>
    rintro _ ⟨⟩
    exact Nat.lt_succ_self _
  | unusable kind =>
    rintro _ ⟨⟩
    exact Nat.zero_lt_one

theorem Limit.eq_unlimited_of_most? {limit : Limit} (h : limit.most? = none) :
    limit = .unlimited := by
  cases limit with
  | unlimited => rfl
  | atMost n => cases h
  | unusable kind => cases h

/-- The ways in which a statement may stop. -/
def Stop.IsForeseen (limit : Limit) : Stop → Prop
  | .failure (.error e) => e.cause.family.isEvaluation = true
  | .failure (.fault f) =>
    f.IsMisplacement ∨ f = .infiniteDividend ∨ ∃ kind, limit = .unusable kind ∧ f = .notALimit kind
  | .leaving | .tooDeep => True
  | .outOfSteps => limit.most? = none

theorem foreseen_of_answered {limit : Limit} {r : Except Failure Value} (h : Answered r)
    {f : Failure} (hf : r = .error f) : Stop.IsForeseen limit (.failure f) := by
  cases h with
  | value => cases hf
  | operandType hc | divisionByZero hc =>
    cases hf
    exact congrArg Family.isEvaluation hc

theorem foreseen_of_applyBinary {limit : Limit} {op : String} {a b : Value} {f : Failure}
    (hf : applyBinary op a b = .error f) : Stop.IsForeseen limit (.failure f) := by
  by_cases hr : op = "%" ∧ a.LackRemainder b
  · obtain ⟨rfl, hlack⟩ := hr
    cases (applyBinary_of_lackRemainder hlack).symm.trans hf
    exact .inr (.inl rfl)
  · exact foreseen_of_answered ((answered_applyBinary op a b).2 hr) hf

/-- Whether an action has ended in a way that is foreseen, with at least so many iterations
counted. Where something comes after it the count is within the limit. -/
inductive EndsForeseen (limit : Limit) (least : Nat) {α : Type} :
    EStateM.Result Stop State α → Prop where
  | ok {a : α} {s : State} : least ≤ s.iterations → (∀ N ∈ limit.most?, s.iterations ≤ N) →
    EndsForeseen limit least (.ok a s)
  | error {e : Stop} {s : State} : e.IsForeseen limit → least ≤ s.iterations →
    (e = .leaving → ∀ N ∈ limit.most?, s.iterations ≤ N) → EndsForeseen limit least (.error e s)

theorem EndsForeseen.mono {limit : Limit} {k l : Nat} {α : Type}
    {r : EStateM.Result Stop State α} (h : EndsForeseen limit k r) (hl : l ≤ k) :
    EndsForeseen limit l r := by
  cases h with
  | ok hk hN => exact .ok (hl.trans hk) hN
  | error he hk hN => exact .error he (hl.trans hk) hN

/-- Whether an action ends in ways that are foreseen and takes back no iteration. -/
def Run.Foreseen (limit : Limit) {α : Type} (action : Run α) : Prop :=
  ∀ s : State, (∀ N ∈ limit.most?, s.iterations ≤ N) → EndsForeseen limit s.iterations (action s)

namespace Run.Foreseen

variable {limit : Limit} {α β : Type}

theorem pure (a : α) : Foreseen limit (pure a : Run α) :=
  fun _ hs => .ok (Nat.le_refl _) hs

theorem throw {e : Stop} (h : e.IsForeseen limit) : Foreseen limit (throw e : Run α) :=
  fun _ hs => .error h (Nat.le_refl _) fun _ => hs

theorem bind {r : Run α} {k : α → Run β} (h : r.Foreseen limit)
    (hk : ∀ a, (k a).Foreseen limit) : Foreseen limit (r >>= k) := by
  intro s hs
  have hends := h s hs
  cases hr : r s with
  | ok a s' =>
    rw [hr] at hends
    rw [bind_of_ok hr]
    cases hends with
    | ok hle hs' => exact (hk a s' hs').mono hle
  | error e s' =>
    rw [hr] at hends
    rw [bind_of_error hr]
    cases hends with
    | error he hle hs' => exact .error he hle hs'

/-- An action that is no loop counts nothing. -/
theorem of_quiet {r : Run α} (h : r.Quiet) (hstop : ∀ s, ∀ e ∈ stop? (r s), e.IsForeseen limit) :
    Foreseen limit r := by
  intro s hs
  have hq := (h s).iterations
  have he := hstop s
  cases hr : r s with
  | ok a s' =>
    rw [hr] at hq
    rw [← hq]
    exact .ok (Nat.le_refl _) fun N hN => hq.trans_le (hs N hN)
  | error e s' =>
    rw [hr] at hq he
    rw [← hq]
    exact .error (he e rfl) (Nat.le_refl _) fun _ N hN => hq.trans_le (hs N hN)

theorem record (settings : Settings) (e : Event) : Foreseen limit (Run.record settings e) := by
  refine .of_quiet (.record settings e) fun s => ?_
  unfold Run.record
  split <;> nofun

theorem variableOf (name : Json) : Foreseen limit (Run.variableOf name) := by
  unfold Run.variableOf
  split
  · exact .pure _
  · exact .throw (.inl trivial)

theorem setVariable (name : Json) (value : Value) : Foreseen limit (Run.setVariable name value) :=
  .bind (.variableOf name) fun _ => .of_quiet (.modify (fun _ => rfl) fun _ => rfl) nofun

theorem lookup (name : Json) (m : Mark) : Foreseen limit (Run.lookup name m) := by
  refine .bind (.variableOf name) fun x s hs => ?_
  rw [bind_get]
  cases s.env.get? x with
  | some v => exact Foreseen.pure v s hs
  | none =>
    have he : Stop.IsForeseen limit (.failure (.error ⟨.undefinedVariable x, m⟩)) := rfl
    exact Foreseen.throw he s hs

theorem readLine? : Foreseen limit Run.readLine? := by
  refine .of_quiet .readLine? fun s => ?_
  rw [Run.readLine?, bind_get]
  cases s.pending with
  | nil => rintro _ ⟨⟩
  | cons line rest => rintro _ ⟨⟩

theorem ofExcept {r : Except Failure α}
    (h : ∀ f, r = .error f → Stop.IsForeseen limit (.failure f)) :
    Foreseen limit (Run.ofExcept r) := by
  cases r with
  | ok a => exact .pure a
  | error f => exact .throw (h f rfl)

theorem fail {c : Cause} (h : c.family.isEvaluation = true) : Foreseen limit (Run.fail c : Run α) :=
  .throw h

/-- Placing an error changes neither its family nor the state. -/
theorem placing {r : Run α} (m : Mark) (h : r.Foreseen limit) :
    Foreseen limit (Run.placing m r) := by
  intro s hs
  have hends := h s hs
  unfold Run.placing
  cases hr : r s with
  | ok a s' =>
    rw [hr] at hends
    exact hends
  | error e s' =>
    rw [hr] at hends
    cases hends with
    | error he hle hs' =>
      match e with
      | .failure (.error e) => exact .error he hle nofun
      | .failure (.fault f) => exact .error he hle nofun
      | .leaving => exact .error he hle hs'
      | .tooDeep => exact .error he hle nofun
      | .outOfSteps => exact .error he hle nofun

theorem eval (settings : Settings) (depth : Nat) (node : Node) :
    Foreseen limit (Scriptling.eval settings depth node) := by
  induction depth generalizing node with
  | zero => exact .throw trivial
  | succ depth ih =>
    cases node with
    | number x => exact .pure _
    | string s => exact .pure _
    | bool b => exact .pure _
    | ident name m => exact .lookup name m
    | binary op left right =>
      exact .bind (ih left) fun _ => .bind (ih right) fun _ =>
        .ofExcept fun _ => foreseen_of_applyBinary
    | unary op operand =>
      exact .bind (ih operand) fun a =>
        .ofExcept fun _ => foreseen_of_answered (answered_applyUnary _ a)
    | update name op value m =>
      exact .bind (.lookup name m) fun _ => .bind (ih value) fun _ =>
        .bind (.ofExcept fun _ => foreseen_of_applyBinary) fun _ =>
        .bind (.setVariable name _) fun _ => .bind (.record settings _) fun _ => .pure _
    | _ => exact .throw (.inl trivial)

theorem evalCondition (settings : Settings) (depth : Nat) (construct : String) (node : Node) :
    Foreseen limit (Scriptling.evalCondition settings depth construct node) := by
  refine .bind (.eval settings depth node) fun v => .bind (.record settings _) fun _ => ?_
  split
  · exact .pure _
  · exact .fail rfl

/-- An iteration is counted within the limit or ends everything. -/
theorem iteration {settings : Settings} {body : Run Unit} (h : body.Foreseen settings.limit)
    (s : State) :
    EndsForeseen settings.limit (s.iterations + 1)
      ((do Run.countIteration settings; body : Run Unit) s) := by
  have happly := Run.countIteration_apply settings s
  cases hlimit : settings.limit with
  | unlimited =>
    rw [hlimit] at happly
    rw [bind_of_ok happly, ← hlimit]
    refine h s.counted ?_
    rw [hlimit]
    exact nofun
  | atMost n =>
    rw [hlimit] at happly
    dsimp only at happly
    split at happly
    · rw [bind_of_error happly]
      exact .error rfl (Nat.le_refl _) nofun
    · rename_i hn
      rw [bind_of_ok happly, ← hlimit]
      refine h s.counted ?_
      rw [hlimit]
      rintro N ⟨⟩
      omega
  | unusable kind =>
    rw [hlimit] at happly
    rw [bind_of_error happly]
    exact .error (.inr (.inr ⟨kind, rfl, rfl⟩)) (Nat.le_refl _) nofun

/-- A `break` that leaves an iteration is no stop of the loop. -/
theorem endsForeseen_leaves {body : Run Unit} {s : State} {least : Nat}
    (h : EndsForeseen limit least (body s)) : EndsForeseen limit least (Run.leaves body s) := by
  unfold Run.leaves
  cases hr : body s with
  | ok a s' =>
    rw [hr] at h
    cases h with
    | ok hle hs' => exact .ok hle hs'
  | error e s' =>
    rw [hr] at h
    cases h with
    | error he hle hs' =>
      match e with
      | .failure f => exact .error he hle nofun
      | .leaving => exact .ok hle (hs' rfl)
      | .tooDeep => exact .error he hle nofun
      | .outOfSteps => exact .error he hle nofun

theorem repeatWhile {settings : Settings} {test : Run Bool} {body : Run Unit}
    (ht : test.Foreseen settings.limit) (hb : body.Foreseen settings.limit) {steps : Nat}
    (hsteps : ∀ N ∈ settings.limit.most?, N < steps) :
    Foreseen settings.limit
      (Run.repeatWhile test (do Run.countIteration settings; body) steps) := by
  -- The induction is on the steps that are left; with the iterations so far they exceed the limit.
  have hends : ∀ (steps : Nat) (s : State),
      (∀ N ∈ settings.limit.most?, s.iterations ≤ N) →
      (∀ N ∈ settings.limit.most?, N < s.iterations + steps) →
      EndsForeseen settings.limit s.iterations
        (Run.repeatWhile test (do Run.countIteration settings; body) steps s) := by
    intro steps
    induction steps with
    | zero =>
      intro s hs hleft
      refine .error ?_ (Nat.le_refl _) nofun
      refine Option.eq_none_iff_forall_not_mem.2 fun N hN => ?_
      exact absurd (hs N hN) (by have := hleft N hN; omega)
    | succ steps ih =>
      intro s hs hleft
      rw [Run.repeatWhile]
      have htest := ht s hs
      cases hr : test s with
      | error e s₁ =>
        rw [hr] at htest
        rw [bind_of_error hr]
        cases htest with
        | error he hle hs₁ => exact .error he hle hs₁
      | ok b s₁ =>
        rw [hr] at htest
        rw [bind_of_ok hr]
        obtain ⟨hle, hs₁⟩ : s.iterations ≤ s₁.iterations ∧
            ∀ N ∈ settings.limit.most?, s₁.iterations ≤ N := by
          cases htest with
          | ok hle hs₁ => exact ⟨hle, hs₁⟩
        cases b with
        | false => exact .ok hle hs₁
        | true =>
          have hround := endsForeseen_leaves (iteration hb s₁)
          simp only [if_true]
          cases hl : Run.leaves (do Run.countIteration settings; body) s₁ with
          | error e s₂ =>
            rw [hl] at hround
            rw [bind_of_error hl]
            cases hround with
            | error he hle₂ hs₂ => exact .error he (by omega) hs₂
          | ok left s₂ =>
            rw [hl] at hround
            rw [bind_of_ok hl]
            cases hround with
            | ok hle₂ hs₂ =>
              cases left with
              | true => exact .ok (by omega) hs₂
              | false =>
                refine (ih s₂ hs₂ fun N hN => ?_).mono (by omega)
                have := hleft N hN
                omega
  exact fun s hs => hends steps s hs fun N hN => by have := hsteps N hN; omega

theorem inOrder {run : Node → Run Unit} {ns : List Node}
    (h : ∀ n ∈ ns, (run n).Foreseen limit) : Foreseen limit (Scriptling.inOrder run ns) := by
  induction ns with
  | nil => exact .pure ()
  | cons n ns ih =>
    obtain ⟨hn, hns⟩ := List.forall_mem_cons.1 h
    exact .bind hn fun _ => ih hns

theorem inBlock {run : Node → Run Unit} (h : ∀ n, (run n).Foreseen limit) (node : Node) :
    Foreseen limit (Scriptling.inBlock run node) := by
  cases node with
  | block ns => exact .inOrder fun n _ => h n
  | _ => exact .throw (.inl trivial)

/-- Whatever stands in the place of a statement, it ends in a way that is foreseen. -/
theorem exec {settings : Settings} {steps : Nat} (hsteps : ∀ N ∈ settings.limit.most?, N < steps)
    (depth : Nat) (node : Node) :
    Foreseen settings.limit (Scriptling.exec settings steps depth node) := by
  induction depth using Nat.strongRecOn generalizing node with
  | ind depth ih =>
    match depth with
    | 0 | 1 | 2 => exact .throw trivial
    | depth + 3 =>
      have inner := ih depth (by omega)
      refine .bind (.record settings _) fun _ => .placing node.mark ?_
      cases node with
      | print value m =>
        exact .bind (.eval settings _ value) fun _ => .bind (.record settings _) fun _ =>
          .of_quiet (.write _) nofun
      | input name m =>
        refine .bind .readLine? fun line? => ?_
        cases line? with
        | some line => exact .bind (.setVariable name _) fun _ => .record settings _
        | none => exact .fail rfl
      | assign name value m =>
        exact .bind (.eval settings _ value) fun _ => .bind (.setVariable name _) fun _ =>
          .record settings _
      | branch condition thenBlock elseBlock m =>
        refine .bind (.evalCondition settings _ "if" condition) fun c => ?_
        cases c with
        | true => exact .inBlock inner thenBlock
        | false =>
          simp only [Bool.false_eq_true, if_false]
          split
          · exact .pure ()
          · exact .inBlock inner elseBlock
      | loop condition body m =>
        exact .repeatWhile (.evalCondition settings _ "while" condition) (.inBlock inner body)
          hsteps
      | leave m => exact .throw trivial
      | evaluate value m => exact .bind (.eval settings _ value) fun _ => .pure ()
      | block ns => exact .inOrder fun n _ => inner n
      | _ => exact .throw (.inl trivial)

end Run.Foreseen

/-- The ways in which the run of a program may stop. -/
inductive StopsRun (limit : Limit) : Stop → Prop where
  | error {e : Error} : e.cause.family.isEvaluation = true → StopsRun limit (.failure (.error e))
  | misplacement {f : Fault} : f.IsMisplacement → StopsRun limit (.failure (.fault f))
  | infiniteDividend : StopsRun limit (.failure (.fault .infiniteDividend))
  | notALimit {kind : String} : limit = .unusable kind →
    StopsRun limit (.failure (.fault (.notALimit kind)))
  | outOfSteps : limit = .unlimited → StopsRun limit .outOfSteps

theorem stopsRun_of_conclude {settings : Settings} {body : Run Unit} {s s' : State} {e : Stop}
    {least : Nat} (hends : EndsForeseen settings.limit least (body s))
    (h : conclude settings body s = .error e s') : StopsRun settings.limit e := by
  unfold conclude at h
  generalize body s = r at h hends
  cases hends with
  | ok => cases h
  | @error e _ he =>
    match e with
    | .failure (.error e) =>
      cases h
      exact .error he
    | .failure (.fault f) =>
      cases h
      rcases he with hf | rfl | ⟨kind, hlimit, rfl⟩
      · exact .misplacement hf
      · exact .infiniteDividend
      · exact .notALimit hlimit
    | .leaving | .tooDeep =>
      cases h
      exact .error rfl
    | .outOfSteps =>
      cases h
      exact .outOfSteps (Limit.eq_unlimited_of_most? he)

/-- Every run of every program stops in one of these ways, unless it ends normally. -/
theorem stopsRun_of_runWithin {settings : Settings} {steps : Nat}
    (hsteps : ∀ N ∈ settings.limit.most?, N < steps) {depth : Nat} {body : List Node}
    {s s' : State} {e : Stop}
    (h : runWithin settings steps depth (.program body) s = .error e s') :
    StopsRun settings.limit e := by
  have hbody : Run.Foreseen settings.limit (inOrder (exec settings steps depth) body) :=
    .inOrder fun n _ => .exec hsteps depth n
  obtain ⟨s₁, hs₁, hrecord⟩ : ∃ s₁ : State, s₁.iterations = 0 ∧
      Run.record settings (.started body.length) (s.started settings.level) = .ok () s₁ := by
    unfold Run.record
    split
    · exact ⟨_, rfl, rfl⟩
    · exact ⟨_, rfl, rfl⟩
  change (do
    Run.record settings (.started body.length)
    conclude settings (inOrder (exec settings steps depth) body)) (s.started settings.level) = _
    at h
  rw [bind_of_ok hrecord] at h
  exact stopsRun_of_conclude (hbody s₁ fun N _ => hs₁ ▸ Nat.zero_le N) h

/-- The fault of a tree that is no program. -/
def Node.programFault : Node → Fault
  | .loop _ body _ => .bodyNotList body.kind
  | node => .notProgram node.kind

/-- What is no program is not run at all. -/
theorem runProgram_of_not_program (settings : Settings) {tree : Node}
    (h : ∀ body, tree ≠ .program body) (s : State) :
    runProgram settings tree s =
      .error (.failure (.fault tree.programFault)) (s.started settings.level) := by
  cases tree with
  | program body => exact absurd rfl (h body)
  | _ => rfl

end Scriptling
