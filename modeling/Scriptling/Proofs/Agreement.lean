import Scriptling.Proofs.Observation

/-!
# Execution and the rules

Executing statements agrees with the rules. In one direction the result of every execution
is derived, by induction on its bounds; in the other every derivation is followed, by
induction on it, by all executions with bounds that are large enough.
-/
namespace Scriptling

theorem Mark.orElse_assoc (m a b : Mark) : (m.orElse a).orElse b = m.orElse (a.orElse b) := by
  cases hm : m.isKnown <;> cases ha : a.isKnown <;> cases hb : b.isKnown <;>
    simp [orElse, hm, ha, hb]

theorem Failure.placedAt_unknown (f : Failure) : f.placedAt .unknown = f := by
  rcases f with e | f
  · simp only [placedAt, Error.placedAt, Mark.orElse_unknown]
  · rfl

namespace Ending

theorem result_within (n : Node) (o : Ending) : (o.within n).result = placed n.mark o.result := by
  rcases o with _ | _ | ⟨path, e | f⟩
  · rfl
  · rfl
  · simp only [within, result, placed, Failure.placedAt, Error.placedAt,
      Node.innermostMark_append, Mark.orElse_assoc]
  · rfl

/-- A failure that arises outside of every statement has the place that it came with. -/
theorem result_failed_nil (f : Failure) : (failed [] f).result = .error (.failure f) := by
  change Except.error (Stop.failure (f.placedAt .unknown)) = _
  rw [f.placedAt_unknown]

end Ending

open BigStep

/-- Evaluating an expression follows the rules. -/
theorem ensures_eval (settings : Settings) (depth : Nat) {n : Node} (h : n.IsProperExpression)
    (w : World) : (eval settings depth n).Ensures w fun w' x =>
      ∃ r : Except Failure Value, x = r.mapError .failure ∧ Evaluates w n w' r := by
  induction depth generalizing n w with
  | zero => exact .throw_bound rfl
  | succ depth ih =>
    cases h with
    | number => exact .of_gives (.pure _) ⟨.ok _, rfl, .number⟩
    | string => exact .of_gives (.pure _) ⟨.ok _, rfl, .string⟩
    | bool => exact .of_gives (.pure _) ⟨.ok _, rfl, .bool⟩
    | ident => exact .of_gives (.lookup rfl) ⟨_, rfl, .ident⟩
    | binary hl hr =>
      refine .bind ((ih hl w).mono ?_)
      rintro w₁ _ ⟨a | a, rfl, ha⟩
      · exact ⟨_, rfl, .binaryLeft ha⟩
      refine .bind ((ih hr w₁).mono ?_)
      rintro w₂ _ ⟨b | b, rfl, hb⟩
      · exact ⟨_, rfl, .binaryRight ha hb⟩
      exact .of_gives (.ofExcept rfl) ⟨_, rfl, .binary ha hb⟩
    | unary hn =>
      refine .bind ((ih hn w).mono ?_)
      rintro w₁ _ ⟨a | a, rfl, ha⟩
      · exact ⟨_, rfl, .unaryOperand ha⟩
      exact .of_gives (.ofExcept rfl) ⟨_, rfl, .unary ha⟩
    | @update name op n m hn =>
      cases hread : w.read name m with
      | error f =>
        exact .of_gives (.bind_error (.lookup hread)) ⟨.error f, rfl, .updateUnread hread⟩
      | ok a =>
        refine .after (.lookup hread) (.bind ((ih hn w).mono ?_))
        rintro w₁ _ ⟨b | b, rfl, hb⟩
        · exact ⟨_, rfl, .updateValue hread hb⟩
        cases happly : applyBinary op.display a b with
        | error f =>
          exact .of_gives (.bind_error (.ofExcept happly))
            ⟨.error f, rfl, .updateRefused hread hb happly⟩
        | ok v =>
          obtain ⟨w₂, hstore⟩ := World.store_of_read hread w₁ v
          exact .after (.ofExcept happly) (.after (.setVariable_ok hstore)
            (.after (.record _ _) (.of_gives (.pure _)
              ⟨.ok v, rfl, .update hread hb happly hstore⟩)))

theorem ensures_evalCondition (settings : Settings) (depth : Nat) (construct : String) {c : Node}
    (h : c.IsProperExpression) (w : World) :
    (evalCondition settings depth construct c).Ensures w fun w' x =>
      ∃ r : Except Failure Bool, x = r.mapError .failure ∧ Decides construct w c w' r := by
  refine .bind ((ensures_eval settings depth h w).mono ?_)
  rintro w₁ _ ⟨v | v, rfl, hv⟩
  · exact ⟨.error v, rfl, .fails hv⟩
  refine .after (.record _ _) ?_
  cases v with
  | bool b => exact .of_gives (.pure b) ⟨.ok b, rfl, .truth hv⟩
  | _ => exact .of_gives (.throw _) ⟨.error _, rfl, .other hv rfl⟩

/-- Whether an action ends in the ways that the rules give a task. -/
def Run.Obeys (limit : Limit) (task : Task) (action : Run Unit) : Prop :=
  ∀ w, action.Ensures w fun w' x => ∃ o : Ending, o.result = x ∧ Executes limit task w w' o

theorem obeys_inOrder {limit : Limit} {run : Node → Run Unit} {ns : List Node}
    (h : ∀ n ∈ ns, (run n).Obeys limit (.statement n)) :
    (inOrder run ns).Obeys limit (.sequence ns) := by
  induction ns with
  | nil => exact fun w => .of_gives (.pure ()) ⟨.finished, rfl, .nil⟩
  | cons n ns ih =>
    obtain ⟨hn, hns⟩ := List.forall_mem_cons.1 h
    intro w
    refine .bind ((hn w).mono ?_)
    rintro w₁ _ ⟨o, rfl, ho⟩
    cases o with
    | finished =>
      refine (ih hns w₁).mono ?_
      rintro w₂ _ ⟨o, rfl, ho'⟩
      exact ⟨o, rfl, .cons ho ho'⟩
    | leaving => exact ⟨.leaving, rfl, .consStops ho nofun⟩
    | failed path f => exact ⟨.failed path f, rfl, .consStops ho nofun⟩

/-- A loop is repeated as the rules say. -/
theorem obeys_repeatWhile {settings : Settings} {ns : List Node} {body : Run Unit}
    (hbody : body.Obeys settings.limit (.sequence ns)) (depth : Nat) {c : Node}
    (hc : c.IsProperExpression) (rounds : Nat) :
    (Run.repeatWhile (evalCondition settings depth "while" c)
      (do Run.countIteration settings; body) rounds).Obeys settings.limit (.repetition c ns) := by
  induction rounds with
  | zero => exact fun w => .throw_bound rfl
  | succ rounds ih =>
    intro w
    refine .bind ((ensures_evalCondition settings depth "while" hc w).mono ?_)
    rintro w₁ _ ⟨f | _ | _, rfl, hw₁⟩
    · exact ⟨.failed [] f, Ending.result_failed_nil f, .condition hw₁⟩
    · exact .of_gives (.pure ()) ⟨.finished, rfl, .done hw₁⟩
    refine .bind (.leaves ?_)
    cases hr : settings.limit.refusal? w₁.counted.iterations with
    | some f =>
      exact .of_gives (.bind_error (.countIteration_error hr))
        ⟨.failed [] f, Ending.result_failed_nil f, .refused hw₁ hr⟩
    | none =>
      refine .after (.countIteration_ok hr) ((hbody w₁.counted).mono ?_)
      rintro w₂ _ ⟨o, rfl, ho⟩
      cases o with
      | finished =>
        refine (ih w₂).mono ?_
        rintro w₃ _ ⟨o, rfl, ho'⟩
        exact ⟨o, rfl, .again hw₁ hr ho ho'⟩
      | leaving => exact .of_gives (.pure ()) ⟨.finished, rfl, .left hw₁ hr ho⟩
      | failed path f => exact ⟨.failed path f, rfl, .bodyFails hw₁ hr ho⟩

/-- Executing a statement follows the rules. -/
theorem obeys_exec (settings : Settings) (steps depth : Nat) {n : Node}
    (h : n.IsProperStatement) :
    (exec settings steps depth n).Obeys settings.limit (.statement n) := by
  induction depth using Nat.strongRecOn generalizing n with
  | ind depth ih =>
    match depth with
    | 0 | 1 | 2 => exact fun w => .throw_bound rfl
    | depth + 3 =>
      have inner : ∀ {ns : List Node}, (∀ n ∈ ns, n.IsProperStatement) →
          (inOrder (exec settings steps depth) ns).Obeys settings.limit (.sequence ns) :=
        fun hns => obeys_inOrder fun n hn => ih depth (by omega) (hns n hn)
      intro w
      refine .after (.record _ _) (.placing ?_)
      -- What the statement does decides its end but for the place of a failure.
      refine Run.Ensures.mono (P := fun w' x => ∃ o : Ending, o.result = x ∧
        Executes settings.limit (.statement n) w w' (o.within n)) ?_ ?_
      rotate_left
      · rintro w' _ ⟨o, rfl, ho⟩
        exact ⟨o.within n, o.result_within n, ho⟩
      cases h with
      | print he =>
        refine .bind ((ensures_eval settings _ he w).mono ?_)
        rintro w₁ _ ⟨f | v, rfl, hv⟩
        · exact ⟨.failed [] f, Ending.result_failed_nil f, .printValue hv⟩
        · exact .after (.record _ _) (.of_gives (.write _) ⟨.finished, rfl, .print hv⟩)
      | @input name m =>
        cases hp : w.pending with
        | nil =>
          exact .after (.readLine?_nil hp) (.of_gives (.throw _)
            ⟨.failed [] _, Ending.result_failed_nil _, .inputEnds hp⟩)
        | cons line rest =>
          refine .after (.readLine?_cons hp) ?_
          cases hstore : World.store { w with pending := rest } name (.string line) with
          | error f =>
            exact .of_gives (.bind_error (.setVariable_error hstore))
              ⟨.failed [] f, Ending.result_failed_nil f, .inputUnnamed hp hstore⟩
          | ok w₁ =>
            exact .after (.setVariable_ok hstore)
              (.of_gives (.record _ _) ⟨.finished, rfl, .input hp hstore⟩)
      | @assign name e m he =>
        refine .bind ((ensures_eval settings _ he w).mono ?_)
        rintro w₁ _ ⟨f | v, rfl, hv⟩
        · exact ⟨.failed [] f, Ending.result_failed_nil f, .assignValue hv⟩
        cases hstore : w₁.store name v with
        | error f =>
          exact .of_gives (.bind_error (.setVariable_error hstore))
            ⟨.failed [] f, Ending.result_failed_nil f, .assignUnnamed hv hstore⟩
        | ok w₂ =>
          exact .after (.setVariable_ok hstore)
            (.of_gives (.record _ _) ⟨.finished, rfl, .assign hv hstore⟩)
      | branch hc hts =>
        refine .bind ((ensures_evalCondition settings _ "if" hc w).mono ?_)
        rintro w₁ _ ⟨f | _ | _, rfl, hw₁⟩
        · exact ⟨.failed [] f, Ending.result_failed_nil f, .branchCondition hw₁⟩
        · exact .of_gives (.pure ()) ⟨.finished, rfl, .branchNone hw₁⟩
        · refine (inner hts w₁).mono ?_
          rintro w₂ _ ⟨o, rfl, ho⟩
          exact ⟨o, rfl, .branchThen hw₁ ho⟩
      | branchElse hc hts hes =>
        refine .bind ((ensures_evalCondition settings _ "if" hc w).mono ?_)
        rintro w₁ _ ⟨f | _ | _, rfl, hw₁⟩
        · exact ⟨.failed [] f, Ending.result_failed_nil f, .branchCondition hw₁⟩
        · refine (inner hes w₁).mono ?_
          rintro w₂ _ ⟨o, rfl, ho⟩
          exact ⟨o, rfl, .branchElse hw₁ ho⟩
        · refine (inner hts w₁).mono ?_
          rintro w₂ _ ⟨o, rfl, ho⟩
          exact ⟨o, rfl, .branchThen hw₁ ho⟩
      | loop hc hns =>
        refine (obeys_repeatWhile (inner hns) (depth + 1) hc steps w).mono ?_
        rintro w₁ _ ⟨o, rfl, ho⟩
        exact ⟨o, rfl, .loop ho⟩
      | leave => exact .of_gives (.throw _) ⟨.leaving, rfl, .leave⟩
      | evaluate he =>
        refine .bind ((ensures_eval settings _ he w).mono ?_)
        rintro w₁ _ ⟨f | v, rfl, hv⟩
        · exact ⟨.failed [] f, Ending.result_failed_nil f, .evaluateValue hv⟩
        · exact .of_gives (.pure ()) ⟨.finished, rfl, .evaluate hv⟩
      | block hns =>
        refine (inner hns w).mono ?_
        rintro w₁ _ ⟨o, rfl, ho⟩
        exact ⟨o, rfl, .block ho⟩

/-- A derived value is the one that is evaluated, given enough depth. -/
theorem gives_eval (settings : Settings) {w w' : World} {n : Node} {r : Except Failure Value}
    (h : Evaluates w n w' r) :
    ∃ B, ∀ depth, B < depth → (eval settings depth n).Gives w w' (r.mapError .failure) := by
  -- Every rule takes one level more than its premises.
  have step : ∀ {B : Nat} {n : Node} {w w' : World} {x : Except Stop Value},
      (∀ depth, B ≤ depth → (eval settings (depth + 1) n).Gives w w' x) →
      ∃ B, ∀ depth, B < depth → (eval settings depth n).Gives w w' x := by
    intro B n w w' x h
    refine ⟨B, fun depth hd => ?_⟩
    obtain ⟨d, rfl⟩ : ∃ d, depth = d + 1 := ⟨depth - 1, by omega⟩
    exact h d (by omega)
  induction h with
  | number => exact step (B := 0) fun _ _ => .pure _
  | string => exact step (B := 0) fun _ _ => .pure _
  | bool => exact step (B := 0) fun _ _ => .pure _
  | ident => exact step (B := 0) fun _ _ => .lookup rfl
  | binary _ _ ihl ihr =>
    obtain ⟨B, hl⟩ := ihl
    obtain ⟨C, hr⟩ := ihr
    exact step (B := B + C + 1) fun depth hd =>
      .bind (hl depth (by omega)) (.bind (hr depth (by omega)) (.ofExcept rfl))
  | binaryLeft _ ihl =>
    obtain ⟨B, hl⟩ := ihl
    exact step (B := B + 1) fun depth hd => .bind_error (hl depth (by omega))
  | binaryRight _ _ ihl ihr =>
    obtain ⟨B, hl⟩ := ihl
    obtain ⟨C, hr⟩ := ihr
    exact step (B := B + C + 1) fun depth hd =>
      .bind (hl depth (by omega)) (.bind_error (hr depth (by omega)))
  | unary _ ih =>
    obtain ⟨B, hn⟩ := ih
    exact step (B := B + 1) fun depth hd => .bind (hn depth (by omega)) (.ofExcept rfl)
  | unaryOperand _ ih =>
    obtain ⟨B, hn⟩ := ih
    exact step (B := B + 1) fun depth hd => .bind_error (hn depth (by omega))
  | update hread _ happly hstore ih =>
    obtain ⟨B, hn⟩ := ih
    exact step (B := B + 1) fun depth hd =>
      .bind (.lookup hread) (.bind (hn depth (by omega)) (.bind (.ofExcept happly)
        (.bind (.setVariable_ok hstore) (.bind (.record _ _) (.pure _)))))
  | updateUnread hread => exact step (B := 0) fun _ _ => .bind_error (.lookup hread)
  | updateValue hread _ ih =>
    obtain ⟨B, hn⟩ := ih
    exact step (B := B + 1) fun depth hd =>
      .bind (.lookup hread) (.bind_error (hn depth (by omega)))
  | updateRefused hread _ happly ih =>
    obtain ⟨B, hn⟩ := ih
    exact step (B := B + 1) fun depth hd =>
      .bind (.lookup hread) (.bind (hn depth (by omega)) (.bind_error (.ofExcept happly)))

theorem gives_evalCondition (settings : Settings) {construct : String} {w w' : World} {c : Node}
    {r : Except Failure Bool} (h : Decides construct w c w' r) :
    ∃ B, ∀ depth, B < depth →
      (evalCondition settings depth construct c).Gives w w' (r.mapError .failure) := by
  cases h with
  | truth hv =>
    obtain ⟨B, hB⟩ := gives_eval settings hv
    exact ⟨B, fun depth hd => .bind (hB depth hd) (.bind (.record _ _) (.pure _))⟩
  | other hv hother =>
    rename_i v
    obtain ⟨B, hB⟩ := gives_eval settings hv
    refine ⟨B, fun depth hd => .bind (hB depth hd) (.bind (.record _ _) ?_)⟩
    cases v with
    | bool b => cases hother
    | _ => exact .throw _
  | fails hv =>
    obtain ⟨B, hB⟩ := gives_eval settings hv
    exact ⟨B, fun depth hd => .bind_error (hB depth hd)⟩

theorem mapError_failure_injective {α : Type} {r r' : Except Failure α}
    (h : r.mapError Stop.failure = r'.mapError .failure) : r = r' := by
  cases r <;> cases r' <;> cases h <;> rfl

/-- An expression has one value or one failure. -/
theorem BigStep.Evaluates.unique {w w₁ w₂ : World} {n : Node} {r₁ r₂ : Except Failure Value}
    (h₁ : Evaluates w n w₁ r₁) (h₂ : Evaluates w n w₂ r₂) : w₁ = w₂ ∧ r₁ = r₂ := by
  obtain ⟨B, hB⟩ := gives_eval ⟨0, .unlimited⟩ h₁
  obtain ⟨C, hC⟩ := gives_eval ⟨0, .unlimited⟩ h₂
  obtain ⟨hw, hr⟩ := (hB (B + C + 1) (by omega)).unique (hC (B + C + 1) (by omega))
  exact ⟨hw, mapError_failure_injective hr⟩

theorem BigStep.Decides.unique {construct : String} {w w₁ w₂ : World} {c : Node}
    {r₁ r₂ : Except Failure Bool} (h₁ : Decides construct w c w₁ r₁)
    (h₂ : Decides construct w c w₂ r₂) : w₁ = w₂ ∧ r₁ = r₂ := by
  obtain ⟨B, hB⟩ := gives_evalCondition ⟨0, .unlimited⟩ h₁
  obtain ⟨C, hC⟩ := gives_evalCondition ⟨0, .unlimited⟩ h₂
  obtain ⟨hw, hr⟩ := (hB (B + C + 1) (by omega)).unique (hC (B + C + 1) (by omega))
  exact ⟨hw, mapError_failure_injective hr⟩

/-- A task has one end, and the statements under way at it are the same ones. -/
theorem BigStep.Executes.unique {limit : Limit} {task : Task} {w w₁ w₂ : World}
    {o₁ o₂ : Ending} (h₁ : Executes limit task w w₁ o₁) (h₂ : Executes limit task w w₂ o₂) :
    w₁ = w₂ ∧ o₁ = o₂ := by
  -- Two rules for one task differ in what an expression or a shorter task comes to, and that
  -- is unique.
  induction h₁ generalizing w₂ o₂ <;> cases h₂ <;> grind [Evaluates.unique, Decides.unique]

/-- The action that a task stands for. -/
def BigStep.Task.run (settings : Settings) (steps depth rounds : Nat) : Task → Run Unit
  | .statement n => exec settings steps depth n
  | .sequence ns => inOrder (exec settings steps depth) ns
  | .repetition c ns =>
    Run.repeatWhile (evalCondition settings (depth + 1) "while" c)
      (do
        Run.countIteration settings
        inOrder (exec settings steps depth) ns)
      rounds

/-- Whether a task ends so in the world `w`, given enough steps and depth. -/
def BigStep.Task.Reaches (settings : Settings) (task : Task) (w w' : World) (o : Ending) : Prop :=
  ∃ B, ∀ steps depth rounds, B < steps → B < depth → B < rounds →
    (task.run settings steps depth rounds).Gives w w' o.result

namespace BigStep.Task.Reaches

variable {settings : Settings} {B : Nat} {n : Node} {body : Nat → Nat → Run Unit} {w w' : World}

/-- What a statement does is done three levels further down, and gets its place. -/
theorem statement {o : Ending}
    (hexec : ∀ steps depth, exec settings steps (depth + 3) n =
      (do
        Run.record settings (.entered n.kind n.mark.line)
        Run.placing n.mark (body steps depth)))
    (hbody : ∀ steps depth, B < steps → B < depth → (body steps depth).Gives w w' o.result) :
    Reaches settings (.statement n) w w' (o.within n) := by
  refine ⟨B + 3, fun steps depth rounds hs hd _ => ?_⟩
  obtain ⟨d, rfl⟩ : ∃ d, depth = d + 3 := ⟨depth - 3, by omega⟩
  rw [Ending.result_within, run, hexec]
  exact .bind (.record _ _) (.placing _ (hbody steps d (by omega) (by omega)))

/-- A failure that arises in a statement itself. -/
theorem failure {f : Failure}
    (hexec : ∀ steps depth, exec settings steps (depth + 3) n =
      (do
        Run.record settings (.entered n.kind n.mark.line)
        Run.placing n.mark (body steps depth)))
    (hbody : ∀ steps depth, B < depth → (body steps depth).Gives w w' (.error (.failure f))) :
    Reaches settings (.statement n) w w' (.failed [n] f) := by
  refine statement (B := B) (o := .failed [] f) hexec fun steps depth _ hd => ?_
  rw [Ending.result_failed_nil]
  exact hbody steps depth hd

/-- A loop takes a round for each test of its condition. -/
theorem repetition {c : Node} {ns : List Node} {o : Ending}
    (h : ∀ steps depth rounds, B < steps → B < depth → B < rounds →
      ((repetition c ns).run settings steps depth (rounds + 1)).Gives w w' o.result) :
    Reaches settings (.repetition c ns) w w' o := by
  refine ⟨B + 1, fun steps depth rounds hs hd hr => ?_⟩
  obtain ⟨r, rfl⟩ : ∃ r, rounds = r + 1 := ⟨rounds - 1, by omega⟩
  exact h steps depth r (by omega) (by omega) (by omega)

end BigStep.Task.Reaches

/-- What is derived is what is executed. -/
theorem reaches_of_executes {settings : Settings} {task : Task} {w w' : World} {o : Ending}
    (h : Executes settings.limit task w w' o) : task.Reaches settings w w' o := by
  induction h with
  | print hv =>
    obtain ⟨B, hB⟩ := gives_eval settings hv
    exact .statement (B := B) (o := .finished) (fun _ _ => rfl) fun _ depth _ hd =>
      .bind (hB (depth + 1) (by omega)) (.bind (.record _ _) (.write _))
  | printValue hv =>
    obtain ⟨B, hB⟩ := gives_eval settings hv
    exact .failure (B := B) (fun _ _ => rfl) fun _ depth hd =>
      .bind_error (hB (depth + 1) (by omega))
  | input hp hstore =>
    exact .statement (B := 0) (o := .finished) (fun _ _ => rfl) fun _ _ _ _ =>
      .bind (.readLine?_cons hp) (.bind (.setVariable_ok hstore) (.record _ _))
  | inputUnnamed hp hstore =>
    exact .failure (B := 0) (fun _ _ => rfl) fun _ _ _ =>
      .bind (.readLine?_cons hp) (.bind_error (.setVariable_error hstore))
  | inputEnds hp =>
    exact .failure (B := 0) (fun _ _ => rfl) fun _ _ _ => .bind (.readLine?_nil hp) (.throw _)
  | assign hv hstore =>
    obtain ⟨B, hB⟩ := gives_eval settings hv
    exact .statement (B := B) (o := .finished) (fun _ _ => rfl) fun _ depth _ hd =>
      .bind (hB (depth + 1) (by omega)) (.bind (.setVariable_ok hstore) (.record _ _))
  | assignValue hv =>
    obtain ⟨B, hB⟩ := gives_eval settings hv
    exact .failure (B := B) (fun _ _ => rfl) fun _ depth hd =>
      .bind_error (hB (depth + 1) (by omega))
  | assignUnnamed hv hstore =>
    obtain ⟨B, hB⟩ := gives_eval settings hv
    exact .failure (B := B) (fun _ _ => rfl) fun _ depth hd =>
      .bind (hB (depth + 1) (by omega)) (.bind_error (.setVariable_error hstore))
  | branchCondition hc =>
    obtain ⟨B, hB⟩ := gives_evalCondition settings hc
    exact .failure (B := B) (fun _ _ => rfl) fun _ depth hd =>
      .bind_error (hB (depth + 1) (by omega))
  | branchThen hc _ ih =>
    obtain ⟨B, hB⟩ := gives_evalCondition settings hc
    obtain ⟨C, hC⟩ := ih
    exact .statement (B := B + C) (fun _ _ => rfl) fun steps depth hs hd =>
      .bind (hB (depth + 1) (by omega)) (hC steps depth (C + 1) (by omega) (by omega) (by omega))
  | branchElse hc _ ih =>
    obtain ⟨B, hB⟩ := gives_evalCondition settings hc
    obtain ⟨C, hC⟩ := ih
    exact .statement (B := B + C) (fun _ _ => rfl) fun steps depth hs hd =>
      .bind (hB (depth + 1) (by omega)) (hC steps depth (C + 1) (by omega) (by omega) (by omega))
  | branchNone hc =>
    obtain ⟨B, hB⟩ := gives_evalCondition settings hc
    exact .statement (B := B) (o := .finished) (fun _ _ => rfl) fun _ depth _ hd =>
      .bind (hB (depth + 1) (by omega)) (.pure ())
  | loop _ ih =>
    obtain ⟨B, hB⟩ := ih
    exact .statement (B := B) (fun _ _ => rfl) fun steps depth hs hd =>
      hB steps depth steps hs hd hs
  | leave => exact .statement (B := 0) (o := .leaving) (fun _ _ => rfl) fun _ _ _ _ => .throw _
  | evaluate hv =>
    obtain ⟨B, hB⟩ := gives_eval settings hv
    exact .statement (B := B) (o := .finished) (fun _ _ => rfl) fun _ depth _ hd =>
      .bind (hB (depth + 1) (by omega)) (.pure ())
  | evaluateValue hv =>
    obtain ⟨B, hB⟩ := gives_eval settings hv
    exact .failure (B := B) (fun _ _ => rfl) fun _ depth hd =>
      .bind_error (hB (depth + 1) (by omega))
  | block _ ih =>
    obtain ⟨B, hB⟩ := ih
    exact .statement (B := B) (fun _ _ => rfl) fun steps depth hs hd =>
      hB steps depth (B + 1) hs hd (by omega)
  | nil => exact ⟨0, fun _ _ _ _ _ _ => .pure ()⟩
  | cons _ _ ihn ihns =>
    obtain ⟨B, hB⟩ := ihn
    obtain ⟨C, hC⟩ := ihns
    exact ⟨B + C, fun steps depth rounds hs hd hr =>
      .bind (hB steps depth rounds (by omega) (by omega) (by omega))
        (hC steps depth rounds (by omega) (by omega) (by omega))⟩
  | consStops _ hstops ih =>
    obtain ⟨B, hB⟩ := ih
    refine ⟨B, fun steps depth rounds hs hd hr => ?_⟩
    have hn := hB steps depth rounds hs hd hr
    rename_i o _
    cases o with
    | finished => exact absurd rfl hstops
    | leaving => exact .bind_error hn
    | failed path f => exact .bind_error hn
  | done hc =>
    obtain ⟨B, hB⟩ := gives_evalCondition settings hc
    exact .repetition (B := B) fun _ depth _ _ hd _ =>
      .bind (hB (depth + 1) (by omega)) (.pure ())
  | condition hc =>
    obtain ⟨B, hB⟩ := gives_evalCondition settings hc
    refine .repetition (B := B) fun _ depth _ _ hd _ => ?_
    rw [Ending.result_failed_nil]
    exact .bind_error (hB (depth + 1) (by omega))
  | refused hc hr =>
    obtain ⟨B, hB⟩ := gives_evalCondition settings hc
    refine .repetition (B := B) fun _ depth _ _ hd _ => ?_
    rw [Ending.result_failed_nil]
    exact .bind (hB (depth + 1) (by omega))
      (.bind_error (.leaves (.bind_error (.countIteration_error hr))))
  | again hc hr _ _ ihbody ihloop =>
    obtain ⟨B, hB⟩ := gives_evalCondition settings hc
    obtain ⟨C, hC⟩ := ihbody
    obtain ⟨D, hD⟩ := ihloop
    exact .repetition (B := B + C + D) fun steps depth rounds hs hd hrounds =>
      .bind (hB (depth + 1) (by omega))
        (.bind (a := false) (.leaves (x := .ok ()) (.bind (.countIteration_ok hr)
          (hC steps depth (C + 1) (by omega) (by omega) (by omega))))
          (hD steps depth rounds (by omega) (by omega) (by omega)))
  | left hc hr _ ihbody =>
    obtain ⟨B, hB⟩ := gives_evalCondition settings hc
    obtain ⟨C, hC⟩ := ihbody
    exact .repetition (B := B + C) fun steps depth _ hs hd _ =>
      .bind (hB (depth + 1) (by omega))
        (.bind (a := true) (.leaves (x := .error .leaving) (.bind (.countIteration_ok hr)
          (hC steps depth (C + 1) (by omega) (by omega) (by omega)))) (.pure ()))
  | bodyFails hc hr _ ihbody =>
    obtain ⟨B, hB⟩ := gives_evalCondition settings hc
    obtain ⟨C, hC⟩ := ihbody
    exact .repetition (B := B + C) fun steps depth _ hs hd _ =>
      .bind (hB (depth + 1) (by omega))
        (.bind_error (.leaves (x := .error (.failure _)) (.bind (.countIteration_ok hr)
          (hC steps depth (C + 1) (by omega) (by omega) (by omega)))))

/-- Whether the rules end statements with the given result, as it is seen from outside. -/
def BigStep.Ends (limit : Limit) (ns : List Node) (w w' : World) (x : Except Stop Unit) : Prop :=
  ∃ o : Ending, Executes limit (.sequence ns) w w' o ∧ o.result = x

/-- Executing statements, with bounds that do not end it, ends as the rules say and not
otherwise; and there is one way to end. -/
theorem execution_agrees_with_rules (settings : Settings) {ns : List Node}
    (h : ∀ n ∈ ns, n.IsProperStatement) (s : State) :
    (∀ x w', IsSettled x → ((∃ steps depth,
      observed (inOrder (exec settings steps depth) ns s) = (x, w')) ↔
        BigStep.Ends settings.limit ns s.world w' x)) ∧
    ∀ x y w' w'', BigStep.Ends settings.limit ns s.world w' x →
      BigStep.Ends settings.limit ns s.world w'' y → x = y ∧ w' = w'' := by
  refine ⟨fun x w' hx => ⟨?_, ?_⟩, ?_⟩
  · rintro ⟨steps, depth, hr⟩
    have hobeys := obeys_inOrder
      (fun n hn => obeys_exec settings steps depth (h n hn)) s.world s rfl
    rw [hr] at hobeys
    obtain ⟨o, ho, hexecutes⟩ := hobeys hx
    exact ⟨o, hexecutes, ho⟩
  · rintro ⟨o, hexecutes, rfl⟩
    obtain ⟨B, hB⟩ := reaches_of_executes hexecutes
    exact ⟨B + 1, B + 1, hB (B + 1) (B + 1) (B + 1) (by omega) (by omega) (by omega) s rfl⟩
  · rintro _ _ w' w'' ⟨o, ho, rfl⟩ ⟨o', ho', rfl⟩
    obtain ⟨rfl, rfl⟩ := ho.unique ho'
    exact ⟨rfl, rfl⟩

/-- A loop that is left at once, and a difference that there is not. -/
def leavingTree : List Node :=
  [.loop (.bool true) (.block [.input (.str "x") .unknown, .leave (.of ⟨1, 26⟩)]) (.of ⟨1, 1⟩),
    .evaluate (.binary (.str "-") (.ident (.str "x") (.of ⟨2, 1⟩)) (.bool true)) (.of ⟨2, 1⟩)]

theorem leavingTree_ends :
    (∀ n ∈ leavingTree, n.IsProperStatement) ∧
      BigStep.Ends .unlimited leavingTree ⟨⟨["a", "b"], #[]⟩, .empty, 3⟩
        ⟨⟨["b"], #[]⟩, .set .empty "x" (.string "a"), 4⟩
        (.error (.failure (.error ⟨.operands "-" "String" "Bool", .of ⟨2, 1⟩⟩))) := by
  have h : ∀ n ∈ leavingTree, n.IsProperStatement := by
    simp only [leavingTree, List.forall_mem_cons]
    refine ⟨.loop .bool ?_, .evaluate (.binary .ident .bool), nofun⟩
    simp only [List.forall_mem_cons]
    exact ⟨.input, .leave, nofun⟩
  have hagree := (execution_agrees_with_rules ⟨0, .unlimited⟩ h
    ⟨⟨["a", "b"], #[]⟩, .empty, 3, .none⟩).1
  refine ⟨h, (hagree _ _ ?_).1 ⟨2, 10, rfl⟩⟩
  rfl

end Scriptling
