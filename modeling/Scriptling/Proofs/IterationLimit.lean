import Scriptling.Proofs.Watching

/-!
# The limit on iterations

A run with a limit on iterations is the run without one, until the limit is exceeded. The
two are compared action by action. As long as they agree they have the same count; the
iteration that is one too many ends the first where it stands, and the second can only
move on from there. Every repetition of a loop is counted, so a run with a limit never
needs more steps than the limit has iterations, and one more.
-/
namespace Scriptling

theorem Mark.orElse_unknown (m : Mark) : m.orElse .unknown = m := by
  simp [Mark.orElse]

namespace Node

/-- The statements of a block. -/
def statements : Node → List Node
  | .block ns => ns
  | _ => []

/-- The statements that stand directly inside of a program or a statement. -/
def nested : Node → List Node
  | .program body => body
  | .block ns => ns
  | .branch _ thenBlock elseBlock _ => thenBlock.statements ++ elseBlock.statements
  | .loop _ body _ => body.statements
  | _ => []

/-- A loop and what it stands in, from the inside out. -/
inductive LoopPath : Node → List Node → Prop where
  | loop {c b : Node} {m : Mark} : LoopPath (.loop c b m) [.loop c b m]
  | inside {n child : Node} {path : List Node} : child ∈ n.nested → LoopPath child path →
    LoopPath n (path ++ [n])

/-- The first place that is known on the way out. -/
def innermostMark (path : List Node) : Mark :=
  ((path.map mark).find? Mark.isKnown).getD .unknown

theorem innermostMark_append (path : List Node) (n : Node) :
    innermostMark (path ++ [n]) = (innermostMark path).orElse n.mark := by
  rw [innermostMark, innermostMark, List.map_append, List.find?_append]
  cases hfind : (path.map mark).find? Mark.isKnown with
  | some m =>
    have hm := List.find?_some hfind
    simp [Mark.orElse, hm]
  | none => cases hn : n.mark.isKnown <;> simp [Mark.orElse, hn]

/-- Where an error may be placed that a loop in a tree has brought about. -/
def LoopMark (n : Node) (m : Mark) : Prop :=
  ∃ path, LoopPath n path ∧ m = innermostMark path

theorem LoopMark.inside {n child : Node} {m : Mark} (hc : child ∈ n.nested)
    (h : child.LoopMark m) : n.LoopMark (m.orElse n.mark) := by
  obtain ⟨path, hpath, rfl⟩ := h
  exact ⟨_, .inside hc hpath, (innermostMark_append path n).symm⟩

end Node

/-- How a run with the limit `N` may end, against the end of a run without a limit, if both
start in the state `s`. The second takes at most `steps` steps in every loop, and these may
be too few. -/
inductive Limited (N steps : Nat) (place : Mark → Prop) (s : State) {α : Type} :
    EStateM.Result Stop State α → EStateM.Result Stop State α → Prop where
  | same {r : EStateM.Result Stop State α} : (endState r).iterations ≤ N →
    stop? r ≠ some .outOfSteps → Limited N steps place s r r
  | exceeded {m : Mark} {s' : State} {free : EStateM.Result Stop State α} : place m →
    s'.iterations = N + 1 → s.Onward s' → s'.Onward (endState free) →
    Limited N steps place s (.error (.failure (.error ⟨.iterationLimit N, m⟩)) s') free
  | unsettled {limited free : EStateM.Result Stop State α} : steps ≤ N →
    stop? free = some .outOfSteps → Limited N steps place s limited free

namespace Limited

variable {N steps : Nat} {place : Mark → Prop} {s : State} {α β : Type}

theorem since {s₀ : State} (hs : s₀.Onward s) {limited free : EStateM.Result Stop State α}
    (h : Limited N steps place s limited free) : Limited N steps place s₀ limited free := by
  cases h with
  | same hcount hsettled => exact .same hcount hsettled
  | exceeded hm hcount hsince huntil => exact .exceeded hm hcount (hs.trans hsince) huntil
  | unsettled hfew hout => exact .unsettled hfew hout

theorem mono {place' : Mark → Prop} (hp : ∀ m, place m → place' m)
    {limited free : EStateM.Result Stop State α} (h : Limited N steps place s limited free) :
    Limited N steps place' s limited free := by
  cases h with
  | same hcount hsettled => exact .same hcount hsettled
  | exceeded hm hcount hsince huntil => exact .exceeded (hp _ hm) hcount hsince huntil
  | unsettled hfew hout => exact .unsettled hfew hout

/-- What comes next only matters after a first part that the limit has not ended. -/
theorem bind {limited free : Run α} {k k' : α → Run β}
    (h : Limited N steps place s (limited s) (free s)) (hfree : free.Advances)
    (hnext : ∀ a, (k' a).Advances)
    (hk : ∀ a s', free s = .ok a s' → s'.iterations ≤ N →
      Limited N steps place s' (k a s') (k' a s')) :
    Limited N steps place s ((limited >>= k) s) ((free >>= k') s) := by
  have hs := hfree s
  have hrest := Run.Advances.next hnext free s
  generalize hl : limited s = l at h
  generalize hf : free s = f at h hs hk hrest
  cases h with
  | same hcount hsettled =>
    cases l with
    | ok a s' =>
      rw [bind_of_ok hl, bind_of_ok hf]
      exact (hk a s' rfl hcount).since hs
    | error e s' =>
      rw [bind_of_error hl, bind_of_error hf]
      exact .same hcount hsettled
  | exceeded hm hcount hsince huntil =>
    rw [bind_of_error hl]
    exact .exceeded hm hcount hsince (huntil.trans hrest)
  | unsettled hfew hout =>
    cases f with
    | ok a s' => cases hout
    | error e s' =>
      rw [bind_of_error hf]
      exact .unsettled hfew hout

end Limited

/-- Whether an action with the limit `N` does what the other one does without a limit,
until the limit is exceeded. -/
structure Tracks (N steps : Nat) (place : Mark → Prop) {α : Type} (limited free : Run α) :
    Prop where
  onward : free.Advances
  ends : ∀ s : State, s.iterations ≤ N → Limited N steps place s (limited s) (free s)

theorem Run.countIteration_unlimited_bind {α : Type} (level : Nat) (r : Run α) (s : State) :
    (do countIteration ⟨level, .unlimited⟩; r) s = r s.counted :=
  bind_of_ok (countIteration_apply _ s)

/-- Whether a construct looks at the end of an action only, and changes the trace and the
place of an error at most. -/
structure Run.Rounds {α β : Type} (relocate : Mark → Mark) (construct : Run α → Run β) : Prop
    extends Shows.Handles construct where
  buffer : ∀ r s, (endState (construct (fun _ => r) s)).toBuffer = (endState r).toBuffer
  outOfSteps : ∀ r s, stop? (construct (fun _ => r) s) = some .outOfSteps ↔
    stop? r = some .outOfSteps
  exceeded : ∀ n m s s', ∃ s'',
    construct (fun _ => .error (.failure (.error ⟨.iterationLimit n, m⟩)) s') s =
      .error (.failure (.error ⟨.iterationLimit n, relocate m⟩)) s''

namespace Run.Rounds

theorem placing {α : Type} (mark : Mark) :
    Rounds (·.orElse mark) (Run.placing mark : Run α → Run α) := by
  refine ⟨Shows.handles_placing mark, fun r s => ?_, fun r s => ?_, fun _ _ _ s' => ⟨s', rfl⟩⟩
  all_goals
    unfold Run.placing
    dsimp only
    split
  · rfl
  · rfl
  · exact ⟨nofun, nofun⟩
  · rfl

theorem leaves : Rounds id Run.leaves := by
  refine ⟨Shows.handles_leaves, fun r s => ?_, fun r s => ?_, fun _ _ _ s' => ⟨s', rfl⟩⟩
  all_goals
    unfold Run.leaves
    dsimp only
    split
  · rfl
  · rfl
  · rfl
  · exact ⟨nofun, nofun⟩
  · exact ⟨nofun, nofun⟩
  · rfl

theorem conclude (settings : Settings) : Rounds id (conclude settings) := by
  refine ⟨Shows.handles_conclude settings, fun r s => ?_, fun r s => ?_, fun _ _ _ _ => ⟨_, rfl⟩⟩
  all_goals
    unfold Scriptling.conclude
    dsimp only
    split
  all_goals first
    | rfl
    | exact ⟨nofun, nofun⟩
    | split <;> rfl

end Run.Rounds

namespace Tracks

variable {N steps : Nat} {place : Mark → Prop} {α β : Type}

theorem quiet {action : Run α} (h : action.Quiet) : Tracks N steps place action action where
  onward s := (h s).onward
  ends s hs := by
    refine .same ?_ fun hstop => (h s).stop _ hstop
    rwa [(h s).iterations]

theorem bind {limited free : Run α} {k k' : α → Run β} (h : Tracks N steps place limited free)
    (hk : ∀ a, Tracks N steps place (k a) (k' a)) :
    Tracks N steps place (limited >>= k) (free >>= k') where
  onward := .bind h.onward fun a => (hk a).onward
  ends s hs := (h.ends s hs).bind h.onward (fun a => (hk a).onward)
    fun a s' _ hcount => (hk a).ends s' hcount

theorem mono {place' : Mark → Prop} (hp : ∀ m, place m → place' m) {limited free : Run α}
    (h : Tracks N steps place limited free) : Tracks N steps place' limited free :=
  ⟨h.onward, fun s hs => (h.ends s hs).mono hp⟩

/-- Constructs keep two actions together. -/
theorem around {place' : Mark → Prop} {relocate : Mark → Mark} {construct : Run α → Run β}
    (hc : Run.Rounds relocate construct) (hp : ∀ m, place m → place' (relocate m))
    {limited free : Run α} (h : Tracks N steps place limited free) :
    Tracks N steps place' (construct limited) (construct free) := by
  have after : ∀ (r : EStateM.Result Stop State α) (s : State),
      (endState r).Onward (endState (construct (fun _ => r) s)) :=
    fun r s => .of_eq (hc.buffer r s) (hc.iterations r s)
  refine ⟨fun s => ?_, fun s hs => ?_⟩
  · rw [hc.ending]
    exact (h.onward s).trans (after _ s)
  · have hends := h.ends s hs
    rw [hc.ending limited, hc.ending free]
    generalize limited s = l at hends ⊢
    generalize free s = f at hends ⊢
    cases hends with
    | same hcount hsettled =>
      refine .same ?_ fun hstop => hsettled ((hc.outOfSteps l s).1 hstop)
      rwa [hc.iterations]
    | @exceeded m s' _ hm hcount hsince huntil =>
      -- The construct leaves the state as it is, but for the trace.
      obtain ⟨s'', heq⟩ := hc.exceeded N m s s'
      have hbuffer : s''.toBuffer = s'.toBuffer := by
        have := hc.buffer (.error (.failure (.error ⟨.iterationLimit N, m⟩)) s') s
        rwa [heq] at this
      have hiterations : s''.iterations = s'.iterations := by
        have := hc.iterations (.error (.failure (.error ⟨.iterationLimit N, m⟩)) s') s
        rwa [heq] at this
      rw [heq]
      exact .exceeded (hp m hm) (hiterations.trans hcount)
        (hsince.trans (.of_eq hbuffer hiterations))
        ((State.Onward.of_eq hbuffer.symm hiterations.symm).trans (huntil.trans (after f s)))
    | unsettled hfew hout => exact .unsettled hfew ((hc.outOfSteps f s).2 hout)

/-- An iteration is counted alike, unless it is one too many. -/
theorem iteration (level : Nat) (hp : place .unknown) {limited free : Run α}
    (h : Tracks N steps place limited free) :
    Tracks N steps place (do Run.countIteration ⟨level, .atMost N⟩; limited)
      (do Run.countIteration ⟨level, .unlimited⟩; free) := by
  refine ⟨fun s => ?_, fun s hs => ?_⟩
  · rw [Run.countIteration_unlimited_bind]
    exact s.onward_counted.trans (h.onward s.counted)
  · have happly := Run.countIteration_apply ⟨level, .atMost N⟩ s
    dsimp only at happly
    rw [Run.countIteration_unlimited_bind]
    by_cases hN : s.counted.iterations ≤ N
    · rw [if_neg (by omega)] at happly
      rw [bind_of_ok happly]
      exact (h.ends s.counted hN).since s.onward_counted
    · rw [if_pos (by omega)] at happly
      rw [bind_of_error happly]
      have hcount : s.counted.iterations = s.iterations + 1 := rfl
      exact .exceeded hp (by omega) s.onward_counted (h.onward s.counted)

/-- Every repetition counts at least one iteration. -/
theorem lt_iterations_of_iteration (level : Nat) {limited free : Run Unit}
    (h : Tracks N steps place limited free) (s : State) :
    s.iterations < (endState
      (Run.leaves (do Run.countIteration ⟨level, .unlimited⟩; free) s)).iterations := by
  rw [Run.Rounds.leaves.ending, Run.Rounds.leaves.iterations, Run.countIteration_unlimited_bind]
  exact (h.onward s.counted).iterations

/-- A loop with a limit does what it does without one. The counts say that the first has
steps left for all iterations that are allowed, and that the second has used up one for
each. -/
theorem repeatWhile (level : Nat) {test : Run Bool} (ht : test.Quiet) (hp : place .unknown)
    {limited free : Run Unit} (h : Tracks N steps place limited free) :
    Tracks N steps place
      (Run.repeatWhile test (do Run.countIteration ⟨level, .atMost N⟩; limited) (N + 1))
      (Run.repeatWhile test (do Run.countIteration ⟨level, .unlimited⟩; free) steps) := by
  have htest : Tracks N steps place test test := .quiet ht
  have hbody := (h.iteration level hp).around Run.Rounds.leaves (fun _ hm => hm)
  have honward := Run.Advances.repeatWhile htest.onward hbody.onward
  refine ⟨honward steps, fun s hs => ?_⟩
  have hends : ∀ (K M : Nat) (s : State), s.iterations ≤ N → N < s.iterations + K →
      steps ≤ s.iterations + M → Limited N steps place s
        (Run.repeatWhile test (do Run.countIteration ⟨level, .atMost N⟩; limited) K s)
        (Run.repeatWhile test (do Run.countIteration ⟨level, .unlimited⟩; free) M s) := by
    intro K
    induction K with
    | zero => omega
    | succ K ih =>
      intro M s hs hK hM
      cases M with
      | zero => exact .unsettled (by omega) rfl
      | succ M =>
        have honward' : ∀ left : Bool, Run.Advances (if left = true then pure ()
            else Run.repeatWhile test (do Run.countIteration ⟨level, .unlimited⟩; free) M) := by
          intro left
          cases left with
          | true => exact .pure ()
          | false => exact honward M
        refine (htest.ends s hs).bind htest.onward (fun b => ?_) fun b s₁ hb hs₁ => ?_
        · cases b with
          | false => exact .pure ()
          | true => exact .bind hbody.onward honward'
        · have hcount₁ : s₁.iterations = s.iterations := by
            have := (ht s).iterations
            rwa [hb] at this
          cases b with
          | false => exact (quiet (.pure ())).ends s₁ hs₁
          | true =>
            refine (hbody.ends s₁ hs₁).bind hbody.onward honward' fun left s₂ hleft hs₂ => ?_
            have hcount₂ := h.lt_iterations_of_iteration level s₁
            rw [hleft, endState_ok] at hcount₂
            cases left with
            | true => exact (quiet (.pure ())).ends s₂ hs₂
            | false => exact ih M s₂ hs₂ (by omega) (by omega)
  exact hends (N + 1) steps s hs (by omega) (by omega)

theorem inOrder {run run' : Node → Run Unit} {ns : List Node}
    (h : ∀ n ∈ ns, Tracks N steps place (run n) (run' n)) :
    Tracks N steps place (inOrder run ns) (inOrder run' ns) := by
  induction ns with
  | nil => exact .quiet (.pure ())
  | cons n ns ih =>
    obtain ⟨hn, hns⟩ := List.forall_mem_cons.1 h
    exact .bind hn fun _ => ih hns

theorem inBlock {run run' : Node → Run Unit} {n : Node}
    (h : ∀ child ∈ n.statements, Tracks N steps place (run child) (run' child)) :
    Tracks N steps place (inBlock run n) (inBlock run' n) := by
  cases n with
  | block ns => exact .inOrder h
  | _ => exact .quiet (.fault nofun)

end Tracks

/-- Expressions do not see the limit. -/
theorem eval_limit (level : Nat) (limit limit' : Limit) (depth : Nat) (node : Node) :
    eval ⟨level, limit⟩ depth node = eval ⟨level, limit'⟩ depth node := by
  induction depth generalizing node with
  | zero => rfl
  | succ depth ih =>
    cases node with
    | binary op left right => rw [eval, eval, ih left, ih right]
    | unary op operand => rw [eval, eval, ih operand]
    | update name op value m =>
      rw [eval, eval, ih value]
      rfl
    | _ => rfl

theorem evalCondition_limit (level : Nat) (limit limit' : Limit) (depth : Nat)
    (construct : String) (node : Node) :
    evalCondition ⟨level, limit⟩ depth construct node =
      evalCondition ⟨level, limit'⟩ depth construct node := by
  rw [evalCondition, eval_limit level limit limit']
  rfl

namespace Tracks

variable {N steps : Nat} {place : Mark → Prop}

theorem eval (level depth : Nat) (node : Node) :
    Tracks N steps place (eval ⟨level, .atMost N⟩ depth node)
      (eval ⟨level, .unlimited⟩ depth node) := by
  rw [eval_limit level (.atMost N) .unlimited]
  exact .quiet (quiet_eval _ depth node)

theorem evalCondition (level depth : Nat) (construct : String) (node : Node) :
    Tracks N steps place (evalCondition ⟨level, .atMost N⟩ depth construct node)
      (evalCondition ⟨level, .unlimited⟩ depth construct node) := by
  rw [evalCondition_limit level (.atMost N) .unlimited]
  exact .quiet (quiet_evalCondition _ depth construct node)

theorem record (level : Nat) (e : Event) :
    Tracks N steps place (Run.record ⟨level, .atMost N⟩ e) (Run.record ⟨level, .unlimited⟩ e) :=
  .quiet (.record ⟨level, .unlimited⟩ e)

/-- A statement with a limit does what it does without one, and an error of the limit is
placed at the loop or as near to it as a place is known. -/
theorem exec (level depth : Nat) (node : Node) :
    Tracks N steps node.LoopMark (exec ⟨level, .atMost N⟩ (N + 1) depth node)
      (exec ⟨level, .unlimited⟩ steps depth node) := by
  induction depth using Nat.strongRecOn generalizing node with
  | ind depth ih =>
    match depth with
    | 0 | 1 | 2 => exact .quiet (.throw trivial)
    | depth + 3 =>
      -- Before its own place is given to an error, a loop has none to give.
      have inner : ∀ child ∈ node.nested,
          Tracks N steps (fun m => node.LoopMark (m.orElse node.mark))
            (Scriptling.exec ⟨level, .atMost N⟩ (N + 1) depth child)
            (Scriptling.exec ⟨level, .unlimited⟩ steps depth child) :=
        fun child hc => (ih depth (by omega) child).mono fun m hm => hm.inside hc
      refine .bind (.record level _) fun _ =>
        .around (.placing node.mark) (fun m (hm : node.LoopMark (m.orElse node.mark)) => hm) ?_
      cases node with
      | print value m =>
        exact .bind (.eval level _ value) fun _ => .bind (.record level _) fun _ =>
          .quiet (.write _)
      | input name m =>
        refine .bind (.quiet .readLine?) fun line? => ?_
        cases line? with
        | some line => exact .bind (.quiet (.setVariable name _)) fun _ => .record level _
        | none => exact .quiet (.fail nofun)
      | assign name value m =>
        exact .bind (.eval level _ value) fun _ => .bind (.quiet (.setVariable name _)) fun _ =>
          .record level _
      | branch condition thenBlock elseBlock m =>
        refine .bind (.evalCondition level _ "if" condition) fun c => ?_
        cases c with
        | true => exact .inBlock fun child hc => inner child (List.mem_append_left _ hc)
        | false =>
          simp only [Bool.false_eq_true, if_false]
          split
          · exact .quiet (.pure ())
          · exact .inBlock fun child hc => inner child (List.mem_append_right _ hc)
      | loop condition body m =>
        dsimp only
        rw [evalCondition_limit level (.atMost N) .unlimited]
        refine .repeatWhile level (quiet_evalCondition _ _ "while" condition) ?_ (.inBlock inner)
        exact ⟨_, .loop, (Node.innermostMark_append [] _).symm⟩
      | leave m => exact .quiet (.throw trivial)
      | evaluate value m => exact .bind (.eval level _ value) fun _ => .quiet (.pure ())
      | block ns => exact .inOrder inner
      | _ => exact .quiet (.fault nofun)

end Tracks

/-- The state in which the statements of a program start. -/
def State.started (level : Nat) (s : State) : State :=
  { s with
    env := .empty
    iterations := 0
    trace := if 0 < level then s.trace.reopen else s.trace }

/-- The same for a program as a whole. -/
theorem limited_runWithin (N level steps depth : Nat) (program : Node) (s : State) :
    Limited N steps program.LoopMark (s.started level)
      (runWithin ⟨level, .atMost N⟩ (N + 1) depth program s)
      (runWithin ⟨level, .unlimited⟩ steps depth program s) := by
  have afterStart : ∀ {limited free : Run Unit}, Tracks N steps program.LoopMark limited free →
      Limited N steps program.LoopMark (s.started level) (limited (s.started level))
        (free (s.started level)) :=
    fun h => h.ends _ (Nat.zero_le N)
  cases program with
  | program body =>
    refine afterStart (.bind (.record level _) fun _ =>
      .around (.conclude ⟨level, .unlimited⟩) (fun m hm => hm) (.inOrder fun n hn => ?_))
    refine (Tracks.exec level depth n).mono fun m hm => ?_
    rw [← Mark.orElse_unknown m]
    exact hm.inside hn
  | loop condition body m =>
    exact afterStart (.quiet (.fault (f := .bodyNotList body.kind) nofun))
  | _ => exact afterStart (.quiet (.fault (f := .notProgram _) nofun))

/-- Whether a run without a limit comes to an end, and to this one. -/
def EndsAs (level : Nat) (program : Node) (s : State) (r : EStateM.Result Stop State Unit) :
    Prop :=
  ∃ steps, runWithin ⟨level, .unlimited⟩ steps walkingDepth program s = r ∧
    stop? r ≠ some .outOfSteps

/-- How often the run of a program from a state enters the body of a loop. -/
def bodiesEntered (settings : Settings) (program : Node) (s : State) : Nat :=
  (endState (Watched.runWithin settings settings.limit.steps walkingDepth program ⟨s, []⟩)).bodies

/-- Whether the limit `N` ends a run, and in the state `s'`. -/
structure ExceedsLimit (N level : Nat) (program : Node) (s s' : State) : Prop where
  /-- The error stands at a loop of the program, or as near around it as a place is known. -/
  stops : ∃ path, program.LoopPath path ∧ runProgram ⟨level, .atMost N⟩ program s =
    .error (.failure (.error ⟨.iterationLimit N, Node.innermostMark path⟩)) s'
  iterations : s'.iterations = N + 1
  /-- The body of the iteration that is one too many is not entered. -/
  bodies : bodiesEntered ⟨level, .atMost N⟩ program s = N

theorem exceedsLimit_of_runProgram {N level : Nat} {program : Node} {s s' : State} {m : Mark}
    (h : runProgram ⟨level, .atMost N⟩ program s =
      .error (.failure (.error ⟨.iterationLimit N, m⟩)) s')
    (hm : program.LoopMark m) (hs' : s'.iterations = N + 1) :
    ExceedsLimit N level program s s' := by
  obtain ⟨path, hpath, rfl⟩ := hm
  refine ⟨⟨path, hpath, h⟩, hs', ?_⟩
  obtain ⟨hsame, htally⟩ := Shows.runWithin ⟨level, .atMost N⟩ (Limit.atMost N).steps walkingDepth
    program ⟨s, []⟩
  rw [runProgram] at h
  have hexcess := congrArg excess (hsame.trans h)
  have hiterations := congrArg (fun r => (endState r).iterations) (hsame.trans h)
  rw [Shows.excess_erase] at hexcess
  rw [Shows.endState_erase] at hiterations
  rw [hexcess, hiterations] at htally
  change _ + 1 = 0 + s'.iterations at htally
  rw [bodiesEntered]
  dsimp only
  omega

section Runs

variable {N level : Nat} {program : Node} {s : State} {r : EStateM.Result Stop State Unit}

theorem limited_runProgram (N level steps : Nat) (program : Node) (s : State) :
    Limited N steps program.LoopMark (s.started level) (runProgram ⟨level, .atMost N⟩ program s)
      (runWithin ⟨level, .unlimited⟩ steps walkingDepth program s) :=
  limited_runWithin N level steps walkingDepth program s

/-- A limit that the run without one does not exceed changes nothing. -/
theorem runProgram_of_endsAs (h : EndsAs level program s r) (hN : (endState r).iterations ≤ N) :
    runProgram ⟨level, .atMost N⟩ program s = r := by
  obtain ⟨steps, hr, hsettled⟩ := h
  have h := limited_runProgram N level steps program s
  rw [hr] at h
  generalize runProgram ⟨level, .atMost N⟩ program s = l at h ⊢
  cases h with
  | same _ _ => rfl
  | exceeded _ hcount _ huntil =>
    have := huntil.iterations
    omega
  | unsettled _ hout => exact absurd hout hsettled

/-- A run without a limit has at most one end. -/
theorem EndsAs.unique {r' : EStateM.Result Stop State Unit} (h : EndsAs level program s r)
    (h' : EndsAs level program s r') : r = r' := by
  have hr := runProgram_of_endsAs h (Nat.le_max_left _ (endState r').iterations)
  have hr' := runProgram_of_endsAs h' (Nat.le_max_right (endState r).iterations _)
  exact hr.symm.trans hr'

/-- A limit that the run without one exceeds ends the run on its way. -/
theorem exceedsLimit_of_endsAs (h : EndsAs level program s r)
    (hN : N < (endState r).iterations) :
    ∃ s', ExceedsLimit N level program s s' ∧
      s'.output.toList <+: (endState r).output.toList ∧
      ∃ taken more, s.pending = taken ++ s'.pending ∧
        s'.pending = more ++ (endState r).pending := by
  obtain ⟨steps, hr, hsettled⟩ := h
  have h := limited_runProgram N level steps program s
  rw [hr] at h
  generalize hl : runProgram ⟨level, .atMost N⟩ program s = l at h
  cases h with
  | same hcount _ => omega
  | @exceeded m s' _ hm hcount hsince huntil =>
    obtain ⟨taken, htaken⟩ := hsince.pending
    obtain ⟨more, hmore⟩ := huntil.pending
    exact ⟨s', exceedsLimit_of_runProgram hl hm hcount, huntil.output, taken, more, htaken.symm,
      hmore.symm⟩
  | unsettled _ hout => exact absurd hout hsettled

/-- Every limit ends a run that would not end without one. -/
theorem exceedsLimit_of_never (hnever : ¬ ∃ r, EndsAs level program s r) :
    ∃ s', ExceedsLimit N level program s s' := by
  -- With so many steps a run is unsettled only when the limit is exceeded.
  have h := limited_runProgram N level (N + 1) program s
  have hout : stop? (runWithin ⟨level, .unlimited⟩ (N + 1) walkingDepth program s) =
      some .outOfSteps :=
    Classical.byContradiction fun hsettled => hnever ⟨_, N + 1, rfl, hsettled⟩
  generalize runWithin ⟨level, .unlimited⟩ (N + 1) walkingDepth program s = f at h hout
  generalize hl : runProgram ⟨level, .atMost N⟩ program s = l at h
  cases h with
  | same _ hsettled => exact absurd hout hsettled
  | @exceeded m s' _ hm hcount _ _ => exact ⟨s', exceedsLimit_of_runProgram hl hm hcount⟩
  | unsettled hfew _ => omega

end Runs

/-- The limit on iterations is not seen until it is exceeded. If the run without it ends,
the run is the same where the iterations are within the limit, and has otherwise done a
part of what the other does. If the run without it never ends, the limit ends it. -/
theorem limit_unseen_until_exceeded (N level : Nat) (program : Node) (s : State) :
    (∀ r, EndsAs level program s r →
      ((endState r).iterations ≤ N → runProgram ⟨level, .atMost N⟩ program s = r) ∧
      (N < (endState r).iterations → ∃ s', ExceedsLimit N level program s s' ∧
        s'.output.toList <+: (endState r).output.toList ∧
        ∃ taken more, s.pending = taken ++ s'.pending ∧
          s'.pending = more ++ (endState r).pending)) ∧
    ((¬ ∃ r, EndsAs level program s r) → ∃ s', ExceedsLimit N level program s s') :=
  ⟨fun _ h => ⟨runProgram_of_endsAs h, exceedsLimit_of_endsAs h⟩, exceedsLimit_of_never⟩

/-- Two loops that are left at once, one in the other; the inner one has no place. -/
def twiceTree : Node :=
  .program [.loop (.bool true)
    (.block [.loop (.bool true) (.block [.leave .unknown]) .unknown, .leave .unknown])
    (.of ⟨1, 1⟩)]

/-- A loop that never ends. -/
def idleTree : Node :=
  .program [.loop (.bool true) (.block []) .unknown]

theorem not_endsAs_idleTree (s : State) : ¬ ∃ r, EndsAs 0 idleTree s r := by
  rintro ⟨r, steps, rfl, hsettled⟩
  apply hsettled
  let test := evalCondition ⟨0, .unlimited⟩ (walkingDepth - 2) "while" (.bool true)
  let body : Run Unit := do
    Run.countIteration ⟨0, .unlimited⟩
    inBlock (exec ⟨0, .unlimited⟩ steps (walkingDepth - 3)) (.block [])
  have hloop : ∀ (left : Nat) (s : State),
      ∃ s', Run.repeatWhile test body left s = .error .outOfSteps s' := by
    intro left
    induction left with
    | zero => exact fun s => ⟨s, rfl⟩
    | succ left ih => exact fun s => ih s.counted
  obtain ⟨s', hs'⟩ := hloop steps (s.started 0)
  have hexec : exec ⟨0, .unlimited⟩ steps walkingDepth (.loop (.bool true) (.block []) .unknown)
      (s.started 0) = .error .outOfSteps s' := by
    change Run.placing .unknown (Run.repeatWhile test body steps) (s.started 0) = _
    rw [Run.placing, hs']
  have hround := Run.Rounds.conclude ⟨0, .unlimited⟩
  change stop? (conclude ⟨0, .unlimited⟩ (inOrder (exec ⟨0, .unlimited⟩ steps walkingDepth)
    [.loop (.bool true) (.block []) .unknown]) (s.started 0)) = _
  rw [hround.ending, hround.outOfSteps, inOrder, bind_of_error hexec]
  rfl

/-- The limit is met in the first tree and exceeded in both. -/
theorem limit_seen_in_loops :
    let s := State.initial ⟨["a"], #[]⟩
    (∃ r, EndsAs 0 twiceTree s r ∧ (endState r).iterations = 2 ∧
      runProgram ⟨0, .atMost 2⟩ twiceTree s = r ∧ ∃ s', ExceedsLimit 1 0 twiceTree s s') ∧
    (¬ ∃ r, EndsAs 0 idleTree s r) ∧ ∃ s', ExceedsLimit 5 0 idleTree s s' := by
  intro s
  refine ⟨?_, not_endsAs_idleTree s,
    (limit_unseen_until_exceeded 5 0 idleTree s).2 (not_endsAs_idleTree s)⟩
  have hends : EndsAs 0 twiceTree s (runWithin ⟨0, .unlimited⟩ 1 walkingDepth twiceTree s) :=
    ⟨1, rfl, nofun⟩
  obtain ⟨hsame, -⟩ := (limit_unseen_until_exceeded 2 0 twiceTree s).1 _ hends
  obtain ⟨-, hexceeds⟩ := (limit_unseen_until_exceeded 1 0 twiceTree s).1 _ hends
  obtain ⟨s', hs', -⟩ := hexceeds (by decide)
  exact ⟨_, hends, rfl, hsame (by decide), s', hs'⟩

end Scriptling
