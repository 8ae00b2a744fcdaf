import Scriptling.Proofs.ParsedTrees
import Scriptling.Proofs.Watching

/-!
# Runs of parsed programs

Programs that a text can stand for compute with numbers, strings and truth values only,
and a run of one can end in few ways. Both are kept by every construct: an expression of
ordinary values has an ordinary value, what is bound is the value of an expression or a
line of input, and a `break` goes no further than the loop around it.
-/
namespace Scriptling

/-- Whether all variables have values that programs compute with. -/
def Env.IsOrdinary (env : Env) : Prop :=
  ∀ b ∈ env.bindings, b.2.IsOrdinary

namespace Env.IsOrdinary

theorem empty : Env.empty.IsOrdinary := nofun

theorem set {env : Env} (h : env.IsOrdinary) (name : String) {v : Value} (hv : v.IsOrdinary) :
    (env.set name v).IsOrdinary := by
  obtain ⟨bindings⟩ := env
  change ∀ b ∈ put name v bindings, b.2.IsOrdinary
  replace h : ∀ b ∈ bindings, b.2.IsOrdinary := h
  induction bindings with
  | nil => simpa [put] using hv
  | cons b rest ih =>
    obtain ⟨k, w⟩ := b
    obtain ⟨hw, hrest⟩ := List.forall_mem_cons.1 h
    rw [put]
    split
    · exact List.forall_mem_cons.2 ⟨hv, hrest⟩
    · exact List.forall_mem_cons.2 ⟨hw, ih hrest⟩

theorem get? {env : Env} (h : env.IsOrdinary) {name : String} {v : Value}
    (hv : env.get? name = some v) : v.IsOrdinary := by
  obtain ⟨bindings⟩ := env
  replace h : ∀ b ∈ bindings, b.2.IsOrdinary := h
  change find? name bindings = some v at hv
  induction bindings with
  | nil => cases hv
  | cons b rest ih =>
    obtain ⟨k, w⟩ := b
    obtain ⟨hw, hrest⟩ := List.forall_mem_cons.1 h
    rw [find?] at hv
    split at hv
    · cases hv
      exact hw
    · exact ih hrest hv

end Env.IsOrdinary

/-- The failures of a parsed program: nothing is amiss with its tree. -/
def Failure.IsExpected : Failure → Prop
  | .error e => e.cause ≠ .strayBreak ∧ ∀ op, e.cause ≠ .unknownOperator op
  | .fault f => f = .infiniteDividend ∨ ∃ kind, f = .notALimit kind

/-- The ways in which a statement of a parsed program may stop. A `break` may be on its way
only if a loop is around the statement. -/
def Stop.IsExpected (inLoop : Bool) : Stop → Prop
  | .failure f => f.IsExpected
  | .leaving => inLoop = true
  | .tooDeep | .outOfSteps => True

section Keeps

variable {σ α β : Type} {I : σ → Prop} {inLoop : Bool}

/-- Whether a computation has kept an invariant and has ended with a result as described
or in an expected way. -/
inductive EndsWell (I : σ → Prop) (inLoop : Bool) (post : α → Prop) :
    EStateM.Result Stop σ α → Prop where
  | ok {a : α} {x : σ} : post a → I x → EndsWell I inLoop post (.ok a x)
  | error {e : Stop} {x : σ} : e.IsExpected inLoop → I x → EndsWell I inLoop post (.error e x)

theorem EndsWell.state {post : α → Prop} {r : EStateM.Result Stop σ α}
    (h : EndsWell I inLoop post r) : I (endState r) := by
  cases h with
  | ok _ hx => exact hx
  | error _ hx => exact hx

/-- Whether a computation ends well wherever the invariant holds. -/
def Keeps (I : σ → Prop) (inLoop : Bool) (w : EStateM Stop σ α) (post : α → Prop) : Prop :=
  ∀ x, I x → EndsWell I inLoop post (w x)

namespace Keeps

variable {w : EStateM Stop σ α} {post : α → Prop} {post' : β → Prop}

theorem pure {a : α} (h : post a) : Keeps I inLoop (pure a : EStateM Stop σ α) post :=
  fun _ hx => .ok h hx

theorem throw {e : Stop} (h : e.IsExpected inLoop) :
    Keeps I inLoop (throw e : EStateM Stop σ α) post :=
  fun _ hx => .error h hx

theorem bind {k : α → EStateM Stop σ β} (h : Keeps I inLoop w post)
    (hk : ∀ a, post a → Keeps I inLoop (k a) post') : Keeps I inLoop (w >>= k) post' := by
  intro x hx
  have hends := h x hx
  cases hw : w x with
  | ok a x' =>
    rw [hw] at hends
    rw [bind_of_ok hw]
    cases hends with
    | ok ha hx' => exact hk a ha x' hx'
  | error e x' =>
    rw [hw] at hends
    rw [bind_of_error hw]
    cases hends with
    | error he hx' => exact .error he hx'

end Keeps
end Keeps

/-- Whether the variables of a state have ordinary values. -/
def State.IsOrdinary (s : State) : Prop := s.env.IsOrdinary

namespace Keeps

variable {inLoop : Bool} {α : Type}

theorem modify {f : State → State} (h : ∀ s, s.IsOrdinary → (f s).IsOrdinary) :
    Keeps State.IsOrdinary inLoop (modify f : Run Unit) fun _ => True :=
  fun s hs => .ok trivial (h s hs)

theorem record (settings : Settings) (e : Event) :
    Keeps State.IsOrdinary inLoop (Run.record settings e) fun _ => True := by
  unfold Run.record
  split
  · exact .modify fun _ hs => hs
  · exact .pure trivial

theorem write (line : String) : Keeps State.IsOrdinary inLoop (Run.write line) fun _ => True :=
  .modify fun _ hs => hs

theorem readLine? : Keeps State.IsOrdinary inLoop Run.readLine? fun _ => True := by
  intro s hs
  rw [Run.readLine?, bind_get]
  cases s.pending with
  | nil => exact .ok trivial hs
  | cons line rest => exact .ok trivial hs

theorem setVariable (x : String) {v : Value} (hv : v.IsOrdinary) :
    Keeps State.IsOrdinary inLoop (Run.setVariable (.str x) v) fun _ => True :=
  .modify fun _ hs => hs.set x hv

theorem lookup (x : String) (m : Mark) :
    Keeps State.IsOrdinary inLoop (Run.lookup (.str x) m) Value.IsOrdinary := by
  intro s hs
  have hx : Run.variableOf (.str x) s = .ok x s := rfl
  rw [Run.lookup, bind_of_ok hx, bind_get]
  cases hv : s.env.get? x with
  | some v => exact .ok (hs.get? hv) hs
  | none => exact .error ⟨nofun, nofun⟩ hs

theorem fail {post : α → Prop} {c : Cause} (hb : c ≠ .strayBreak)
    (ho : ∀ op, c ≠ .unknownOperator op) :
    Keeps State.IsOrdinary inLoop (Run.fail c : Run α) post :=
  .throw ⟨hb, ho⟩

theorem countIteration (settings : Settings) :
    Keeps State.IsOrdinary inLoop (Run.countIteration settings) fun _ => True := by
  intro s hs
  rw [Run.countIteration_apply]
  split
  · exact .ok trivial hs
  · split
    · exact .error ⟨nofun, nofun⟩ hs
    · exact .ok trivial hs
  · exact .error (.inr ⟨_, rfl⟩) hs

/-- Operators of the language make ordinary values of what they take. -/
theorem applyBinary {op : String} (hop : op ∈ Node.binaryOperators) (a b : Value) :
    Keeps State.IsOrdinary inLoop (Run.ofExcept (applyBinary op a b)) Value.IsOrdinary := by
  have hsome : ∀ op ∈ Node.binaryOperators, (BinaryOperator.ofSymbol? op).isSome = true := by
    decide
  obtain ⟨o, ho⟩ := Option.isSome_iff_exists.1 (hsome op hop)
  unfold Scriptling.applyBinary BinaryOperator.apply BinaryOperator.ofNumbers
  rw [ho]
  dsimp only
  repeat' split
  all_goals first
    | exact .throw ⟨nofun, nofun⟩
    | exact .throw (.inl rfl)
    | exact .pure (by simp [Value.IsOrdinary, Value.isNumber, Value.isString, Value.isBool])

theorem applyUnary {op : String} (hop : op ∈ Node.signOperators) (a : Value) :
    Keeps State.IsOrdinary inLoop (Run.ofExcept (applyUnary op a)) Value.IsOrdinary := by
  have hsome : ∀ op ∈ Node.signOperators, (UnaryOperator.ofSymbol? op).isSome = true := by
    decide
  obtain ⟨o, ho⟩ := Option.isSome_iff_exists.1 (hsome op hop)
  unfold Scriptling.applyUnary UnaryOperator.apply
  rw [ho]
  dsimp only
  split
  all_goals first
    | exact .throw ⟨nofun, nofun⟩
    | exact .pure (by simp [Value.IsOrdinary, Value.isNumber, Value.isBool])

end Keeps

/-- Whether what an observer is told of is no value but an ordinary one. -/
def Moment.IsOrdinary : Moment → Prop
  | .evaluated _ v => v.IsOrdinary
  | _ => True

/-- Whether the values of the variables at a point of a run, and a value told of there, are
ordinary. -/
def Point.IsOrdinary (p : Point) : Prop :=
  p.state.IsOrdinary ∧ p.moment.IsOrdinary

def Watch.IsOrdinary (x : Watch) : Prop :=
  x.state.IsOrdinary ∧ ∀ p ∈ x.points, p.IsOrdinary

namespace EndsWell

variable {α : Type} {inLoop : Bool} {post : α → Prop}

theorem erase {r : EStateM.Result Stop Watch α} (h : EndsWell Watch.IsOrdinary inLoop post r) :
    EndsWell State.IsOrdinary inLoop post (Watched.erase r) := by
  cases h with
  | ok ha hx => exact .ok ha hx.1
  | error he hx => exact .error he hx.1

theorem attach {r : EStateM.Result Stop State α} (h : EndsWell State.IsOrdinary inLoop post r)
    {points : List Point} (hp : ∀ p ∈ points, p.IsOrdinary) :
    EndsWell Watch.IsOrdinary inLoop post (Watched.attach points r) := by
  cases h with
  | ok ha hs => exact .ok ha ⟨hs, hp⟩
  | error he hs => exact .error he ⟨hs, hp⟩

end EndsWell

namespace Keeps

variable {α β : Type} {inLoop : Bool} {w : Watched α} {post : α → Prop} {post' : β → Prop}

theorem lift {action : Run α} (h : Keeps State.IsOrdinary inLoop action post) :
    Keeps Watch.IsOrdinary inLoop (Watched.lift action) post :=
  fun x hx => (h x.state hx.1).attach hx.2

theorem see {m : Moment} (hm : m.IsOrdinary) :
    Keeps Watch.IsOrdinary inLoop (Watched.see m) fun _ => True :=
  fun _ hx => .ok trivial ⟨hx.1, List.forall_mem_cons.2 ⟨⟨hx.1, hm⟩, hx.2⟩⟩

theorem evaluation {w : Watched Value} (node : Node)
    (h : Keeps Watch.IsOrdinary inLoop w Value.IsOrdinary) :
    Keeps Watch.IsOrdinary inLoop (Watched.evaluation node w) Value.IsOrdinary :=
  .bind (.see trivial) fun _ _ => .bind h fun _ hv => .bind (.see hv) fun _ _ => .pure hv

theorem execution {w : Watched Unit} (node : Node)
    (h : Keeps Watch.IsOrdinary inLoop w fun _ => True) :
    Keeps Watch.IsOrdinary inLoop (Watched.execution node w) fun _ => True :=
  .bind (.see trivial) fun _ _ => .bind h fun _ _ => .see trivial

/-- A construct that makes good ends of good ends. -/
theorem around {inner : Bool} {construct : Run α → Run β}
    (h : Keeps Watch.IsOrdinary inner w post)
    (hc : ∀ r s, EndsWell State.IsOrdinary inner post r →
      EndsWell State.IsOrdinary inLoop post' (construct (fun _ => r) s)) :
    Keeps Watch.IsOrdinary inLoop (Watched.around construct w) post' :=
  fun x hx => (hc _ x.state (h x hx).erase).attach (h x hx).state.2

theorem placing (mark : Mark) (h : Keeps Watch.IsOrdinary inLoop w post) :
    Keeps Watch.IsOrdinary inLoop (Watched.around (Run.placing mark) w) post := by
  refine .around h fun r s hr => ?_
  unfold Run.placing
  dsimp only
  cases hr with
  | ok ha hs => exact .ok ha hs
  | error he hs =>
    split
    · rename_i heq
      cases heq
      exact .error he hs
    · exact .error he hs

/-- A loop takes a `break` that leaves its body. -/
theorem leaves {body : Watched Unit} (h : Keeps Watch.IsOrdinary true body fun _ => True) :
    Keeps Watch.IsOrdinary inLoop (Watched.around Run.leaves body) fun _ => True := by
  refine .around h fun r s hr => ?_
  unfold Run.leaves
  dsimp only
  cases hr with
  | ok _ hs => exact .ok trivial hs
  | @error e s he hs =>
    cases e with
    | leaving => exact .ok trivial hs
    | _ => exact .error he hs

theorem repeatWhile {test : Watched Bool} {body : Watched Unit}
    (ht : Keeps Watch.IsOrdinary inLoop test fun _ => True)
    (hb : Keeps Watch.IsOrdinary true body fun _ => True) (steps : Nat) :
    Keeps Watch.IsOrdinary inLoop (Watched.repeatWhile test body steps) fun _ => True := by
  induction steps with
  | zero => exact .throw trivial
  | succ steps ih =>
    refine .bind ht fun b _ => ?_
    cases b with
    | false => exact .pure trivial
    | true =>
      refine .bind (.leaves hb) fun left _ => ?_
      cases left with
      | false => exact ih
      | true => exact .pure trivial

theorem inOrder {run : Node → Watched Unit} {ns : List Node}
    (h : ∀ n ∈ ns, Keeps Watch.IsOrdinary inLoop (run n) fun _ => True) :
    Keeps Watch.IsOrdinary inLoop (Watched.inOrder run ns) fun _ => True := by
  induction ns with
  | nil => exact .pure trivial
  | cons n ns ih =>
    obtain ⟨hn, hns⟩ := List.forall_mem_cons.1 h
    exact .bind hn fun _ _ => ih hns

/-- Expressions of a text have ordinary values. -/
theorem eval (settings : Settings) (depth : Nat) {node : Node} (h : node.IsExpression) :
    Keeps Watch.IsOrdinary inLoop (Watched.eval settings depth node) Value.IsOrdinary := by
  induction depth generalizing node with
  | zero => exact .throw trivial
  | succ depth ih =>
    refine .evaluation node ?_
    cases h with
    | number => exact .lift (.pure (.inl rfl))
    | string => exact .lift (.pure (.inr (.inl rfl)))
    | bool => exact .lift (.pure (.inr (.inr rfl)))
    | @ident x m => exact .lift (.lookup x m)
    | binary hop hl hr =>
      exact .bind (ih hl) fun a _ => .bind (ih hr) fun b _ => .lift (.applyBinary hop a b)
    | unary hop hn =>
      exact .bind (ih hn) fun a _ => .lift (.applyUnary hop a)
    | @update x op n m _ hop hn =>
      have hop' : op ∈ Node.binaryOperators := by
        revert op
        decide
      exact .bind (.lift (.lookup x m)) fun a _ => .bind (ih hn) fun b _ =>
        .bind (.lift (.applyBinary hop' a b)) fun _ hv =>
        .bind (.lift (.setVariable x hv)) fun _ _ =>
        .bind (.lift (.record settings _)) fun _ _ => .pure hv

theorem evalCondition (settings : Settings) (depth : Nat) (construct : String) {node : Node}
    (h : node.IsExpression) :
    Keeps Watch.IsOrdinary inLoop (Watched.evalCondition settings depth construct node)
      fun _ => True := by
  refine .bind (eval settings depth h) fun v _ => .bind (.lift (.record settings _)) fun _ _ => ?_
  cases v with
  | bool b => exact .pure trivial
  | _ => exact .lift (.fail nofun nofun)

/-- Statements of a text bind ordinary values, and a `break` leaves one only inside of a
loop. -/
theorem exec (settings : Settings) (steps depth : Nat) {node : Node}
    (h : node.IsStatement inLoop) :
    Keeps Watch.IsOrdinary inLoop (Watched.exec settings steps depth node) fun _ => True := by
  induction depth using Nat.strongRecOn generalizing node inLoop with
  | ind depth ih =>
    match depth with
    | 0 | 1 | 2 => exact .throw trivial
    | depth + 3 =>
      have inner : ∀ {inLoop : Bool} {ns : List Node}, (∀ n ∈ ns, n.IsStatement inLoop) →
          Keeps Watch.IsOrdinary inLoop (Watched.inOrder (Watched.exec settings steps depth) ns)
            fun _ => True :=
        fun hns => .inOrder fun n hn => ih depth (by omega) (hns n hn)
      refine .execution node (.bind (.lift (.record settings _)) fun _ _ => .placing _ ?_)
      cases h with
      | print he =>
        exact .bind (eval settings _ he) fun _ _ => .bind (.lift (.record settings _)) fun _ _ =>
          .lift (.write _)
      | @input _ x m =>
        refine .bind (.lift .readLine?) fun line? _ => ?_
        cases line? with
        | some line =>
          exact .bind (.lift (.setVariable x (.inr (.inl rfl)))) fun _ _ =>
            .lift (.record settings _)
        | none => exact .lift (.fail nofun nofun)
      | @assign _ x e m _ he =>
        exact .bind (eval settings _ he) fun _ hv => .bind (.lift (.setVariable x hv)) fun _ _ =>
          .lift (.record settings _)
      | branch hc hts =>
        refine .bind (evalCondition settings _ "if" hc) fun c _ => ?_
        cases c with
        | true => exact inner hts
        | false => exact .pure trivial
      | branchElse hc hts hes =>
        refine .bind (evalCondition settings _ "if" hc) fun c _ => ?_
        cases c with
        | true => exact inner hts
        | false => exact inner hes
      | loop hc hns =>
        exact .repeatWhile (evalCondition settings _ "while" hc)
          (.bind (.lift (.countIteration settings)) fun _ _ =>
            .bind (.see (m := .iterating) trivial) fun _ _ => inner hns) steps
      | leave => exact .throw rfl
      | block hns => exact inner hns
      | evaluate he => exact .bind (eval settings _ he) fun _ _ => .pure trivial

theorem conclude (settings : Settings) {body : Watched Unit}
    (h : Keeps Watch.IsOrdinary false body fun _ => True) :
    Keeps Watch.IsOrdinary false (Watched.around (Scriptling.conclude settings) body)
      fun _ => True := by
  refine .around h fun r s hr => ?_
  unfold Scriptling.conclude
  dsimp only
  cases hr with
  | ok _ hs =>
    refine .ok trivial ?_
    split <;> exact hs
  | @error e s he hs =>
    match e with
    | .failure (.error e) =>
      refine .error he ?_
      split <;> exact hs
    | .failure (.fault f) => exact .error he hs
    | .leaving => cases he
    | .tooDeep =>
      refine .error ⟨nofun, nofun⟩ ?_
      split <;> exact hs
    | .outOfSteps => exact .error trivial hs

theorem runWithin (settings : Settings) (steps depth : Nat) {program : Node}
    (h : program.IsProgram) (s : State) :
    EndsWell Watch.IsOrdinary false (fun _ => True)
      (Watched.runWithin settings steps depth program ⟨s, []⟩) := by
  cases h with
  | @intro ns hns =>
    have hbody : Keeps Watch.IsOrdinary false
        (do
          Watched.lift (Run.record settings (.started ns.length))
          Watched.around (Scriptling.conclude settings)
            (Watched.inOrder (Watched.exec settings steps depth) ns)) fun _ => True :=
      .bind (.lift (.record settings _)) fun _ _ =>
        .conclude settings (.inOrder fun n hn => exec settings steps depth (hns n hn))
    -- The variables that there are before a run are gone when it starts.
    exact hbody ⟨_, []⟩ ⟨Env.IsOrdinary.empty, nofun⟩

end Keeps

/-- No `break` gets out of a program, and no node is found out of its place. -/
theorem isExpected_of_runWithin {settings : Settings} {steps depth : Nat} {program : Node}
    (h : program.IsProgram) {s s' : State} {e : Stop}
    (hr : runWithin settings steps depth program s = .error e s') : e.IsExpected false := by
  have hends := (Keeps.runWithin settings steps depth h s).erase
  rw [(Shows.runWithin settings steps depth program ⟨s, []⟩).1, hr] at hends
  cases hends with
  | error he _ => exact he

/-- What is promised of the runs of a program, of any length. -/
structure RunsSoundly (settings : Settings) (steps depth : Nat) (program : Node) (s : State) :
    Prop where
  /-- What an observer sees is the run. -/
  shown : Watched.erase (Watched.runWithin settings steps depth program ⟨s, []⟩) =
    runWithin settings steps depth program s
  /-- Variables and evaluated expressions have ordinary values at every point. -/
  points : ∀ p ∈ (endState (Watched.runWithin settings steps depth program ⟨s, []⟩)).points,
    p.IsOrdinary
  /-- So have the variables that the run leaves. -/
  env : (endState (runWithin settings steps depth program s)).env.IsOrdinary
  /-- No `break` gets out of the program, and no node is found out of its place. -/
  stop : ∀ e ∈ stop? (runWithin settings steps depth program s), e.IsExpected false

/-- Whatever a front end accepts runs soundly, on any input and with any limit. -/
theorem runs_soundly_of_parse {f : FrontEnd} {text : String} {program : Node}
    (h : f.parse text = .ok program) (settings : Settings) (steps depth : Nat) (s : State) :
    RunsSoundly settings steps depth program s := by
  have hshown := (Shows.runWithin settings steps depth program ⟨s, []⟩).1
  have hends := Keeps.runWithin settings steps depth (FrontEnd.isProgram_of_parse h) s
  have herased := hends.erase
  rw [hshown] at herased
  refine ⟨hshown, hends.state.2, herased.state, ?_⟩
  intro e he
  cases hr : runWithin settings steps depth program s with
  | ok a s' =>
    rw [hr] at he
    cases he
  | error e' s' =>
    rw [hr] at he
    cases he
    exact isExpected_of_runWithin (FrontEnd.isProgram_of_parse h) hr

/-- A loop that an empty line ends. -/
def promptText : String :=
  "while (true) \x7b input x; if (x == \"\") \x7b break; \x7d print(x) \x7d"

def promptTree : Node :=
  .program [.loop (.bool true) (.block [
    .input (.str "x") (.of ⟨1, 16⟩),
    .branch (.binary (.str "==") (.ident (.str "x") (.of ⟨1, 29⟩)) (.string ""))
      (.block [.leave (.of ⟨1, 40⟩)]) .absent (.of ⟨1, 25⟩),
    .print (.ident (.str "x") (.of ⟨1, 55⟩)) (.of ⟨1, 49⟩)]) (.of ⟨1, 1⟩)]

theorem promptText_runs_soundly :
    FrontEnd.parse .descent promptText = .ok promptTree ∧
      RunsSoundly ⟨0, .atMost 7⟩ 8 walkingDepth promptTree (.initial ⟨["a", "", "b"], #[]⟩) := by
  have h : FrontEnd.parse .descent promptText = .ok promptTree := rfl
  exact ⟨h, runs_soundly_of_parse h _ _ _ _⟩

end Scriptling
