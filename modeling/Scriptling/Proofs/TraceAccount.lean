import Scriptling.Proofs.SoundRuns
import Scriptling.Proofs.TraceLevels

/-!
# What a trace tells

From the second level on, the trace of a parsed program is an account of its run: of the
lines written, of the lines read and the variables they went to, and of the value that each
variable has in the end. This holds after every action that changes one of these together
with the event that tells of it, and no other action does either. What the trace says of
input is held against an observer of the run, who sees the input statements executed.
-/
namespace Scriptling

namespace Env

theorem mem_names_iff (env : Env) (x : String) : x ∈ env.names ↔ (env.get? x).isSome = true := by
  obtain ⟨bindings⟩ := env
  simp only [names, get?]
  induction bindings with
  | nil => simp [find?]
  | cons b rest ih =>
    obtain ⟨k, v⟩ := b
    by_cases h : k = x
    · simp [find?, h]
    · simp only [List.map_cons, List.mem_cons, Ne.symm h, false_or, find?, if_neg h, ih]

/-- A variable is declared once. -/
theorem nodup_names_set {env : Env} (h : env.names.Nodup) (x : String) (v : Value) :
    (env.set x v).names.Nodup := by
  obtain ⟨bindings⟩ := env
  induction bindings with
  | nil => exact List.nodup_singleton x
  | cons b rest ih =>
    obtain ⟨k, w⟩ := b
    obtain ⟨hk, hrest⟩ := List.nodup_cons.1 h
    by_cases hx : k = x
    · simpa [names, set, put, hx] using h
    · have hk' : k ∉ (set ⟨rest⟩ x v).names := by
        rwa [mem_names_iff, get?_set_of_ne hx, ← mem_names_iff]
      have hcons : (set ⟨(k, w) :: rest⟩ x v).names = k :: (set ⟨rest⟩ x v).names := by
        simp [names, set, put, hx]
      rw [hcons]
      exact List.nodup_cons.2 ⟨hk', ih hrest⟩

end Env

namespace Event

/-- The line that an event says was written. -/
def printed? : Event → Option String
  | .printed text => some text
  | _ => none

/-- The variable that an event says a line was read into, and the line. -/
def received? : Event → Option (String × String)
  | .received name line => some (name, line)
  | _ => none

/-- The text of the value that an event says a variable got. -/
def shows? (x : String) : Event → Option String
  | .received name line => if name = x then some line else none
  | .assigned name v | .updated name _ v => if name = x then some v.display else none
  | _ => none

end Event

/-- The text of the value that a variable got by the last event that gave it one. -/
def lastShown (x : String) (es : List Event) : Option String :=
  es.reverse.findSome? (Event.shows? x)

theorem lastShown_append (x : String) (es : List Event) (e : Event) :
    lastShown x (es ++ [e]) = (e.shows? x).or (lastShown x es) := by
  rw [lastShown, lastShown, List.reverse_append, List.reverse_singleton, List.singleton_append,
    List.findSome?_cons]
  cases e.shows? x <;> rfl

/-- The events traced so far. -/
def State.events (s : State) : List Event := s.trace.events.toList

/-- Whether the trace of a state tells what has been done since the start of a run of so many
statements, with the given lines to read. -/
structure State.Accounted (inputs : List String) (statements : Nat) (s : State) : Prop where
  opened : ∃ es, s.trace = .opened es
  starts : s.events.head? = some (.started statements)
  output : s.output.toList = s.events.filterMap Event.printed?
  input : inputs = (s.events.filterMap Event.received?).map Prod.snd ++ s.pending
  shown : ∀ x, lastShown x s.events = (s.env.get? x).map Value.display
  distinct : s.env.names.Nodup

theorem State.events_add {s s' : State} {es : Array Event} (h : s.trace = .opened es) {e : Event}
    (h' : s'.trace = s.trace.add e) : s'.events = s.events ++ [e] := by
  simp [events, h', h, Trace.add, Trace.events]

/-- What changes together with an event that tells of it. -/
structure Event.Tells (e : Event) (s s' : State) : Prop where
  trace : s'.trace = s.trace.add e
  output : s'.output.toList = s.output.toList ++ e.printed?.toList
  input : s.pending = (e.received?.toList).map Prod.snd ++ s'.pending
  shown : ∀ x, (s'.env.get? x).map Value.display =
    (e.shows? x).or ((s.env.get? x).map Value.display)
  distinct : s.env.names.Nodup → s'.env.names.Nodup

/-- An event that tells of nothing, in a state that does not change. -/
theorem Event.tells_nothing {e : Event} (hp : e.printed? = none) (hr : e.received? = none)
    (hs : ∀ x, e.shows? x = none) (s : State) : e.Tells s { s with trace := s.trace.add e } := by
  refine ⟨rfl, ?_, ?_, fun x => ?_, id⟩
  · simp [hp]
  · simp [hr]
  · simp [hs]

/-- A variable gets a value. -/
theorem Event.tells_value {e : Event} {y : String} {v : Value} (hp : e.printed? = none)
    (hr : e.received? = none) (hs : ∀ x, e.shows? x = if y = x then some v.display else none)
    (s : State) : e.Tells s { s with env := s.env.set y v, trace := s.trace.add e } := by
  refine ⟨rfl, ?_, ?_, fun x => ?_, fun h => Env.nodup_names_set h y v⟩
  · simp [hp]
  · simp [hr]
  · rw [hs]
    by_cases hx : y = x
    · simp [hx]
    · simp [hx, Env.get?_set_of_ne (Ne.symm hx)]

theorem Event.tells_line (text : String) (s : State) : (Event.printed text).Tells s
    { s with output := s.output.push text, trace := s.trace.add (.printed text) } :=
  ⟨rfl, Array.toList_push, rfl, fun _ => rfl, id⟩

theorem Event.tells_reading {s : State} {line : String} {rest : List String}
    (h : s.pending = line :: rest) (y : String) : (Event.received y line).Tells s
      { s with pending := rest, env := s.env.set y (.string line),
               trace := s.trace.add (.received y line) } := by
  refine ⟨rfl, (List.append_nil _).symm, h, fun x => ?_, fun h => Env.nodup_names_set h y _⟩
  by_cases hx : y = x
  · simp [shows?, hx, Value.display]
  · simp [shows?, hx, Env.get?_set_of_ne (Ne.symm hx)]

namespace State.Accounted

variable {inputs : List String} {statements : Nat} {s s' : State}

theorem tells (h : s.Accounted inputs statements) {e : Event} (he : e.Tells s s') :
    s'.Accounted inputs statements := by
  obtain ⟨es, hes⟩ := h.opened
  have hevents := State.events_add hes he.trace
  refine ⟨⟨es.push e, ?_⟩, ?_, ?_, ?_, fun x => ?_, he.distinct h.distinct⟩
  · rw [he.trace, hes, Trace.add]
  · rw [hevents, List.head?_append, h.starts, Option.some_or]
  · rw [he.output, hevents, List.filterMap_append, h.output]
    cases he : e.printed? <;> simp [he]
  · rw [hevents, List.filterMap_append, List.map_append, List.append_assoc, h.input, he.input]
    cases he : e.received? <;> simp [he]
  · rw [hevents, lastShown_append, he.shown, h.shown]

theorem of_eq (h : s.Accounted inputs statements) (hbuffer : s'.toBuffer = s.toBuffer)
    (henv : s'.env = s.env) (htrace : s'.trace = s.trace) : s'.Accounted inputs statements := by
  obtain ⟨hopened, hstarts, houtput, hinput, hshown, hdistinct⟩ := h
  refine ⟨htrace ▸ hopened, ?_, ?_, ?_, ?_, henv ▸ hdistinct⟩ <;>
    simpa only [events, htrace, hbuffer, henv]

end State.Accounted

/-- The variable of an input statement that has been executed, and its value then. -/
def Point.reception? (p : Point) : Option (String × Option Value) :=
  match p.moment with
  | .executed (.input name _) => some (name.display, p.state.env.get? name.display)
  | _ => none

/-- Whether the trace tells what has been done and what an observer has seen of the lines
read. -/
structure Watch.Accounted (inputs : List String) (statements : Nat) (x : Watch) : Prop where
  state : x.state.Accounted inputs statements
  stored : x.points.reverse.filterMap Point.reception? =
    (x.state.events.filterMap Event.received?).map fun r => (r.1, some (.string r.2))

namespace Watch.Accounted

variable {inputs : List String} {statements : Nat} {x : Watch}

theorem tells (h : x.Accounted inputs statements) {e : Event} (hr : e.received? = none) {s' : State}
    (he : e.Tells x.state s') : Watch.Accounted inputs statements ⟨s', x.points⟩ := by
  obtain ⟨es, hes⟩ := h.state.opened
  refine ⟨h.state.tells he, ?_⟩
  rw [State.events_add hes he.trace, List.filterMap_append, h.stored]
  simp [hr]

theorem of_eq (h : x.Accounted inputs statements) {s' : State}
    (hbuffer : s'.toBuffer = x.state.toBuffer) (henv : s'.env = x.state.env)
    (htrace : s'.trace = x.state.trace) : Watch.Accounted inputs statements ⟨s', x.points⟩ := by
  refine ⟨h.state.of_eq hbuffer henv htrace, ?_⟩
  simpa only [State.events, htrace] using h.stored

theorem see (h : x.Accounted inputs statements) {m : Moment}
    (hm : Point.reception? ⟨m, x.state⟩ = none) :
    Watch.Accounted inputs statements ⟨x.state, ⟨m, x.state⟩ :: x.points⟩ := by
  refine ⟨h.state, ?_⟩
  rw [List.reverse_cons, List.filterMap_append, ← h.stored]
  simp [hm]

/-- A line is read into a variable, and the statement that has read it is seen. -/
theorem receive (h : x.Accounted inputs statements) {line : String} {rest : List String}
    (hp : x.state.pending = line :: rest) (y : String) (m : Mark) {s' : State}
    (hs' : s' = { x.state with
      pending := rest, env := x.state.env.set y (.string line),
      trace := x.state.trace.add (.received y line) }) :
    Watch.Accounted inputs statements
      ⟨s', ⟨.executed (.input (.str y) m), s'⟩ :: x.points⟩ := by
  have htells := Event.tells_reading hp y
  rw [← hs'] at htells
  obtain ⟨es, hes⟩ := h.state.opened
  refine ⟨h.state.tells htells, ?_⟩
  have hseen : Point.reception? ⟨.executed (.input (.str y) m), s'⟩ =
      some (y, some (.string line)) := by
    simp [Point.reception?, hs']
  rw [State.events_add hes htells.trace, List.filterMap_append, List.map_append, ← h.stored,
    List.reverse_cons, List.filterMap_append]
  simp [hseen, Event.received?]

end Watch.Accounted

theorem Watched.assign_apply {settings : Settings} (hlevel : 2 ≤ settings.level) {e : Event}
    (he : e.level = 2) (y : String) (v : Value) (x : Watch) :
    (do lift (Run.setVariable (.str y) v); lift (Run.record settings e)) x =
      .ok () ⟨{ x.state with env := x.state.env.set y v, trace := x.state.trace.add e },
        x.points⟩ := by
  have hset : lift (Run.setVariable (.str y) v) x =
      .ok () ⟨{ x.state with env := x.state.env.set y v }, x.points⟩ := rfl
  rw [bind_of_ok hset, lift, Run.record_apply, State.recorded, if_pos (he ▸ hlevel)]
  rfl

section Maintains

variable {σ α β : Type} {I : σ → Prop}

/-- Whether an invariant holds wherever a computation ends, if it held where it began. -/
def Maintains (I : σ → Prop) (w : EStateM Stop σ α) : Prop :=
  ∀ x, I x → I (endState (w x))

namespace Maintains

theorem pure (a : α) : Maintains I (pure a : EStateM Stop σ α) := fun _ h => h

theorem throw (e : Stop) : Maintains I (throw e : EStateM Stop σ α) := fun _ h => h

theorem bind {w : EStateM Stop σ α} {k : α → EStateM Stop σ β} (h : Maintains I w)
    (hk : ∀ a, Maintains I (k a)) : Maintains I (w >>= k) := by
  intro x hx
  have hw := h x hx
  cases hr : w x with
  | ok a x' =>
    rw [hr] at hw
    rw [bind_of_ok hr]
    exact hk a x' hw
  | error e x' =>
    rw [hr] at hw
    rw [bind_of_error hr]
    exact hw

end Maintains
end Maintains

namespace Maintains

variable {inputs : List String} {statements : Nat} {α β : Type}

/-- An action that changes at most the number of iterations. -/
theorem still {action : Run α} (h : ∀ s, (endState (action s)).toBuffer = s.toBuffer ∧
    (endState (action s)).env = s.env ∧ (endState (action s)).trace = s.trace) :
    Maintains (Watch.Accounted inputs statements) (Watched.lift action) := by
  intro x hx
  obtain ⟨hbuffer, henv, htrace⟩ := h x.state
  rw [Watched.lift, Shows.endState_attach]
  exact hx.of_eq hbuffer henv htrace

theorem ofExcept (r : Except Failure α) :
    Maintains (Watch.Accounted inputs statements) (Watched.lift (Run.ofExcept r)) := by
  cases r <;> exact .still fun _ => ⟨rfl, rfl, rfl⟩

theorem lookup (y : String) (m : Mark) :
    Maintains (Watch.Accounted inputs statements) (Watched.lift (Run.lookup (.str y) m)) := by
  refine .still fun s => ?_
  have hy : Run.variableOf (.str y) s = .ok y s := rfl
  rw [Run.lookup, bind_of_ok hy, bind_get]
  cases s.env.get? y <;> exact ⟨rfl, rfl, rfl⟩

theorem countIteration (settings : Settings) :
    Maintains (Watch.Accounted inputs statements) (Watched.lift (Run.countIteration settings)) := by
  refine .still fun s => ?_
  rw [Run.countIteration_refusal]
  cases settings.limit.refusal? s.counted.iterations <;> exact ⟨rfl, rfl, rfl⟩

/-- An event that tells of nothing may be recorded at any time. -/
theorem record (settings : Settings) {e : Event} (hp : e.printed? = none) (hr : e.received? = none)
    (hs : ∀ x, e.shows? x = none) :
    Maintains (Watch.Accounted inputs statements) (Watched.lift (Run.record settings e)) := by
  intro x hx
  rw [Watched.lift, Run.record_apply]
  change Watch.Accounted _ _ ⟨x.state.recorded settings.level e, x.points⟩
  unfold State.recorded
  split
  · exact hx.tells hr (Event.tells_nothing hp hr hs x.state)
  · exact hx

theorem see {m : Moment} (hm : ∀ s, Point.reception? ⟨m, s⟩ = none) :
    Maintains (Watch.Accounted inputs statements) (Watched.see m) :=
  fun _ hx => hx.see (hm _)

theorem evaluation {w : Watched Value} (node : Node)
    (h : Maintains (Watch.Accounted inputs statements) w) :
    Maintains (Watch.Accounted inputs statements) (Watched.evaluation node w) :=
  .bind (.see fun _ => rfl) fun _ => .bind h fun _ => .bind (.see fun _ => rfl) fun _ => .pure _

/-- A construct that leaves the state as it is. -/
theorem around {construct : Run α → Run β} {w : Watched α}
    (hc : ∀ r s, endState (construct (fun _ => r) s) = endState r)
    (h : Maintains (Watch.Accounted inputs statements) w) :
    Maintains (Watch.Accounted inputs statements) (Watched.around construct w) := by
  intro x hx
  rw [Watched.around, Shows.endState_attach, hc, Shows.endState_erase]
  exact h x hx

theorem placing (m : Mark) {w : Watched α} (h : Maintains (Watch.Accounted inputs statements) w) :
    Maintains (Watch.Accounted inputs statements) (Watched.around (Run.placing m) w) := by
  refine .around (fun r s => ?_) h
  unfold Run.placing
  dsimp only
  split <;> rfl

theorem repeatWhile {test : Watched Bool} {body : Watched Unit}
    (ht : Maintains (Watch.Accounted inputs statements) test)
    (hb : Maintains (Watch.Accounted inputs statements) body) (steps : Nat) :
    Maintains (Watch.Accounted inputs statements) (Watched.repeatWhile test body steps) := by
  have hleaves : ∀ (r : EStateM.Result Stop State Unit) (s : State),
      endState (Run.leaves (fun _ => r) s) = endState r := by
    intro r s
    unfold Run.leaves
    dsimp only
    split <;> rfl
  induction steps with
  | zero => exact .throw _
  | succ steps ih =>
    refine .bind ht fun b => ?_
    cases b with
    | false => exact .pure ()
    | true =>
      refine .bind (.around hleaves hb) fun left => ?_
      cases left with
      | false => exact ih
      | true => exact .pure ()

theorem inOrder {run : Node → Watched Unit} {ns : List Node}
    (h : ∀ n ∈ ns, Maintains (Watch.Accounted inputs statements) (run n)) :
    Maintains (Watch.Accounted inputs statements) (Watched.inOrder run ns) := by
  induction ns with
  | nil => exact .pure ()
  | cons n ns ih =>
    obtain ⟨hn, hns⟩ := List.forall_mem_cons.1 h
    exact .bind hn fun _ => ih hns

/-- What fails without a line, and otherwise stores the line and records that, keeps the
account once the statement is seen to be over. -/
theorem reading {action : Watched Unit} (y : String) (m : Mark)
    (hnone : ∀ x : Watch, x.state.pending = [] →
      action x = .error (.failure (.ofCause (.endOfInput y))) x)
    (hsome : ∀ (x : Watch) (line : String) (rest : List String),
      x.state.pending = line :: rest → action x = .ok () ⟨{ x.state with
        pending := rest
        env := x.state.env.set y (.string line)
        trace := x.state.trace.add (.received y line) }, x.points⟩) :
    Maintains (Watch.Accounted inputs statements) (do
      Watched.around (Run.placing m) action
      Watched.see (.executed (.input (.str y) m))) := by
  intro x hx
  cases hp : x.state.pending with
  | nil =>
    have haround : Watched.around (Run.placing m) action x =
        .error (.failure (.error ((Error.unplaced (.endOfInput y)).placedAt m))) x := by
      rw [Watched.around, hnone x hp]
      rfl
    rw [bind_of_error haround]
    exact hx
  | cons line rest =>
    have haround : Watched.around (Run.placing m) action x = .ok () ⟨{ x.state with
        pending := rest
        env := x.state.env.set y (.string line)
        trace := x.state.trace.add (.received y line) }, x.points⟩ := by
      rw [Watched.around, hsome x line rest hp]
      rfl
    rw [bind_of_ok haround]
    exact hx.receive hp y m rfl

section Level

variable {settings : Settings} (hlevel : 2 ≤ settings.level)
include hlevel

/-- A variable gets a value, and the event that tells of it is recorded. -/
theorem assign {e : Event} {y : String} {v : Value} (he : e.level = 2) (hp : e.printed? = none)
    (hr : e.received? = none) (hs : ∀ x, e.shows? x = if y = x then some v.display else none) :
    Maintains (Watch.Accounted inputs statements) (do
      Watched.lift (Run.setVariable (.str y) v)
      Watched.lift (Run.record settings e)) := by
  intro x hx
  rw [Watched.assign_apply hlevel he y v x]
  exact hx.tells hr (Event.tells_value hp hr hs x.state)

/-- A line is written, after the event that tells of it. -/
theorem print (text : String) :
    Maintains (Watch.Accounted inputs statements) (do
      Watched.lift (Run.record settings (.printed text))
      Watched.lift (Run.write text)) := by
  intro x hx
  have hrecord : Watched.lift (Run.record settings (.printed text)) x =
      .ok () ⟨{ x.state with trace := x.state.trace.add (.printed text) }, x.points⟩ := by
    have hprinted : (Event.printed text).level ≤ settings.level := hlevel
    rw [Watched.lift, Run.record_apply, State.recorded, if_pos hprinted]
    rfl
  rw [bind_of_ok hrecord]
  exact hx.tells rfl (Event.tells_line text x.state)

theorem eval (depth : Nat) {node : Node} (h : node.IsExpression) :
    Maintains (Watch.Accounted inputs statements) (Watched.eval settings depth node) := by
  induction depth generalizing node with
  | zero => exact .throw _
  | succ depth ih =>
    refine .evaluation node ?_
    cases h with
    | number => exact .still fun _ => ⟨rfl, rfl, rfl⟩
    | string => exact .still fun _ => ⟨rfl, rfl, rfl⟩
    | bool => exact .still fun _ => ⟨rfl, rfl, rfl⟩
    | @ident y m => exact .lookup y m
    | binary _ hl hr => exact .bind (ih hl) fun _ => .bind (ih hr) fun _ => .ofExcept _
    | unary _ hn => exact .bind (ih hn) fun _ => .ofExcept _
    | @update y op n m _ _ hn =>
      refine .bind (.lookup y m) fun _ => .bind (ih hn) fun _ => .bind (.ofExcept _) fun v => ?_
      rw [← bind_assoc]
      exact .bind (.assign hlevel rfl rfl rfl fun _ => rfl) fun _ => .pure v

theorem evalCondition (depth : Nat) (construct : String) {node : Node} (h : node.IsExpression) :
    Maintains (Watch.Accounted inputs statements)
      (Watched.evalCondition settings depth construct node) := by
  refine .bind (.eval hlevel depth h) fun v =>
    .bind (.record settings rfl rfl fun _ => rfl) fun _ => ?_
  cases v with
  | bool b => exact .pure b
  | _ => exact .still fun _ => ⟨rfl, rfl, rfl⟩

/-- The statement that reads a line tells of the line and of the variable. -/
theorem input (steps depth : Nat) (y : String) (m : Mark) :
    Maintains (Watch.Accounted inputs statements)
      (Watched.exec settings steps depth (.input (.str y) m)) := by
  match depth with
  | 0 | 1 | 2 => exact .throw _
  | depth + 3 =>
    rw [Watched.exec, Watched.execution]
    refine .bind (.see fun _ => rfl) fun _ => ?_
    rw [bind_assoc]
    refine .bind (.record settings rfl rfl fun _ => rfl) fun _ =>
      .reading y m (fun x hp => ?_) fun x line rest hp => ?_
    · have hread : Watched.lift Run.readLine? x = .ok none x := by
        rw [Watched.lift, Run.readLine?_nil hp]
        rfl
      exact bind_of_ok hread
    · have hread : Watched.lift Run.readLine? x =
          .ok (some line) ⟨{ x.state with pending := rest }, x.points⟩ := by
        rw [Watched.lift, Run.readLine?_cons hp]
        rfl
      exact (bind_of_ok hread).trans (Watched.assign_apply hlevel rfl y _ _)

/-- The trace tells what every statement of a text does. -/
theorem exec (steps depth : Nat) {inLoop : Bool} {node : Node} (h : node.IsStatement inLoop) :
    Maintains (Watch.Accounted inputs statements) (Watched.exec settings steps depth node) := by
  induction depth using Nat.strongRecOn generalizing node inLoop with
  | ind depth ih =>
    match depth with
    | 0 | 1 | 2 => exact .throw _
    | depth + 3 =>
      have inner : ∀ {inLoop : Bool} {ns : List Node}, (∀ n ∈ ns, n.IsStatement inLoop) →
          Maintains (Watch.Accounted inputs statements)
            (Watched.inOrder (Watched.exec settings steps depth) ns) :=
        fun hns => .inOrder fun n hn => ih depth (by omega) (hns n hn)
      -- What is seen of the end of a statement matters for those that read a line only.
      have plain : ∀ {w : Watched Unit}, (∀ s, Point.reception? ⟨.executed node, s⟩ = none) →
          Maintains (Watch.Accounted inputs statements) w →
          Maintains (Watch.Accounted inputs statements) (Watched.execution node (do
            Watched.lift (Run.record settings (.entered node.kind node.mark.line))
            Watched.around (Run.placing node.mark) w)) :=
        fun hnode hw => .bind (.see fun _ => rfl) fun _ =>
          .bind (.bind (.record settings rfl rfl fun _ => rfl) fun _ => .placing _ hw)
            fun _ => .see hnode
      cases h with
      | print he => exact plain (fun _ => rfl) (.bind (.eval hlevel _ he) fun _ => .print hlevel _)
      | @input _ y m => exact .input hlevel steps (depth + 3) y m
      | assign _ he =>
        exact plain (fun _ => rfl) (.bind (.eval hlevel _ he) fun _ =>
          .assign hlevel rfl rfl rfl fun _ => rfl)
      | branch hc hts =>
        refine plain (fun _ => rfl) (.bind (.evalCondition hlevel _ "if" hc) fun c => ?_)
        cases c with
        | true => exact inner hts
        | false => exact .pure ()
      | branchElse hc hts hes =>
        refine plain (fun _ => rfl) (.bind (.evalCondition hlevel _ "if" hc) fun c => ?_)
        cases c with
        | true => exact inner hts
        | false => exact inner hes
      | loop hc hns =>
        exact plain (fun _ => rfl) (.repeatWhile (.evalCondition hlevel _ "while" hc)
          (.bind (.countIteration settings) fun _ => .bind (.see fun _ => rfl) fun _ => inner hns)
          steps)
      | leave => exact plain (fun _ => rfl) (.throw _)
      | block hns => exact plain (fun _ => rfl) (inner hns)
      | evaluate he => exact plain (fun _ => rfl) (.bind (.eval hlevel _ he) fun _ => .pure ())

end Level
end Maintains

/-- Whether events are an account of a run of so many statements with the given lines to
read, which has ended in the given way and of which an observer has seen the given points. -/
structure IsAccount (inputs : List String) (statements : Nat) (points : List Point)
    (r : EStateM.Result Stop State Unit) (es : List Event) : Prop where
  trace : (endState r).trace = .closed es.toArray
  /-- The lines said to be written are the output. -/
  prints : es.filterMap Event.printed? = (endState r).output.toList
  /-- The lines said to be read are those that are no longer to be read, -/
  reads : (es.filterMap Event.received?).map Prod.snd ++ (endState r).pending = inputs
  /-- and went to the variables of the input statements that were executed. -/
  stores : (es.filterMap Event.received?).map (fun r => (r.1, some (.string r.2))) =
    points.filterMap Point.reception?
  /-- What is last said of a variable is its value. -/
  shows : ∀ x, lastShown x es = ((endState r).env.get? x).map Value.display
  starts : es.head? = some (.started statements)
  finishes : stop? r = none → es.getLast? = some (.finished (endState r).env.names.length)
  aborts : ∀ e, stop? r = some (.failure (.error e)) → es.getLast? = some (.aborted e)
  /-- The variables counted in the end are those that are bound. -/
  names : (endState r).env.names.Nodup ∧
    ∀ x, x ∈ (endState r).env.names ↔ ((endState r).env.get? x).isSome = true

namespace Watch.Accounted

variable {inputs : List String} {statements : Nat} {x : Watch}
  {r : EStateM.Result Stop State Unit}

/-- A trace that tells what was done is an account once it is closed. -/
theorem isAccount (h : x.Accounted inputs statements)
    (hr : endState r = { x.state with trace := x.state.trace.close })
    (hfinishes : stop? r = none → x.state.events.getLast? = some (.finished x.state.env.size))
    (haborts : ∀ e, stop? r = some (.failure (.error e)) →
      x.state.events.getLast? = some (.aborted e)) :
    IsAccount inputs statements x.points.reverse r x.state.events := by
  obtain ⟨es, hes⟩ := h.state.opened
  refine ⟨?_, ?_, ?_, h.stored.symm, ?_, h.state.starts, ?_, haborts, ?_⟩
  · simp [hr, State.events, hes, Trace.close, Trace.events]
  · rw [hr, h.state.output]
  · rw [hr, h.state.input]
  · rw [hr]
    exact h.state.shown
  · intro hstop
    rw [hfinishes hstop, hr, Env.size, Env.names, List.length_map]
  · rw [hr]
    exact ⟨h.state.distinct, x.state.env.mem_names_iff⟩

/-- The same with a last event, which tells of nothing but the end. -/
theorem isAccount_of_concluded (h : x.Accounted inputs statements) {level : Nat} {e : Event}
    (hlevel : e.level ≤ level) (hp : e.printed? = none) (hv : e.received? = none)
    (hs : ∀ y, e.shows? y = none) (hr : endState r = x.state.concluded level e)
    (hfinishes : stop? r = none → e = .finished x.state.env.size)
    (haborts : ∀ e', stop? r = some (.failure (.error e')) → e = .aborted e') :
    ∃ es, IsAccount inputs statements x.points.reverse r es := by
  have htells := Event.tells_nothing hp hv hs x.state
  obtain ⟨es, hes⟩ := h.state.opened
  have hlast : State.events { x.state with trace := x.state.trace.add e } =
      x.state.events ++ [e] := State.events_add hes rfl
  refine ⟨_, (h.tells hv htells).isAccount ?_ ?_ ?_⟩
  · rw [hr, State.concluded, State.recorded, if_pos hlevel]
  · intro hstop
    rw [hlast, List.getLast?_concat, hfinishes hstop]
  · intro e' hstop
    rw [hlast, List.getLast?_concat, haborts e' hstop]

/-- However the statements of a run have ended, its trace is closed as an account. -/
theorem exists_isAccount {settings : Settings} (hlevel : 1 ≤ settings.level)
    {body : EStateM.Result Stop Watch Unit} (h : (endState body).Accounted inputs statements)
    (s : State) : ∃ es, IsAccount inputs statements (endState body).points.reverse
      (conclude settings (fun _ => Watched.erase body) s) es := by
  rcases body with ⟨_, x⟩ | ⟨(e | f) | _ | _ | _, x⟩
  · exact h.isAccount_of_concluded hlevel rfl rfl (fun _ => rfl) rfl (fun _ => rfl) nofun
  · exact h.isAccount_of_concluded (e := .aborted e) hlevel rfl rfl (fun _ => rfl) rfl nofun
      fun _ he => by cases he; rfl
  · exact ⟨_, h.isAccount rfl nofun nofun⟩
  · exact h.isAccount_of_concluded (e := .aborted (.unplaced .strayBreak)) hlevel rfl rfl
      (fun _ => rfl) rfl nofun fun _ he => by cases he; rfl
  · exact h.isAccount_of_concluded (e := .aborted (.unplaced .nestedTree)) hlevel rfl rfl
      (fun _ => rfl) rfl nofun fun _ he => by cases he; rfl
  · exact ⟨_, h.isAccount rfl nofun nofun⟩

end Watch.Accounted

/-- From the second level on, the trace of a parsed program is an account of its run, however
it ends. -/
theorem trace_accounts_for_run {f : FrontEnd} {text : String} {program : Node}
    (hparse : f.parse text = .ok program) {settings : Settings} (hlevel : 2 ≤ settings.level)
    (steps depth : Nat) (inputs : List String) :
    let s := State.initial ⟨inputs, #[]⟩
    let watched := Watched.runWithin settings steps depth program ⟨s, []⟩
    Watched.erase watched = runWithin settings steps depth program s ∧
      ∃ es, IsAccount inputs program.nested.length (endState watched).points.reverse
        (runWithin settings steps depth program s) es := by
  intro s watched
  have hshown := (Shows.runWithin settings steps depth program ⟨s, []⟩).1
  refine ⟨hshown, ?_⟩
  rw [← hshown]
  cases FrontEnd.isProgram_of_parse hparse with
  | @intro ns hns =>
    -- The first event is all that there is when the first statement starts.
    let s₀ : State := (s.started settings.level).recorded settings.level (.started ns.length)
    have hstart : watched = Watched.around (conclude settings)
        (Watched.inOrder (Watched.exec settings steps depth) ns) ⟨s₀, []⟩ := by
      have hrecord : Watched.lift (Run.record settings (.started ns.length))
          ⟨s.started settings.level, []⟩ = .ok () ⟨s₀, []⟩ := by
        rw [Watched.lift, Run.record_apply]
        rfl
      exact bind_of_ok hrecord
    have hfirst : Watch.Accounted inputs ns.length ⟨s₀, []⟩ := by
      have hs₀ : s₀ = { s.started settings.level with trace := .opened #[.started ns.length] } := by
        have hone : (Event.started ns.length).level ≤ settings.level := Nat.le_of_succ_le hlevel
        simp only [s₀, State.recorded, if_pos hone, State.started,
          if_pos (Nat.lt_of_lt_of_le Nat.zero_lt_two hlevel)]
        rfl
      rw [hs₀]
      exact ⟨⟨⟨_, rfl⟩, rfl, rfl, rfl, fun _ => rfl, List.nodup_nil⟩, rfl⟩
    have hbody := Maintains.inOrder (fun n hn => Maintains.exec hlevel steps depth (hns n hn))
      _ hfirst
    change ∃ es, IsAccount inputs ns.length _ (Watched.erase watched) es
    rw [hstart, Watched.around, Shows.erase_attach, Shows.endState_attach]
    exact hbody.exists_isAccount (Nat.le_of_succ_le hlevel) s₀

/-- A line that is read, doubled and printed, and a variable that has no value. -/
def doublingText : String := "input n; n += n; print(n); print(u)"

def doublingTree : Node :=
  .program [.input (.str "n") (.of ⟨1, 1⟩),
    .evaluate (.update (.str "n") (.str "+") (.ident (.str "n") (.of ⟨1, 15⟩)) (.of ⟨1, 10⟩))
      (.of ⟨1, 10⟩),
    .print (.ident (.str "n") (.of ⟨1, 24⟩)) (.of ⟨1, 18⟩),
    .print (.ident (.str "u") (.of ⟨1, 34⟩)) (.of ⟨1, 28⟩)]

/-- The run reads one of two lines and fails; five events are traced at the second level. -/
theorem doublingText_trace_accounts :
    FrontEnd.parse .descent doublingText = .ok doublingTree ∧
    let s := State.initial ⟨["a", "b"], #[]⟩
    let run := runWithin ⟨2, .unlimited⟩ 1 walkingDepth doublingTree s
    let watched := Watched.runWithin ⟨2, .unlimited⟩ 1 walkingDepth doublingTree ⟨s, []⟩
    (endState run).trace.events.size = 5 ∧ Watched.erase watched = run ∧
      ∃ es, IsAccount ["a", "b"] 4 (endState watched).points.reverse run es := by
  have hparse : FrontEnd.parse .descent doublingText = .ok doublingTree := rfl
  refine ⟨hparse, rfl, ?_⟩
  exact trace_accounts_for_run hparse (Nat.le_refl 2) 1 walkingDepth ["a", "b"]

end Scriptling
