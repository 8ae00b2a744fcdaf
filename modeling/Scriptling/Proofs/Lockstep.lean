import Scriptling.Proofs.Frames
import Scriptling.Proofs.TraceLevels

/-!
# Two runs in step

Two runs of one tree that start alike do the same, action by action. In which way the states
are alike is left open: nothing is asked of it but that every action keeps it. The second run
may have more than the first of one resource, steps for its loops or lines to read. Then the
first may end alone because it lacks it, and the second can only move on from there.
-/
namespace Scriptling

/-- What a run may have too little of. -/
inductive Resource where
  | steps
  | lines
deriving DecidableEq

namespace Stop

/-- What a run lacked that has stopped. -/
def lacks : Stop → Option Resource
  | .outOfSteps => some .steps
  | .failure (.error ⟨.endOfInput _, _⟩) => some .lines
  | _ => none

theorem lacks_placedAt (e : Error) (m : Mark) :
    lacks (.failure (.error (e.placedAt m))) = lacks (.failure (.error e)) := by
  obtain ⟨cause, mark⟩ := e
  cases cause <;> rfl

theorem eq_outOfSteps_of_lacks {e : Stop} (h : e.lacks = some .steps) : e = .outOfSteps := by
  unfold lacks at h
  split at h
  · rfl
  · cases h
  · cases h

theorem lacks_of_applyBinary {op : String} {a b : Value} {f : Failure}
    (h : applyBinary op a b = .error f) : lacks (.failure f) = none := by
  unfold applyBinary BinaryOperator.apply BinaryOperator.ofNumbers at h
  repeat' split at h
  all_goals
    cases h
    try rfl

theorem lacks_of_applyUnary {op : String} {a : Value} {f : Failure}
    (h : applyUnary op a = .error f) : lacks (.failure f) = none := by
  unfold applyUnary UnaryOperator.apply at h
  repeat' split at h
  all_goals
    cases h
    try rfl

theorem lacks_of_refusal {limit : Limit} {n : Nat} {f : Failure}
    (h : limit.refusal? n = some f) : lacks (.failure f) = none := by
  unfold Limit.refusal? at h
  repeat' split at h
  all_goals
    cases h
    try rfl

end Stop

/-- A way in which the states of two runs can be alike. -/
structure Comparison where
  Alike : State → State → Prop
  /-- The variables that have the same value in both. -/
  shares : String → Prop
  /-- What the second run has more of. -/
  scarce : Option Resource
  /-- How the second may stand to the first, when that has ended for lack of it. -/
  Beyond : State → State → Prop
  iterations : ∀ {s t}, Alike s t → t.iterations = s.iterations
  value : ∀ {s t x}, Alike s t → shares x → t.env.get? x = s.env.get? x
  counted : ∀ {s t}, Alike s t → Alike s.counted t.counted
  stored : ∀ {s t} (x : String) (v : Value), Alike s t →
    Alike { s with env := s.env.set x v } { t with env := t.env.set x v }
  recorded : ∀ {s t} (level : Nat) (e : Event), Alike s t →
    Alike (s.recorded level e) (t.recorded level e)
  written : ∀ {s t} (line : String), Alike s t →
    Alike { s with output := s.output.push line } { t with output := t.output.push line }
  read : ∀ {s t line rest}, Alike s t → s.pending = line :: rest →
    ∃ rest', t.pending = line :: rest' ∧
      Alike { s with pending := rest } { t with pending := rest' }
  unread : ∀ {s t}, Alike s t → s.pending = [] → scarce ≠ some .lines → t.pending = []
  lacksLines : ∀ {s t}, Alike s t → s.pending = [] → scarce = some .lines → Beyond s t
  lacksSteps : ∀ {s t}, Alike s t → scarce = some .steps → Beyond s t
  onward : ∀ {s t t'}, Beyond s t → t.Onward t' → Beyond s t'

namespace Comparison

variable (C : Comparison)

/-- Whether the first run stops for lack of what the second has more of. -/
def Separates (e : Stop) : Prop := ∃ r, C.scarce = some r ∧ e.lacks = some r

/-- How two runs end that have been in step. -/
inductive Together {α : Type} : EStateM.Result Stop State α → EStateM.Result Stop State α → Prop
  | ok {a : α} {s t : State} : C.Alike s t → Together (.ok a s) (.ok a t)
  | error {e : Stop} {s t : State} : ¬ C.Separates e → C.Alike s t →
    Together (.error e s) (.error e t)
  | parted {e : Stop} {s : State} {r : EStateM.Result Stop State α} : C.Separates e →
    C.Beyond s (endState r) → Together (.error e s) r

variable {C}

theorem not_separates_of_lacks {e : Stop} (h : e.lacks = none) : ¬ C.Separates e := by
  rintro ⟨r, -, hr⟩
  rw [h] at hr
  cases hr

theorem not_separates_of_abundant {e : Stop} {r : Resource} (hr : e.lacks = some r)
    (h : C.scarce ≠ some r) : ¬ C.Separates e := by
  rintro ⟨r', hscarce, hr'⟩
  rw [hr] at hr'
  cases hr'
  exact h hscarce

theorem separates_placedAt (e : Error) (m : Mark) :
    C.Separates (.failure (.error (e.placedAt m))) ↔ C.Separates (.failure (.error e)) := by
  simp only [Separates, Stop.lacks_placedAt]

end Comparison

/-- Whether two actions do the same from states that are alike, and the second moves on. -/
structure Lockstep (C : Comparison) {α : Type} (first second : Run α) : Prop where
  onward : second.Advances
  ends : ∀ {s t}, C.Alike s t → C.Together (first s) (second t)

namespace Lockstep

open Comparison

variable {C : Comparison} {α β : Type}

theorem pure (a : α) : Lockstep C (pure a : Run α) (pure a) where
  onward := .pure a
  ends h := .ok h

theorem throw {e : Stop} (he : ¬ C.Separates e) : Lockstep C (throw e : Run α) (throw e) where
  onward s := .refl s
  ends h := .error he h

theorem fault (f : Fault) : Lockstep C (Run.fault f : Run α) (Run.fault f) :=
  .throw (not_separates_of_lacks rfl)

theorem bind {first second : Run α} {k k' : α → Run β} (h : Lockstep C first second)
    (hk : ∀ a, Lockstep C (k a) (k' a)) : Lockstep C (first >>= k) (second >>= k') where
  onward := .bind h.onward fun a => (hk a).onward
  ends {s t} hst := by
    have hends := h.ends hst
    have hrest := Run.Advances.next (fun a => (hk a).onward) second t
    generalize hf : first s = f at hends
    generalize hg : second t = g at hends hrest
    cases hends with
    | ok hst' =>
      rw [bind_of_ok hf, bind_of_ok hg]
      exact (hk _).ends hst'
    | error he hst' =>
      rw [bind_of_error hf, bind_of_error hg]
      exact .error he hst'
    | parted he hbeyond =>
      rw [bind_of_error hf]
      exact .parted he (C.onward hbeyond hrest)

/-- A change of the state that both runs make. -/
theorem modify {f : State → State} (honward : ∀ s : State, s.Onward (f s))
    (h : ∀ {s t}, C.Alike s t → C.Alike (f s) (f t)) :
    Lockstep C (modify f : Run Unit) (modify f) where
  onward s := honward s
  ends hst := .ok (h hst)

theorem record (settings : Settings) (e : Event) :
    Lockstep C (Run.record settings e) (Run.record settings e) where
  onward s := (Run.Quiet.record settings e s).onward
  ends hst := by
    rw [Run.record_apply, Run.record_apply]
    exact .ok (C.recorded _ e hst)

theorem write (line : String) : Lockstep C (Run.write line) (Run.write line) where
  onward s := (Run.Quiet.write line s).onward
  ends hst := .ok (C.written line hst)

theorem ofExcept {r : Except Failure α} (h : ∀ f, r = .error f → (Stop.failure f).lacks = none) :
    Lockstep C (Run.ofExcept r) (Run.ofExcept r) := by
  cases r with
  | ok a => exact .pure a
  | error f => exact .throw (not_separates_of_lacks (h f rfl))

theorem variableOf (name : Json) : Lockstep C (Run.variableOf name) (Run.variableOf name) := by
  unfold Run.variableOf
  split
  · exact .pure _
  · exact .fault _

theorem setVariable (name : Json) (v : Value) :
    Lockstep C (Run.setVariable name v) (Run.setVariable name v) :=
  .bind (.variableOf name) fun x => .modify (fun _ => .of_eq rfl rfl) (C.stored x v)

/-- A variable is read that has the same value in both runs. -/
theorem lookup {name : Json} (m : Mark) (h : ∀ x, name.variableName? = some x → C.shares x) :
    Lockstep C (Run.lookup name m) (Run.lookup name m) where
  onward s := (Run.Quiet.lookup name m s).onward
  ends {s t} hst := by
    cases hname : name.variableName? with
    | none =>
      rw [Run.lookup, bind_of_error (Run.variableOf_of_none hname s),
        bind_of_error (Run.variableOf_of_none hname t)]
      exact .error (not_separates_of_lacks rfl) hst
    | some x =>
      rw [Run.lookup, bind_of_ok (Run.variableOf_of_some hname s),
        bind_of_ok (Run.variableOf_of_some hname t), bind_get, bind_get, C.value hst (h x hname)]
      cases s.env.get? x with
      | some v => exact .ok hst
      | none => exact .error (not_separates_of_lacks rfl) hst

theorem countIteration (settings : Settings) :
    Lockstep C (Run.countIteration settings) (Run.countIteration settings) where
  onward s := by
    rw [Run.countIteration_refusal]
    cases settings.limit.refusal? s.counted.iterations <;> exact s.onward_counted
  ends {s t} hst := by
    have hcounted := C.counted hst
    rw [Run.countIteration_refusal, Run.countIteration_refusal, C.iterations hcounted]
    cases hrefusal : settings.limit.refusal? s.counted.iterations with
    | none => exact .ok hcounted
    | some f => exact .error (not_separates_of_lacks (Stop.lacks_of_refusal hrefusal)) hcounted

/-- A line is read, or an error tells that there is none. -/
theorem input (x : String) {k k' : String → Run Unit} (h : ∀ line, Lockstep C (k line) (k' line)) :
    Lockstep C
      (do
        match ← Run.readLine? with
        | some line => k line
        | none => Run.fail (.endOfInput x))
      (do
        match ← Run.readLine? with
        | some line => k' line
        | none => Run.fail (.endOfInput x)) := by
  have honward : Run.Advances (do
      match ← Run.readLine? with
      | some line => k' line
      | none => Run.fail (.endOfInput x)) := by
    refine .bind (fun s => (Run.Quiet.readLine? s).onward) fun line? => ?_
    cases line? with
    | some line => exact (h line).onward
    | none => exact fun s => .refl s
  refine ⟨honward, fun {s t} hst => ?_⟩
  cases hs : s.pending with
  | cons line rest =>
    obtain ⟨rest', ht, hst'⟩ := C.read hst hs
    rw [bind_of_ok (Run.readLine?_cons hs), bind_of_ok (Run.readLine?_cons ht)]
    exact (h line).ends hst'
  | nil =>
    rw [bind_of_ok (Run.readLine?_nil hs)]
    by_cases hscarce : C.scarce = some .lines
    · -- The second run may have a line that the first has not.
      exact .parted ⟨.lines, hscarce, rfl⟩ (C.onward (C.lacksLines hst hs hscarce) (honward t))
    · rw [bind_of_ok (Run.readLine?_nil (C.unread hst hs hscarce))]
      exact .error (not_separates_of_abundant rfl hscarce) hst

theorem placing (m : Mark) {first second : Run α} (h : Lockstep C first second) :
    Lockstep C (Run.placing m first) (Run.placing m second) where
  onward s := by
    rw [Run.endState_placing]
    exact h.onward s
  ends {s t} hst := by
    have hends := h.ends hst
    have hend := Run.endState_placing m second t
    unfold Run.placing at hend ⊢
    generalize first s = f at hends
    generalize second t = g at hends hend ⊢
    cases hends with
    | ok hst' => exact .ok hst'
    | @error e s' t' he hst' =>
      rcases e with (e | f) | _ | _ | _
      · exact .error (mt (separates_placedAt e m).1 he) hst'
      all_goals exact .error he hst'
    | @parted e s' _ he hbeyond =>
      rw [← hend] at hbeyond
      rcases e with (e | f) | _ | _ | _
      · exact .parted ((separates_placedAt e m).2 he) hbeyond
      all_goals exact .parted he hbeyond

theorem leaves {first second : Run Unit} (h : Lockstep C first second) :
    Lockstep C (Run.leaves first) (Run.leaves second) where
  onward s := by
    rw [Run.endState_leaves]
    exact h.onward s
  ends {s t} hst := by
    have hends := h.ends hst
    have hend := Run.endState_leaves second t
    unfold Run.leaves at hend ⊢
    generalize first s = f at hends
    generalize second t = g at hends hend ⊢
    cases hends with
    | ok hst' => exact .ok hst'
    | @error e s' t' he hst' =>
      rcases e with f | _ | _ | _
      · exact .error he hst'
      · exact .ok hst'
      all_goals exact .error he hst'
    | @parted e s' _ he hbeyond =>
      rw [← hend] at hbeyond
      rcases e with f | _ | _ | _
      · exact .parted he hbeyond
      · exact absurd he (not_separates_of_lacks rfl)
      all_goals exact .parted he hbeyond

/-- The second loop has more steps left, if steps are what the first may lack. -/
theorem repeatWhile {test test' : Run Bool} {body body' : Run Unit} (ht : Lockstep C test test')
    (hb : Lockstep C body body') (steps : Nat) {extra : Nat}
    (hextra : C.scarce ≠ some .steps → extra = 0) :
    Lockstep C (Run.repeatWhile test body steps) (Run.repeatWhile test' body' (steps + extra)) := by
  induction steps with
  | zero =>
    have honward := Run.Advances.repeatWhile ht.onward hb.leaves.onward
    refine ⟨honward _, fun {s t} hst => ?_⟩
    by_cases hscarce : C.scarce = some .steps
    · exact .parted ⟨.steps, hscarce, rfl⟩ (C.onward (C.lacksSteps hst hscarce) (honward _ t))
    · rw [hextra hscarce]
      exact .error (not_separates_of_abundant rfl hscarce) hst
  | succ steps ih =>
    rw [Nat.succ_add]
    refine .bind ht fun b => ?_
    cases b with
    | false => exact .pure ()
    | true =>
      refine .bind hb.leaves fun left => ?_
      cases left with
      | false => exact ih
      | true => exact .pure ()

theorem inOrder {run run' : Node → Run Unit} {ns : List Node}
    (h : ∀ n ∈ ns, Lockstep C (run n) (run' n)) :
    Lockstep C (inOrder run ns) (inOrder run' ns) := by
  induction ns with
  | nil => exact .pure ()
  | cons n ns ih =>
    obtain ⟨hn, hns⟩ := List.forall_mem_cons.1 h
    exact .bind hn fun _ => ih hns

theorem inBlock {run run' : Node → Run Unit} {n : Node}
    (h : ∀ child ∈ n.children, Lockstep C (run child) (run' child)) :
    Lockstep C (inBlock run n) (inBlock run' n) := by
  cases n with
  | block ns => exact .inOrder h
  | _ => exact .fault _

/-- An expression does the same where its variables have the same values. -/
theorem eval (settings : Settings) (depth : Nat) {node : Node}
    (h : ∀ x ∈ node.mentioned, C.shares x) :
    Lockstep C (eval settings depth node) (eval settings depth node) := by
  induction depth generalizing node with
  | zero => exact .throw (not_separates_of_lacks rfl)
  | succ depth ih =>
    have inner : ∀ child ∈ node.children,
        Lockstep C (Scriptling.eval settings depth child) (Scriptling.eval settings depth child) :=
      fun child hc => ih fun x hx => h x (Node.mentioned_subset hc hx)
    have own : ∀ x, node.mention? = some x → C.shares x :=
      fun x hx => h x (Node.mem_mentioned hx)
    cases node with
    | number x => exact .pure _
    | string s => exact .pure _
    | bool b => exact .pure _
    | ident name m => exact .lookup m own
    | binary op left right =>
      exact .bind (inner left (by simp [Node.children])) fun a =>
        .bind (inner right (by simp [Node.children])) fun b =>
        .ofExcept fun _ => Stop.lacks_of_applyBinary
    | unary op operand =>
      exact .bind (inner operand (by simp [Node.children])) fun a =>
        .ofExcept fun _ => Stop.lacks_of_applyUnary
    | update name op value m =>
      exact .bind (.lookup m own) fun _ => .bind (inner value (by simp [Node.children])) fun _ =>
        .bind (.ofExcept fun _ => Stop.lacks_of_applyBinary) fun _ =>
        .bind (.setVariable name _) fun _ => .bind (.record settings _) fun _ => .pure _
    | _ => exact .fault _

theorem evalCondition (settings : Settings) (depth : Nat) (construct : String) {node : Node}
    (h : ∀ x ∈ node.mentioned, C.shares x) :
    Lockstep C (evalCondition settings depth construct node)
      (evalCondition settings depth construct node) := by
  refine .bind (.eval settings depth h) fun v => .bind (.record settings _) fun _ => ?_
  cases v with
  | bool b => exact .pure b
  | _ => exact .throw (not_separates_of_lacks rfl)

/-- A statement does the same where its variables have the same values. -/
theorem exec (settings : Settings) (steps : Nat) {extra : Nat}
    (hextra : C.scarce ≠ some .steps → extra = 0) (depth : Nat) {node : Node}
    (h : ∀ x ∈ node.mentioned, C.shares x) :
    Lockstep C (exec settings steps depth node) (exec settings (steps + extra) depth node) := by
  induction depth using Nat.strongRecOn generalizing node with
  | ind depth ih =>
    match depth with
    | 0 | 1 | 2 => exact .throw (not_separates_of_lacks rfl)
    | depth + 3 =>
      have inside : ∀ child ∈ node.children, ∀ x ∈ child.mentioned, C.shares x :=
        fun child hc x hx => h x (Node.mentioned_subset hc hx)
      have block : ∀ child ∈ node.children,
          Lockstep C (Scriptling.inBlock (Scriptling.exec settings steps depth) child)
            (Scriptling.inBlock (Scriptling.exec settings (steps + extra) depth) child) :=
        fun child hc => .inBlock fun n hn => ih depth (by omega)
          fun x hx => inside child hc x (Node.mentioned_subset hn hx)
      refine .bind (.record settings _) fun _ => .placing node.mark ?_
      cases node with
      | print value m =>
        exact .bind (.eval settings _ (inside value List.mem_cons_self)) fun _ =>
          .bind (.record settings _) fun _ => .write _
      | input name m =>
        exact .input name.display fun line => .bind (.setVariable name _) fun _ =>
          .record settings _
      | assign name value m =>
        exact .bind (.eval settings _ (inside value List.mem_cons_self)) fun _ =>
          .bind (.setVariable name _) fun _ => .record settings _
      | branch condition thenBlock elseBlock m =>
        refine .bind (.evalCondition settings _ "if" (inside condition List.mem_cons_self))
          fun c => ?_
        cases c with
        | true => exact block thenBlock (by simp [Node.children])
        | false =>
          simp only [Bool.false_eq_true, if_false]
          split
          · exact .pure ()
          · exact block elseBlock (by simp [Node.children])
      | loop condition body m =>
        exact .repeatWhile (.evalCondition settings _ "while" (inside condition List.mem_cons_self))
          (.bind (.countIteration settings) fun _ => block body (by simp [Node.children]))
          steps hextra
      | leave m => exact .throw (not_separates_of_lacks rfl)
      | evaluate value m =>
        exact .bind (.eval settings _ (inside value List.mem_cons_self)) fun _ => .pure ()
      | block ns => exact .inOrder fun n hn => ih depth (by omega) (inside n hn)
      | _ => exact .fault _

end Lockstep

namespace Comparison

/-- What it takes to compare runs from their beginning to their end. -/
structure Whole (C : Comparison) : Prop where
  started : ∀ {s t} (level : Nat), C.Alike s t → C.Alike (s.started level) (t.started level)
  closed : ∀ {s t}, C.Alike s t →
    C.Alike { s with trace := s.trace.close } { t with trace := t.trace.close }
  size : ∀ {s t}, C.Alike s t → t.env.size = s.env.size
  shares : ∀ x, C.shares x
  traced : ∀ {s s' t}, C.Beyond s t → s'.toBuffer = s.toBuffer → C.Beyond s' t

namespace Whole

variable {C : Comparison} (W : C.Whole)
include W

theorem concluded {s t : State} (level : Nat) (e : Event) (h : C.Alike s t) :
    C.Alike (s.concluded level e) (t.concluded level e) :=
  W.closed (C.recorded level e h)

/-- How two runs end is seen from how their statements do. -/
theorem conclude (settings : Settings) {first second : Run Unit} {s t : State}
    (h : C.Together (first s) (second t)) :
    C.Together (conclude settings first s) (conclude settings second t) := by
  have hround := Run.Rounds.conclude settings
  have hbuffer : (endState (Scriptling.conclude settings first s)).toBuffer =
      (endState (first s)).toBuffer := by
    rw [hround.ending]
    exact hround.buffer _ s
  have honward : (endState (second t)).Onward
      (endState (Scriptling.conclude settings second t)) := by
    rw [hround.ending]
    exact .of_eq (hround.buffer _ t) (hround.iterations _ t)
  rw [conclude_apply] at hbuffer honward ⊢
  rw [conclude_apply]
  generalize first s = f at h hbuffer ⊢
  generalize second t = g at h honward ⊢
  cases h with
  | @ok _ s' t' hst =>
    dsimp only
    rw [W.size hst]
    exact .ok (W.concluded _ _ hst)
  | @error e s' t' he hst =>
    rcases e with (e | f) | _ | _ | _
    · exact .error he (W.concluded _ _ hst)
    · exact .error he (W.closed hst)
    · exact .error (not_separates_of_lacks rfl) (W.concluded _ _ hst)
    · exact .error (not_separates_of_lacks rfl) (W.concluded _ _ hst)
    · exact .error he (W.closed hst)
  | @parted e s' _ he hbeyond =>
    have hends := C.onward hbeyond honward
    rcases e with (e | f) | _ | _ | _
    · exact .parted he (W.traced hends hbuffer)
    · exact absurd he (not_separates_of_lacks rfl)
    · exact absurd he (not_separates_of_lacks rfl)
    · exact absurd he (not_separates_of_lacks rfl)
    · exact .parted he (W.traced hends hbuffer)

/-- Two runs of one program stay together from beginning to end. -/
theorem runWithin (settings : Settings) (steps extra depth : Nat) (program : Node)
    (hextra : C.scarce ≠ some .steps → extra = 0) {s t : State} (h : C.Alike s t) :
    C.Together (runWithin settings steps depth program s)
      (runWithin settings (steps + extra) depth program t) := by
  have hstart := W.started settings.level h
  cases program with
  | program body =>
    have hbody : Lockstep C (inOrder (exec settings steps depth) body)
        (inOrder (exec settings (steps + extra) depth) body) :=
      .inOrder fun n _ => .exec settings steps hextra depth fun x _ => W.shares x
    have hrecord := Run.record_apply settings (.started body.length)
    change C.Together ((do
        Run.record settings (.started body.length)
        Scriptling.conclude settings (inOrder (exec settings steps depth) body))
        (s.started settings.level)) ((do
        Run.record settings (.started body.length)
        Scriptling.conclude settings (inOrder (exec settings (steps + extra) depth) body))
        (t.started settings.level))
    rw [bind_of_ok (hrecord _), bind_of_ok (hrecord _)]
    exact W.conclude settings (hbody.ends (C.recorded _ _ hstart))
  | loop condition body m => exact .error (not_separates_of_lacks rfl) hstart
  | _ => exact .error (not_separates_of_lacks rfl) hstart

end Whole
end Comparison
end Scriptling
