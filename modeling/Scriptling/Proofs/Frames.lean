import Mathlib.Order.Defs.Unbundled
import Scriptling.Proofs.Actions
import Scriptling.Proofs.Mentions

/-!
# What statements leave alone

Whatever a statement does, it stores values in its targets only, it takes no value away, and
what it gives a first value it declares. An expression leaves input, output and the count of
iterations alone besides, and declares nothing. Both are relations between the states before
and after, and every action leads from a state to one that is so related to it.
-/
namespace Scriptling

/-- How a table of variables may change if values are stored in `targets` only, and first
values in `declared` only. -/
structure Env.Changes (targets declared : List String) (e e' : Env) : Prop where
  kept : ∀ x, x ∉ targets → e'.get? x = e.get? x
  bound : ∀ x, e.contains x = true → e'.contains x = true
  fresh : ∀ x, e.contains x = false → e'.contains x = true → x ∈ declared

namespace Env.Changes

variable {targets declared : List String} {e e' e'' : Env}

theorem refl (e : Env) : e.Changes targets declared e where
  kept _ _ := rfl
  bound _ h := h
  fresh x hnot hbound := by simp [hnot] at hbound

theorem trans (h : e.Changes targets declared e') (h' : e'.Changes targets declared e'') :
    e.Changes targets declared e'' where
  kept x hx := (h'.kept x hx).trans (h.kept x hx)
  bound x hx := h'.bound x (h.bound x hx)
  fresh x hnot hbound := by
    cases hmid : e'.contains x with
    | true => exact h.fresh x hnot hmid
    | false => exact h'.fresh x hmid hbound

/-- A value is stored in a target; the first one, if it is one to be declared. -/
theorem set {x : String} (hx : x ∈ targets) (hfirst : e.contains x = false → x ∈ declared)
    (v : Value) : e.Changes targets declared (e.set x v) where
  kept y hy := by
    have hne : y ≠ x := by
      rintro rfl
      exact hy hx
    exact get?_set_of_ne hne e v
  bound y hy := by
    by_cases hyx : y = x
    · simp [contains, hyx]
    · rwa [contains, get?_set_of_ne hyx]
  fresh y hnot hbound := by
    by_cases hyx : y = x
    · exact hyx ▸ hfirst (hyx ▸ hnot)
    · rw [contains, get?_set_of_ne hyx] at hbound
      simp [contains, hbound] at hnot

end Env.Changes

/-- What a statement may change of the variables. -/
def State.Touched (targets declared : List String) (s s' : State) : Prop :=
  s.env.Changes targets declared s'.env

/-- What an expression may change. -/
structure State.Evaluated (targets : List String) (s s' : State) : Prop where
  env : s.env.Changes targets [] s'.env
  buffer : s'.toBuffer = s.toBuffer
  iterations : s'.iterations = s.iterations

instance (targets declared : List String) : IsPreorder State (State.Touched targets declared) where
  refl s := .refl s.env
  trans _ _ _ h h' := Env.Changes.trans h h'

instance (targets : List String) : IsPreorder State (State.Evaluated targets) where
  refl s := ⟨.refl s.env, rfl, rfl⟩
  trans _ _ _ h h' :=
    ⟨h.env.trans h'.env, h'.buffer.trans h.buffer, h'.iterations.trans h.iterations⟩

namespace Run

theorem variableOf_of_some {name : Json} {x : String} (h : name.variableName? = some x)
    (s : State) : variableOf name s = .ok x s := by
  rw [variableOf, h]
  rfl

theorem variableOf_of_none {name : Json} (h : name.variableName? = none) (s : State) :
    variableOf name s = .error (.failure (.fault (.notAName name.kind))) s := by
  rw [variableOf, h]
  rfl

theorem lookup_of_ok {name : Json} {m : Mark} {s s' : State} {v : Value}
    (h : lookup name m s = .ok v s') :
    s' = s ∧ ∃ x, name.variableName? = some x ∧ s.env.get? x = some v := by
  cases hname : name.variableName? with
  | none =>
    rw [lookup, bind_of_error (variableOf_of_none hname s)] at h
    cases h
  | some x =>
    rw [lookup, bind_of_ok (variableOf_of_some hname s), bind_get] at h
    cases hx : s.env.get? x with
    | none =>
      rw [hx] at h
      cases h
    | some w =>
      rw [hx] at h
      cases h
      exact ⟨rfl, x, rfl, hx⟩

variable {R : State → State → Prop} {α β : Type}

theorem ofExcept_of_ok {r : Except Failure α} {s s' : State} {a : α}
    (h : ofExcept r s = .ok a s') : s' = s := by
  cases r with
  | ok b =>
    cases h
    rfl
  | error f => cases h

theorem endState_placing (m : Mark) (r : Run α) (s : State) :
    endState (placing m r s) = endState (r s) := by
  unfold placing
  rcases r s with ⟨a, s'⟩ | ⟨(e | f) | _ | _ | _, s'⟩ <;> rfl

theorem endState_leaves (body : Run Unit) (s : State) :
    endState (leaves body s) = endState (body s) := by
  unfold leaves
  rcases body s with ⟨a, s'⟩ | ⟨f | _ | _ | _, s'⟩ <;> rfl

/-- Whether an action leads from every state to one that stands in a relation to it. -/
def Leads (R : State → State → Prop) (action : Run α) : Prop :=
  ∀ s, R s (endState (action s))

namespace Leads

variable [IsPreorder State R]

/-- An action that leaves the state as it is. -/
theorem still {action : Run α} (h : ∀ s, endState (action s) = s) : action.Leads R := by
  intro s
  rw [h s]
  exact Std.Refl.refl s

theorem pure (a : α) : Leads R (pure a : Run α) := still fun _ => rfl

theorem throw (e : Stop) : Leads R (throw e : Run α) := still fun _ => rfl

theorem ofExcept (r : Except Failure α) : (ofExcept r).Leads R := by
  cases r with
  | ok a => exact .pure a
  | error f => exact .throw _

theorem lookup (name : Json) (m : Mark) : (lookup name m).Leads R := by
  refine still fun s => ?_
  cases hname : name.variableName? with
  | none =>
    rw [Run.lookup, bind_of_error (variableOf_of_none hname s)]
    rfl
  | some x =>
    rw [Run.lookup, bind_of_ok (variableOf_of_some hname s), bind_get]
    cases s.env.get? x <;> rfl

/-- A value is stored, or what should be a name is none. -/
theorem setVariable {name : Json} {v : Value} {s : State}
    (h : ∀ x, name.variableName? = some x → R s { s with env := s.env.set x v }) :
    R s (endState (setVariable name v s)) := by
  cases hname : name.variableName? with
  | none =>
    rw [Run.setVariable, bind_of_error (variableOf_of_none hname s)]
    exact Std.Refl.refl s
  | some x =>
    rw [Run.setVariable, bind_of_ok (variableOf_of_some hname s)]
    exact h x hname

omit [IsPreorder State R] in
theorem mono {R' : State → State → Prop} (hR : ∀ s s', R s s' → R' s s') {r : Run α}
    (h : r.Leads R) : r.Leads R' :=
  fun s => hR s _ (h s)

omit [IsPreorder State R] in
theorem placing {r : Run α} (m : Mark) (h : r.Leads R) : (placing m r).Leads R := by
  intro s
  rw [endState_placing]
  exact h s

omit [IsPreorder State R] in
theorem leaves {body : Run Unit} (h : body.Leads R) : (leaves body).Leads R := by
  intro s
  rw [endState_leaves]
  exact h s

/-- What comes after an action need only be right where that has ended well. -/
theorem after {r : Run α} {k : α → Run β} {s : State} (h : R s (endState (r s)))
    (hk : ∀ a s', r s = .ok a s' → R s s' → R s' (endState (k a s'))) :
    R s (endState ((r >>= k) s)) := by
  cases hr : r s with
  | ok a s' =>
    rw [hr] at h
    rw [bind_of_ok hr]
    exact IsTrans.trans _ _ _ h (hk a s' hr h)
  | error e s' =>
    rw [hr] at h
    rw [bind_of_error hr]
    exact h

theorem bind {r : Run α} {k : α → Run β} (h : r.Leads R) (hk : ∀ a, (k a).Leads R) :
    (r >>= k).Leads R :=
  fun s => after (h s) fun a s' _ _ => hk a s'

theorem repeatWhile {test : Run Bool} {body : Run Unit} (ht : test.Leads R) (hb : body.Leads R)
    (steps : Nat) : (repeatWhile test body steps).Leads R := by
  induction steps with
  | zero => exact .throw _
  | succ steps ih =>
    refine .bind ht fun b => ?_
    cases b with
    | false => exact .pure ()
    | true =>
      refine .bind (.leaves hb) fun left => ?_
      cases left with
      | false => exact ih
      | true => exact .pure ()

theorem inOrder {run : Node → Run Unit} {ns : List Node} (h : ∀ n ∈ ns, (run n).Leads R) :
    Leads R (inOrder run ns) := by
  induction ns with
  | nil => exact .pure ()
  | cons n ns ih =>
    obtain ⟨hn, hns⟩ := List.forall_mem_cons.1 h
    exact .bind hn fun _ => ih hns

theorem inBlock {run : Node → Run Unit} {n : Node} (h : ∀ child ∈ n.children, (run child).Leads R) :
    Leads R (inBlock run n) := by
  cases n with
  | block ns => exact .inOrder h
  | _ => exact .throw _

theorem record (settings : Settings) (e : Event)
    (h : ∀ s : State, R s { s with trace := s.trace.add e }) : (record settings e).Leads R := by
  unfold Run.record
  split
  · exact h
  · exact .pure ()

end Leads
end Run

section Frames

variable {targets declared : List String}

theorem leads_record (settings : Settings) (e : Event) :
    (Run.record settings e).Leads (State.Evaluated targets) :=
  .record settings e fun s => ⟨.refl s.env, rfl, rfl⟩

/-- An assignment inside of an expression stores a value in its variable, which has had one. -/
theorem leads_update (settings : Settings) (name op : Json) (m : Mark) {value : Run Value}
    (hvalue : value.Leads (State.Evaluated targets))
    (hname : ∀ x, name.variableName? = some x → x ∈ targets) :
    Run.Leads (State.Evaluated targets) (do
      let current ← Run.lookup name m
      let operand ← value
      let result ← Run.ofExcept (applyBinary op.display current operand)
      Run.setVariable name result
      Run.record settings (.updated name.display op.display result)
      return result) := by
  intro s
  refine Run.Leads.after (Run.Leads.lookup name m s) fun current s₀ hlookup _ => ?_
  obtain ⟨rfl, x, hx, hread⟩ := Run.lookup_of_ok hlookup
  refine Run.Leads.after (hvalue s₀) fun operand s₁ _ hevaluated => ?_
  have hbound : s₁.env.contains x = true :=
    hevaluated.env.bound x (by simp [Env.contains, hread])
  refine Run.Leads.after (Run.Leads.ofExcept _ s₁) fun result s₂ hresult _ => ?_
  obtain rfl := Run.ofExcept_of_ok hresult
  refine Run.Leads.after (Run.Leads.setVariable fun y hy => ?_) fun _ s₃ _ _ => ?_
  · obtain rfl : x = y := Option.some.inj (hx.symm.trans hy)
    exact ⟨.set (hname x hx) (by simp [hbound]) result, rfl, rfl⟩
  · exact Run.Leads.bind (leads_record settings _) (fun _ => .pure _) s₃

/-- An expression stores values in the targets inside of it, which have had values before, and
changes nothing else but the trace. -/
theorem leads_eval (settings : Settings) (depth : Nat) {node : Node}
    (h : node.targets ⊆ targets) :
    (eval settings depth node).Leads (State.Evaluated targets) := by
  induction depth generalizing node with
  | zero => exact .throw _
  | succ depth ih =>
    have inner : ∀ child ∈ node.children, (eval settings depth child).Leads
        (State.Evaluated targets) := fun child hc => ih (Node.targets_subset hc h)
    cases node with
    | number x => exact .pure _
    | string s => exact .pure _
    | bool b => exact .pure _
    | ident name m => exact .lookup name m
    | binary op left right =>
      exact .bind (inner left (by simp [Node.children])) fun a =>
        .bind (inner right (by simp [Node.children])) fun b => .ofExcept _
    | unary op operand =>
      exact .bind (inner operand (by simp [Node.children])) fun a => .ofExcept _
    | update name op value m =>
      exact leads_update settings name op m (inner value (by simp [Node.children]))
        fun x hx => h (Node.mem_targets hx rfl)
    | _ => exact .throw _

theorem leads_evalCondition (settings : Settings) (depth : Nat) (construct : String)
    {node : Node} (h : node.targets ⊆ targets) :
    (evalCondition settings depth construct node).Leads (State.Evaluated targets) := by
  refine .bind (leads_eval settings depth h) fun v =>
    .bind (leads_record settings _) fun _ => ?_
  cases v with
  | bool b => exact .pure b
  | _ => exact .throw _

/-- What an expression may change a statement may change. -/
theorem State.Evaluated.touched (s s' : State) (h : s.Evaluated targets s') :
    s.Touched targets declared s' where
  kept := h.env.kept
  bound := h.env.bound
  fresh x hnot hbound := absurd (h.env.fresh x hnot hbound) List.not_mem_nil

theorem Run.Leads.declare {name : Json} (v : Value)
    (h : ∀ x, name.variableName? = some x → x ∈ targets ∧ x ∈ declared) :
    (Run.setVariable name v).Leads (State.Touched targets declared) := by
  intro s
  refine setVariable fun x hx => ?_
  obtain ⟨ht, hd⟩ := h x hx
  exact Env.Changes.set ht (fun _ => hd) v

/-- An action that has nothing to do with the variables. -/
theorem Run.Leads.of_env {α : Type} {action : Run α} (h : ∀ s, (endState (action s)).env = s.env) :
    action.Leads (State.Touched targets declared) := by
  intro s
  rw [State.Touched, h s]
  exact .refl s.env

theorem env_readLine? (s : State) : (endState (Run.readLine? s)).env = s.env := by
  rw [Run.readLine?, bind_get]
  cases s.pending <;> rfl

theorem env_countIteration (settings : Settings) (s : State) :
    (endState (Run.countIteration settings s)).env = s.env := by
  rw [Run.countIteration_apply]
  cases settings.limit with
  | atMost n =>
    dsimp only
    split <;> rfl
  | _ => rfl

/-- A statement stores values in the targets inside of it, and first values in those that it
declares. -/
theorem leads_exec (settings : Settings) (steps depth : Nat) {node : Node}
    (ht : node.targets ⊆ targets) (hd : node.declared ⊆ declared) :
    (exec settings steps depth node).Leads (State.Touched targets declared) := by
  induction depth using Nat.strongRecOn generalizing node with
  | ind depth ih =>
    match depth with
    | 0 | 1 | 2 => exact .throw _
    | depth + 3 =>
      have inside : ∀ child ∈ node.children, child.targets ⊆ targets ∧ child.declared ⊆ declared :=
        fun child hc => ⟨Node.targets_subset hc ht, Node.declared_subset hc hd⟩
      have record : ∀ e, (Run.record settings e).Leads (State.Touched targets declared) :=
        fun e => .mono State.Evaluated.touched (leads_record settings e)
      have value : ∀ child ∈ node.children,
          (eval settings (depth + 1) child).Leads (State.Touched targets declared) :=
        fun child hc => .mono State.Evaluated.touched (leads_eval settings _ (inside child hc).1)
      have test : ∀ construct, ∀ child ∈ node.children,
          (evalCondition settings (depth + 1) construct child).Leads
            (State.Touched targets declared) :=
        fun construct child hc => .mono State.Evaluated.touched
          (leads_evalCondition settings _ construct (inside child hc).1)
      have block : ∀ child ∈ node.children,
          (inBlock (exec settings steps depth) child).Leads (State.Touched targets declared) := by
        intro child hc
        obtain ⟨htc, hdc⟩ := inside child hc
        exact .inBlock fun n hn => ih depth (by omega) (Node.targets_subset hn htc)
          (Node.declared_subset hn hdc)
      have own : node.isDeclaration = true → ∀ x, node.mention? = some x →
          x ∈ targets ∧ x ∈ declared := by
        intro hdecl x hx
        exact ⟨ht (Node.mem_targets hx (Node.isStore_of_isDeclaration hdecl)),
          hd (Node.mem_declared hx hdecl)⟩
      refine .bind (record _) fun _ => .placing node.mark ?_
      cases node with
      | print v m =>
        exact .bind (value v List.mem_cons_self) fun _ => .bind (record _) fun _ =>
          .of_env fun _ => rfl
      | input name m =>
        refine .bind (.of_env env_readLine?) fun line? => ?_
        cases line? with
        | some line => exact .bind (.declare _ (own rfl)) fun _ => record _
        | none => exact .throw _
      | assign name v m =>
        exact .bind (value v List.mem_cons_self) fun _ => .bind (.declare _ (own rfl)) fun _ =>
          record _
      | branch condition thenBlock elseBlock m =>
        refine .bind (test "if" condition List.mem_cons_self) fun c => ?_
        cases c with
        | true => exact block thenBlock (by simp [Node.children])
        | false =>
          simp only [Bool.false_eq_true, if_false]
          split
          · exact .pure ()
          · exact block elseBlock (by simp [Node.children])
      | loop condition body m =>
        exact .repeatWhile (test "while" condition List.mem_cons_self)
          (.bind (.of_env (env_countIteration settings)) fun _ =>
            block body (by simp [Node.children])) steps
      | leave m => exact .throw _
      | evaluate v m => exact .bind (value v List.mem_cons_self) fun _ => .pure ()
      | block ns =>
        exact .inOrder fun n hn => ih depth (by omega) (inside n hn).1 (inside n hn).2
      | _ => exact .throw _

end Frames
end Scriptling
