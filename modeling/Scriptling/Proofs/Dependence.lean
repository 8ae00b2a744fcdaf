import Scriptling.Proofs.Lockstep

/-!
# What statements depend on

A statement depends on no variable that it does not mention, and touches no other one. From two
states that differ in such variables only it does the same: it ends alike, reads and writes and
counts the same, and leaves its own variables with the same values.
-/
namespace Scriptling

/-- Whether two states differ at most in variables other than the given ones. -/
structure State.AgreesOn (xs : List String) (s t : State) : Prop where
  buffer : t.toBuffer = s.toBuffer
  iterations : t.iterations = s.iterations
  trace : t.trace = s.trace
  value : ∀ x ∈ xs, t.env.get? x = s.env.get? x

namespace State.AgreesOn

variable {xs : List String} {s t : State}

/-- A value is stored in both states. -/
theorem stored (h : s.AgreesOn xs t) (x : String) (v : Value) :
    AgreesOn xs { s with env := s.env.set x v } { t with env := t.env.set x v } where
  buffer := h.buffer
  iterations := h.iterations
  trace := h.trace
  value y hy := by
    by_cases hyx : y = x
    · rw [hyx, Env.get?_set_self, Env.get?_set_self]
    · rw [Env.get?_set_of_ne hyx, Env.get?_set_of_ne hyx]
      exact h.value y hy

theorem recorded (h : s.AgreesOn xs t) (level : Nat) (e : Event) :
    (s.recorded level e).AgreesOn xs (t.recorded level e) := by
  unfold State.recorded
  split
  · exact ⟨h.buffer, h.iterations, congrArg (Trace.add e) h.trace, h.value⟩
  · exact h

end State.AgreesOn

/-- Two runs that start with the same values of some variables. -/
def Comparison.ofVariables (xs : List String) : Comparison where
  Alike := State.AgreesOn xs
  shares x := x ∈ xs
  scarce := none
  Beyond _ _ := False
  iterations h := h.iterations
  value h hx := h.value _ hx
  counted h := ⟨h.buffer, congrArg (· + 1) h.iterations, h.trace, h.value⟩
  stored x v h := h.stored x v
  recorded level e h := h.recorded level e
  written line h := ⟨congrArg (fun b => b.write line) h.buffer, h.iterations, h.trace, h.value⟩
  read {s t line rest} h hs := by
    have hpending : t.pending = s.pending := congrArg Buffer.pending h.buffer
    have houtput : t.output = s.output := congrArg Buffer.output h.buffer
    refine ⟨rest, hpending.trans hs, ?_, h.iterations, h.trace, h.value⟩
    simp only [houtput]
  unread h hs _ := (congrArg Buffer.pending h.buffer).trans hs
  lacksLines _ _ h := nomatch h
  lacksSteps _ h := nomatch h
  onward h _ := h

/-- A statement touches and depends on the variables that it mentions only, however it ends.
Variables that are no targets in it keep their values or stay without one, none loses its
value, and one that gets a first value is declared in it; expressions neither write nor read
lines and count no iteration. Other variables than those mentioned have no influence on its
end, on what it reads, writes and counts, and on the values of those mentioned. -/
theorem exec_touches_mentioned (settings : Settings) (steps depth : Nat) (n : Node) (s : State) :
    s.env.Changes n.targets n.declared (endState (exec settings steps depth n s)).env ∧
    (∀ e, (endState (eval settings depth e s)).toBuffer = s.toBuffer ∧
      (endState (eval settings depth e s)).iterations = s.iterations) ∧
    ∀ t, s.AgreesOn n.mentioned t →
      stop? (exec settings steps depth n t) = stop? (exec settings steps depth n s) ∧
      (endState (exec settings steps depth n s)).AgreesOn n.mentioned
        (endState (exec settings steps depth n t)) := by
  refine ⟨leads_exec settings steps depth (List.Subset.refl _) (List.Subset.refl _) s,
    fun e => ?_, fun t hst => ?_⟩
  · have hevaluated := leads_eval settings depth (List.Subset.refl e.targets) s
    exact ⟨hevaluated.buffer, hevaluated.iterations⟩
  · have hstep : Lockstep (.ofVariables n.mentioned) (exec settings steps depth n)
        (exec settings steps depth n) :=
      .exec settings steps (fun _ => rfl) depth fun x hx => hx
    have hends := hstep.ends hst
    generalize exec settings steps depth n s = r at hends ⊢
    generalize exec settings steps depth n t = r' at hends ⊢
    cases hends with
    | ok hst' => exact ⟨rfl, hst'⟩
    | error _ hst' => exact ⟨rfl, hst'⟩
    | parted _ hfalse => exact hfalse.elim

/-- Adds a letter to `x` until `y` is to be written, which has no value. -/
def growingLoop : Node :=
  .loop (.bool true)
    (.block [.evaluate (.update (.str "x") (.str "+") (.string "a") (.of ⟨2, 3⟩)) (.of ⟨2, 3⟩),
      .branch (.binary (.str "==") (.ident (.str "x") (.of ⟨3, 6⟩)) (.string "aa"))
        (.block [.assign (.str "w") (.ident (.str "x") (.of ⟨4, 9⟩)) (.of ⟨4, 5⟩),
          .print (.ident (.str "y") (.of ⟨5, 11⟩)) (.of ⟨5, 5⟩)])
        .absent (.of ⟨3, 3⟩)])
    (.of ⟨1, 1⟩)

/-- The loop fails in its second iteration whether or not `z` has a value, and leaves that as
it is. -/
theorem growingLoop_touches :
    let start (rest : List (String × Value)) : State :=
      { State.initial ⟨[], #[]⟩ with env := ⟨("x", .string "") :: rest⟩ }
    let run (s : State) := exec ⟨0, .unlimited⟩ 2 walkingDepth growingLoop s
    (start []).AgreesOn growingLoop.mentioned (start [("z", .bool true)]) ∧
    stop? (run (start [("z", .bool true)])) = stop? (run (start [])) ∧
    stop? (run (start [])) =
      some (.failure (.error ⟨.undefinedVariable "y", .of ⟨5, 11⟩⟩)) ∧
    (endState (run (start []))).AgreesOn growingLoop.mentioned
      (endState (run (start [("z", .bool true)]))) ∧
    (start [("z", .bool true)]).env.Changes ["x", "w"] ["w"]
      (endState (run (start [("z", .bool true)]))).env := by
  intro start run
  have hagrees : (start []).AgreesOn growingLoop.mentioned (start [("z", .bool true)]) := by
    refine ⟨rfl, rfl, rfl, fun x hx => ?_⟩
    have hz : "z" ≠ x := by
      rintro rfl
      revert hx
      decide
    simp [start, Env.get?, Env.find?, hz]
  obtain ⟨hstop, hends⟩ :=
    (exec_touches_mentioned ⟨0, .unlimited⟩ 2 walkingDepth growingLoop (start [])).2.2 _ hagrees
  exact ⟨hagrees, hstop, rfl, hends,
    (exec_touches_mentioned ⟨0, .unlimited⟩ 2 walkingDepth growingLoop _).1⟩

end Scriptling
