import Scriptling.Proofs.Lockstep
import Scriptling.Proofs.RunEndings

/-!
# Runs that end

The steps that loops are given are nothing but a bound. A run that has not used them up is the
same with more of them, so it makes sense to say that a run ends, and how, without naming a
number. A run with a limit on iterations always ends, and one step more than the limit has
iterations is enough for it: the limit is a budget for all loops together, and no statement is
repeated but in an iteration that is counted against it.
-/
namespace Scriptling

/-- Two runs from one state, of which the second has more steps. -/
def Comparison.ofSteps : Comparison where
  Alike s t := t = s
  shares _ := True
  scarce := some .steps
  Beyond _ _ := True
  iterations h := congrArg State.iterations h
  value h _ := by rw [h]
  counted h := congrArg State.counted h
  stored _ _ h := by rw [h]
  recorded level e h := congrArg (State.recorded level e) h
  written _ h := by rw [h]
  read {s t line rest} h hs := by
    subst h
    exact ⟨rest, hs, rfl⟩
  unread h hs _ := by rw [h, hs]
  lacksLines _ _ h := nomatch h
  lacksSteps _ _ := trivial
  onward _ _ := trivial

theorem Comparison.whole_ofSteps : ofSteps.Whole where
  started level h := congrArg (State.started level) h
  closed h := by
    change _ = _ at h
    rw [h]
    rfl
  size h := congrArg (fun s => s.env.size) h
  shares _ := trivial
  traced _ _ := trivial

section Steps

variable {settings : Settings} {steps depth : Nat} {program : Node} {s : State}

/-- A run that has enough steps is the same with more of them. -/
theorem runWithin_of_le {more : Nat} (hle : steps ≤ more)
    (h : stop? (runWithin settings steps depth program s) ≠ some .outOfSteps) :
    runWithin settings more depth program s = runWithin settings steps depth program s := by
  obtain ⟨extra, rfl⟩ := Nat.exists_eq_add_of_le hle
  have htogether := Comparison.whole_ofSteps.runWithin settings steps extra depth program
    (absurd rfl) (rfl : s = s)
  generalize runWithin settings steps depth program s = r at h htogether ⊢
  generalize runWithin settings (steps + extra) depth program s = r' at htogether ⊢
  cases htogether with
  | ok hst =>
    cases hst
    rfl
  | error _ hst =>
    cases hst
    rfl
  | parted hseparates _ =>
    obtain ⟨_, hscarce, hlacks⟩ := hseparates
    cases hscarce
    rw [Stop.eq_outOfSteps_of_lacks hlacks] at h
    exact absurd rfl h

/-- Whether a run ends in this way, if its loops are given enough steps. -/
def RunsTo (settings : Settings) (depth : Nat) (program : Node) (s : State)
    (r : EStateM.Result Stop State Unit) : Prop :=
  ∃ steps, runWithin settings steps depth program s = r ∧ stop? r ≠ some .outOfSteps

/-- A run that ends does so with every larger number of steps. -/
theorem RunsTo.eventually {r : EStateM.Result Stop State Unit}
    (h : RunsTo settings depth program s r) :
    ∃ enough, ∀ steps, enough ≤ steps → runWithin settings steps depth program s = r := by
  obtain ⟨enough, rfl, hsettled⟩ := h
  exact ⟨enough, fun steps hle => runWithin_of_le hle hsettled⟩

/-- With a limit there are enough steps for every loop. -/
theorem stop_limited (n : Int) (level depth : Nat) (program : Node) (s : State)
    (hsteps : n.toNat < steps) :
    stop? (runWithin ⟨level, .atMost n⟩ steps depth program s) = none ∨
      ∃ f, stop? (runWithin ⟨level, .atMost n⟩ steps depth program s) = some (.failure f) := by
  cases program with
  | program body =>
    cases hrun : runWithin ⟨level, .atMost n⟩ steps depth (.program body) s with
    | ok _ s' => exact .inl rfl
    | error e s' =>
      have henough : ∀ N ∈ (Limit.atMost n).most?, N < steps := by
        rintro _ ⟨⟩
        exact hsteps
      have hstops := stopsRun_of_runWithin henough hrun
      cases hstops with
      | outOfSteps hlimit => cases hlimit
      | _ => exact .inr ⟨_, rfl⟩
  | _ => exact .inr ⟨_, rfl⟩

end Steps

/-- With a limit on iterations every run ends, normally or by a failure, whatever the tree, the
limit, the lines to read and the depth. A number of steps above the limit makes no difference
to it. -/
theorem limited_run_ends (n : Int) (level depth : Nat) (program : Node) (s : State) :
    ∃ r, RunsTo ⟨level, .atMost n⟩ depth program s r ∧
      (stop? r = none ∨ ∃ f, stop? r = some (.failure f)) ∧
      ∀ steps, n.toNat < steps → runWithin ⟨level, .atMost n⟩ steps depth program s = r := by
  have hends := stop_limited n level depth program s (Nat.lt_succ_self n.toNat)
  have hsettled : stop? (runWithin ⟨level, .atMost n⟩ (n.toNat + 1) depth program s) ≠
      some .outOfSteps := by
    rcases hends with hnone | ⟨f, hf⟩
    · rw [hnone]
      exact nofun
    · rw [hf]
      exact nofun
  exact ⟨_, ⟨n.toNat + 1, rfl, hsettled⟩, hends, fun steps hlt => runWithin_of_le hlt hsettled⟩

end Scriptling
