import Scriptling.Proofs.Termination

/-!
# Input that is not read

Lines that a run does not read have no influence on it. Two runs are compared of which the
second has more lines behind those of the first. They go on together until the first asks for
a line that it has not: there all its lines have been read, and the second has written what
the first has and can only add to it.
-/
namespace Scriptling

/-- A state with more lines to read. -/
def State.fed (lines : List String) (s : State) : State :=
  { s with pending := s.pending ++ lines }

theorem State.fed_recorded (lines : List String) (level : Nat) (e : Event) (s : State) :
    (s.recorded level e).fed lines = (s.fed lines).recorded level e := by
  unfold recorded
  split <;> rfl

/-- The end of a run, with more lines left to read. -/
def resultFed (lines : List String) :
    EStateM.Result Stop State Unit → EStateM.Result Stop State Unit
  | .ok a s => .ok a (s.fed lines)
  | .error e s => .error e (s.fed lines)

/-- Whether a run has ended since a line was asked for and none was left. -/
def EndsForInput (r : EStateM.Result Stop State Unit) : Prop :=
  ∃ name m, stop? r = some (.failure (.error ⟨.endOfInput name, m⟩))

theorem Stop.lacks_eq_lines_iff (e : Stop) :
    e.lacks = some .lines ↔ ∃ name m, e = .failure (.error ⟨.endOfInput name, m⟩) := by
  constructor
  · intro h
    unfold lacks at h
    split at h
    · cases h
    · exact ⟨_, _, rfl⟩
    · cases h
  · rintro ⟨name, m, rfl⟩
    rfl

/-- Two runs of which the second has more lines to read. -/
def Comparison.ofLines (lines : List String) : Comparison where
  Alike s t := t = s.fed lines
  shares _ := True
  scarce := some .lines
  Beyond s t := s.pending = [] ∧ s.output.toList <+: t.output.toList
  iterations h := by rw [h]; rfl
  value h _ := by rw [h]; rfl
  counted h := by rw [h]; rfl
  stored _ _ h := by rw [h]; rfl
  recorded level e h := by rw [h, State.fed_recorded]
  written _ h := by rw [h]; rfl
  read {s t line rest} h hs := by
    subst h
    refine ⟨rest ++ lines, ?_, rfl⟩
    rw [State.fed, hs, List.cons_append]
  unread _ _ hscarce := absurd rfl hscarce
  lacksLines {s t} h hs _ := by
    subst h
    exact ⟨hs, List.prefix_refl _⟩
  lacksSteps _ h := nomatch h
  onward h honward := ⟨h.1, h.2.trans honward.output⟩

namespace Comparison

variable {lines : List String}

theorem whole_ofLines (lines : List String) : (ofLines lines).Whole where
  started level h := by
    change _ = _ at h
    rw [h]
    rfl
  closed h := by
    change _ = _ at h
    rw [h]
    rfl
  size h := by
    change _ = _ at h
    rw [h]
    rfl
  shares _ := trivial
  traced h hbuffer := by
    change _ ∧ _ at h
    change _ ∧ _
    rwa [hbuffer]

theorem separates_ofLines (e : Stop) :
    (ofLines lines).Separates e ↔ ∃ name m, e = .failure (.error ⟨.endOfInput name, m⟩) := by
  rw [← Stop.lacks_eq_lines_iff]
  constructor
  · rintro ⟨_, ⟨⟩, h⟩
    exact h
  · intro h
    exact ⟨.lines, rfl, h⟩

/-- What it says of a run that another one with more lines is together with it. -/
theorem Together.eq_resultFed {r r' : EStateM.Result Stop State Unit}
    (h : (ofLines lines).Together r r') (hinput : ¬ EndsForInput r) : r' = resultFed lines r := by
  cases h with
  | ok hst =>
    cases hst
    rfl
  | error _ hst =>
    cases hst
    rfl
  | parted he _ =>
    obtain ⟨name, m, rfl⟩ := (separates_ofLines _).1 he
    exact absurd ⟨name, m, rfl⟩ hinput

theorem Together.beyond {r r' : EStateM.Result Stop State Unit}
    (h : (ofLines lines).Together r r') (hinput : EndsForInput r) :
    (endState r).pending = [] ∧ (endState r).output.toList <+: (endState r').output.toList := by
  obtain ⟨name, m, hstop⟩ := hinput
  cases h with
  | ok _ => cases hstop
  | error he _ =>
    cases hstop
    exact absurd ((separates_ofLines _).2 ⟨name, m, rfl⟩) he
  | parted _ hbeyond => exact hbeyond

end Comparison

theorem stop?_resultFed (lines : List String) (r : EStateM.Result Stop State Unit) :
    stop? (resultFed lines r) = stop? r := by
  cases r <;> rfl

section Runs

variable {settings : Settings} {depth : Nat} {program : Node} {s : State}
  {r : EStateM.Result Stop State Unit}

theorem together_fed (settings : Settings) (steps depth : Nat) (program : Node) (s : State)
    (lines : List String) : (Comparison.ofLines lines).Together
      (runWithin settings steps depth program s)
      (runWithin settings steps depth program (s.fed lines)) :=
  (Comparison.whole_ofLines lines).runWithin settings steps 0 depth program (fun _ => rfl) rfl

/-- Runs that end have enough steps in common. -/
theorem RunsTo.together_fed {lines : List String} {r' : EStateM.Result Stop State Unit}
    (h : RunsTo settings depth program s r)
    (h' : RunsTo settings depth program (s.fed lines) r') :
    (Comparison.ofLines lines).Together r r' := by
  obtain ⟨enough, hr⟩ := h.eventually
  obtain ⟨enough', hr'⟩ := h'.eventually
  rw [← hr _ (Nat.le_max_left enough enough'), ← hr' _ (Nat.le_max_right enough enough')]
  exact Scriptling.together_fed settings _ depth program s lines

/-- Lines that are not read make no difference but that they are left. -/
theorem RunsTo.fed (h : RunsTo settings depth program s r) (hinput : ¬ EndsForInput r)
    (lines : List String) :
    RunsTo settings depth program (s.fed lines) (resultFed lines r) := by
  obtain ⟨steps, rfl, hsettled⟩ := h
  have htogether := Scriptling.together_fed settings steps depth program s lines
  exact ⟨steps, htogether.eq_resultFed hinput, by rwa [stop?_resultFed]⟩

/-- Unread input has no influence. A run that ends otherwise than for lack of input ends just
so with more lines behind its own, which are then left after those that it left. A run that
ends for lack of input has read all its lines, and with more of them it writes what it wrote,
and perhaps more. -/
theorem unread_input_unseen (h : RunsTo settings depth program s r) (lines : List String) :
    (¬ EndsForInput r → ∀ r', RunsTo settings depth program (s.fed lines) r' ↔
      r' = resultFed lines r) ∧
    (EndsForInput r → (endState r).pending = [] ∧
      ∀ r', RunsTo settings depth program (s.fed lines) r' →
        (endState r).output.toList <+: (endState r').output.toList) := by
  constructor
  · intro hinput r'
    constructor
    · intro h'
      exact (h.together_fed h').eq_resultFed hinput
    · rintro rfl
      exact h.fed hinput lines
  · intro hinput
    constructor
    · obtain ⟨steps, rfl, -⟩ := h
      exact ((together_fed settings steps depth program s lines).beyond hinput).1
    · intro r' h'
      exact ((h.together_fed h').beyond hinput).2

end Runs

/-- Asks for lines until one is the letter `q`. -/
def askingTree : Node :=
  .program [.loop (.bool true)
    (.block [.print (.string "?") (.of ⟨2, 3⟩), .input (.str "x") (.of ⟨3, 3⟩),
      .branch (.binary (.str "==") (.ident (.str "x") (.of ⟨4, 6⟩)) (.string "q"))
        (.block [.leave (.of ⟨4, 13⟩)]) .absent (.of ⟨4, 3⟩)])
    (.of ⟨1, 1⟩)]

/-- With two lines the tree ends normally, with the first of them alone for lack of input. -/
theorem askingTree_unread :
    let run (I : List String) := runWithin ⟨0, .unlimited⟩ 3 walkingDepth askingTree
      (.initial ⟨I, #[]⟩)
    (∀ r', RunsTo ⟨0, .unlimited⟩ walkingDepth askingTree (.initial ⟨["a", "q", "b"], #[]⟩) r' ↔
      r' = resultFed ["b"] (run ["a", "q"])) ∧
    (EndsForInput (run ["a"]) ∧ (endState (run ["a"])).pending = [] ∧
      (endState (run ["a"])).output.toList <+: (endState (run ["a", "q"])).output.toList) := by
  intro run
  have hends : RunsTo ⟨0, .unlimited⟩ walkingDepth askingTree (.initial ⟨["a", "q"], #[]⟩)
      (run ["a", "q"]) := ⟨3, rfl, nofun⟩
  have hlacks : RunsTo ⟨0, .unlimited⟩ walkingDepth askingTree (.initial ⟨["a"], #[]⟩)
      (run ["a"]) := ⟨3, rfl, nofun⟩
  have hinput : EndsForInput (run ["a"]) := ⟨"x", .of ⟨3, 3⟩, rfl⟩
  obtain ⟨hread, hmore⟩ := (unread_input_unseen hlacks ["q"]).2 hinput
  refine ⟨(unread_input_unseen hends ["b"]).1 ?_, hinput, hread, hmore _ hends⟩
  rintro ⟨_, _, h⟩
  cases h

end Scriptling
