import Scriptling.Proofs.Equivalence

/-!
# Assignments that combine

As a statement, an assignment that combines a variable with a value is shorthand for the
assignment of the combination: both read the variable first, then evaluate the value, which may
change the variable, then combine the two and store the result. So the one may be written for
the other wherever statements stand, in as many places as one likes, and no run shows it but
for its trace.
-/
namespace Scriptling

/-- Lists of statements that differ at most in assignments that combine, some of which the second
list writes out. -/
inductive WritesOut : List Node → List Node → Prop where
  | nil : WritesOut [] []
  | same (n : Node) {ns ns' : List Node} : WritesOut ns ns' → WritesOut (n :: ns) (n :: ns')
  | update (name op : Json) (value : Node) (q m : Mark) {ns ns' : List Node} : WritesOut ns ns' →
    WritesOut (.evaluate (.update name op value q) m :: ns)
      (.assign name (.binary op (.ident name q) value) m :: ns')
  | block {bs bs' ns ns' : List Node} : WritesOut bs bs' → WritesOut ns ns' →
    WritesOut (.block bs :: ns) (.block bs' :: ns')
  | branch (condition : Node) (m : Mark) {ts ts' es es' ns ns' : List Node} : WritesOut ts ts' →
    WritesOut es es' → WritesOut ns ns' →
    WritesOut (.branch condition (.block ts) (.block es) m :: ns)
      (.branch condition (.block ts') (.block es') m :: ns')
  | branchThen (condition elseBlock : Node) (m : Mark) {ts ts' ns ns' : List Node} :
    WritesOut ts ts' → WritesOut ns ns' →
    WritesOut (.branch condition (.block ts) elseBlock m :: ns)
      (.branch condition (.block ts') elseBlock m :: ns')
  | branchElse (condition thenBlock : Node) (m : Mark) {es es' ns ns' : List Node} :
    WritesOut es es' → WritesOut ns ns' →
    WritesOut (.branch condition thenBlock (.block es) m :: ns)
      (.branch condition thenBlock (.block es') m :: ns')
  | loop (condition : Node) (m : Mark) {bs bs' ns ns' : List Node} : WritesOut bs bs' →
    WritesOut ns ns' →
    WritesOut (.loop condition (.block bs) m :: ns) (.loop condition (.block bs') m :: ns')

namespace Run.Equivalent

variable (settings : Settings) (steps : Nat)

/-- An assignment that combines does what the assignment of the combination does. -/
theorem exec_update (depth depth' : Nat) (name op : Json) (value : Node) (q m : Mark) :
    Equivalent (Scriptling.exec settings steps depth (.evaluate (.update name op value q) m))
      (Scriptling.exec settings steps depth'
        (.assign name (.binary op (.ident name q) value) m)) := by
  refine exec_of_add settings steps depth depth' ?_
  rintro k k' rfl rfl
  refine .bind (.record settings _ _) fun _ => .placing m ?_
  -- Written out, the value stands one level deeper.
  cases k' with
  | zero => exact fun _ _ _ => .tooDeep_right
  | succ k' =>
    simp only [Scriptling.eval, bind_assoc, pure_bind, bind_pure_unit]
    exact .bind (.lookup name q) fun _ => .bind (.eval settings k (k' + 1) value) fun _ =>
      .bind (.ofExcept _) fun _ => .bind (.setVariable name _) fun _ =>
      .record settings _ _

theorem inOrder_of_writesOut {ns ns' : List Node} (h : WritesOut ns ns') (depth depth' : Nat) :
    Equivalent (Scriptling.inOrder (Scriptling.exec settings steps depth) ns)
      (Scriptling.inOrder (Scriptling.exec settings steps depth') ns') := by
  induction h generalizing depth depth' with
  | nil => exact .pure ()
  | same n _ ih => exact .bind (.exec settings steps depth depth' n) fun _ => ih depth depth'
  | update name op value q m _ ih =>
    exact .bind (exec_update settings steps depth depth' name op value q m) fun _ => ih depth depth'
  | block _ _ ihb ih =>
    refine .bind (exec_of_add settings steps depth depth' ?_) fun _ => ih depth depth'
    rintro k k' rfl rfl
    exact exec_block settings steps (ihb k k')
  | branch condition m _ _ _ iht ihe ih =>
    refine .bind (exec_of_add settings steps depth depth' ?_) fun _ => ih depth depth'
    rintro k k' rfl rfl
    exact exec_branch settings steps condition m (iht k k') (ihe k k') rfl
  | branchThen condition elseBlock m _ _ iht ih =>
    refine .bind (exec_of_add settings steps depth depth' ?_) fun _ => ih depth depth'
    rintro k k' rfl rfl
    exact exec_branch settings steps condition m (iht k k')
      (.inBlock (.exec settings steps k k') elseBlock) rfl
  | branchElse condition thenBlock m _ _ ihe ih =>
    refine .bind (exec_of_add settings steps depth depth' ?_) fun _ => ih depth depth'
    rintro k k' rfl rfl
    exact exec_branch settings steps condition m
      (.inBlock (.exec settings steps k k') thenBlock) (ihe k k') rfl
  | loop condition m _ _ ihb ih =>
    refine .bind (exec_of_add settings steps depth depth' ?_) fun _ => ih depth depth'
    rintro k k' rfl rfl
    exact exec_loop settings steps condition m (ihb k k')

end Run.Equivalent

/-- Assignments that combine are shorthand. However many of a program's statements `x op= e` are
written out as `x = x op (e)`, in the same place and with the name where it stood, a run of the
program ends in the same way: with the same output, variables, input left, iterations and
error. This is so for all bounds on its loops and on its depth, unless the program or what is
written for it is nested too deeply. -/
theorem runWithin_of_writesOut (settings : Settings) (steps depth depth' : Nat)
    {ns ns' : List Node} (h : WritesOut ns ns') (s : State)
    (hfirst : ¬ IsNested (runWithin settings steps depth (.program ns) s))
    (hsecond : ¬ IsNested (runWithin settings steps depth' (.program ns') s)) :
    observed (runWithin settings steps depth (.program ns) s) =
      observed (runWithin settings steps depth' (.program ns') s) :=
  observed_runWithin (Run.Equivalent.inOrder_of_writesOut settings steps h depth depth') hfirst
    hsecond

/-- The statements `x = "a" while (true) {x += (x += "b") break} y += x`. -/
def shortStatements : List Node :=
  [.assign (.str "x") (.string "a") (.of ⟨1, 1⟩),
    .loop (.bool true) (.block
      [.evaluate (.update (.str "x") (.str "+")
        (.update (.str "x") (.str "+") (.string "b") (.of ⟨3, 8⟩)) (.of ⟨3, 3⟩)) (.of ⟨3, 3⟩),
        .leave (.of ⟨4, 3⟩)]) (.of ⟨2, 1⟩),
    .evaluate (.update (.str "y") (.str "+") (.ident (.str "x") (.of ⟨6, 6⟩)) (.of ⟨6, 1⟩))
      (.of ⟨6, 1⟩)]

/-- The same with two assignments written out. -/
def longStatements : List Node :=
  [.assign (.str "x") (.string "a") (.of ⟨1, 1⟩),
    .loop (.bool true) (.block
      [.assign (.str "x") (.binary (.str "+") (.ident (.str "x") (.of ⟨3, 3⟩))
        (.update (.str "x") (.str "+") (.string "b") (.of ⟨3, 8⟩))) (.of ⟨3, 3⟩),
        .leave (.of ⟨4, 3⟩)]) (.of ⟨2, 1⟩),
    .assign (.str "y") (.binary (.str "+") (.ident (.str "y") (.of ⟨6, 1⟩))
      (.ident (.str "x") (.of ⟨6, 6⟩))) (.of ⟨6, 1⟩)]

/-- What becomes of statements that have one line to read. -/
def runOf (depth : Nat) (ns : List Node) : EStateM.Result Stop State Unit :=
  runWithin ⟨1, .atMost 5⟩ 6 depth (.program ns) (.initial ⟨["left"], #[]⟩)

theorem shortStatements_written_out :
    WritesOut shortStatements longStatements ∧ ¬ IsNested (runOf 20 shortStatements) ∧
      ¬ IsNested (runOf 30 longStatements) ∧
      observed (runOf 20 shortStatements) = observed (runOf 30 longStatements) := by
  have h : WritesOut shortStatements longStatements :=
    .same _ (.loop _ _ (.update _ _ _ _ _ (.same _ .nil)) (.update _ _ _ _ _ .nil))
  have hfirst : ¬ IsNested (runOf 20 shortStatements) := by
    intro hnested
    cases hnested
  have hsecond : ¬ IsNested (runOf 30 longStatements) := by
    intro hnested
    cases hnested
  exact ⟨h, hfirst, hsecond, runWithin_of_writesOut _ _ _ _ h _ hfirst hsecond⟩

end Scriptling
