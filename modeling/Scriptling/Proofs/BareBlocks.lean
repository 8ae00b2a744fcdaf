import Scriptling.Proofs.Equivalence

/-!
# Bare blocks

A block that stands as a statement has no scope, no place and no effect of its own: it runs its
statements where it stands. So every such block can be opened, at all depths at once, and its
statements put in its place. What a `break` inside of it leaves is still the loop around it, and
an error inside of it passes through it without taking a place.
-/
namespace Scriptling

namespace Node

mutual

/-- The statements that a statement becomes when all bare blocks are opened. -/
def opened : Node → List Node
  | .program body => [.program (openedAll body)]
  | .block statements => openedAll statements
  | .branch condition thenBlock elseBlock m =>
    [.branch condition (openedInside thenBlock) (openedInside elseBlock) m]
  | .loop condition body m => [.loop condition (openedInside body) m]
  | n => [n]

/-- A block that belongs to a branch or to a loop stays, with what is inside of it opened. -/
def openedInside : Node → Node
  | .block statements => .block (openedAll statements)
  | n => n

def openedAll : List Node → List Node
  | [] => []
  | n :: rest => opened n ++ openedAll rest

end

/-- Whether a bare block stands among statements, at whatever depth. -/
inductive HasBareBlock : List Node → Prop where
  | here {ns bs : List Node} : .block bs ∈ ns → HasBareBlock ns
  | inside {ns : List Node} {n : Node} : n ∈ ns → HasBareBlock n.nested → HasBareBlock ns

theorem HasBareBlock.of_append {ns ns' : List Node} (h : HasBareBlock (ns ++ ns')) :
    HasBareBlock ns ∨ HasBareBlock ns' := by
  cases h with
  | here hmem => exact (List.mem_append.1 hmem).imp .here .here
  | inside hmem hn => exact (List.mem_append.1 hmem).imp (.inside · hn) (.inside · hn)

theorem HasBareBlock.of_singleton {n : Node} (hn : ∀ bs, n ≠ .block bs) (h : HasBareBlock [n]) :
    HasBareBlock n.nested := by
  cases h with
  | here hmem => exact absurd (List.mem_singleton.1 hmem).symm (hn _)
  | inside hmem h => rwa [List.mem_singleton.1 hmem] at h

theorem not_hasBareBlock_nil : ¬ HasBareBlock [] := by
  intro h
  cases h with
  | here hmem => cases hmem
  | inside hmem _ => cases hmem

/-- No bare block is left. -/
theorem not_hasBareBlock_openedAll (ns : List Node) : ¬ HasBareBlock (openedAll ns) := by
  induction ns using openedAll.induct (fun n => ¬ HasBareBlock n.opened)
    (fun n => ¬ HasBareBlock n.openedInside.statements) with
  | case1 body ih =>
    rw [opened]
    exact fun h => ih (h.of_singleton (by simp))
  | case2 statements ih => rwa [opened]
  | case3 condition thenBlock elseBlock m iht ihe =>
    rw [opened]
    exact fun h => (h.of_singleton (by simp)).of_append.elim iht ihe
  | case4 condition body m ih =>
    rw [opened]
    exact fun h => ih (h.of_singleton (by simp))
  | case5 n hprogram hblock hbranch hloop =>
    have hnested : n.nested = [] := by
      unfold nested
      split
      · exact (hprogram _ rfl).elim
      · exact (hblock _ rfl).elim
      · exact (hbranch _ _ _ _ rfl).elim
      · exact (hloop _ _ _ rfl).elim
      · rfl
    have hopened : n.opened = [n] := by rw [opened] <;> assumption
    intro h
    rw [hopened] at h
    have hinside := h.of_singleton hblock
    rw [hnested] at hinside
    exact not_hasBareBlock_nil hinside
  | case6 statements ih =>
    rw [openedInside]
    exact ih
  | case7 n hblock =>
    have hstatements : n.statements = [] := by
      unfold statements
      split
      · exact (hblock _ rfl).elim
      · rfl
    have hopened : n.openedInside = n := by rw [openedInside]; assumption
    rw [hopened, hstatements]
    exact not_hasBareBlock_nil
  | case8 => exact not_hasBareBlock_nil
  | case9 n rest ihn ih => exact fun h => h.of_append.elim ihn ih

theorem isAbsent_openedInside (n : Node) : n.openedInside.isAbsent = n.isAbsent := by
  cases n <;> rfl

end Node

open Node

theorem inOrder_append (run : Node → Run Unit) (ns ns' : List Node) :
    inOrder run (ns ++ ns') = inOrder run ns >>= fun _ => inOrder run ns' := by
  induction ns with
  | nil => rfl
  | cons n ns ih => simp only [List.cons_append, inOrder, ih, bind_assoc]

theorem inOrder_singleton (run : Node → Run Unit) (n : Node) : inOrder run [n] = run n := by
  simp only [inOrder, bind_pure_unit]

theorem Run.placing_unknown {α : Type} (action : Run α) : placing .unknown action = action := by
  funext s
  unfold placing
  split
  · rename_i e s' h
    rw [h, Error.placedAt, Mark.orElse_unknown]
  · rfl

namespace Run.Equivalent

variable (settings : Settings) (steps : Nat)

/-- Recording an event is not seen. -/
theorem record_bind {α : Type} (e : Event) {first second : Run α} (h : Equivalent first second) :
    Equivalent (Run.record settings e >>= fun _ => first) second := by
  intro s t hst
  have hrecord := Run.record_apply settings e s
  rw [bind_of_ok hrecord]
  apply h
  rw [State.world_recorded, hst]

/-- A bare block does what its statements do in its place. -/
theorem exec_block_left {depth : Nat} {ns : List Node} {second : Run Unit}
    (h : ∀ k, Equivalent (Scriptling.inOrder (Scriptling.exec settings steps k) ns) second) :
    Equivalent (Scriptling.exec settings steps depth (.block ns)) second := by
  match depth with
  | 0 | 1 | 2 => exact .tooDeep_left _
  | k + 3 =>
    apply record_bind
    show Equivalent (Run.placing .unknown _) second
    rw [placing_unknown]
    exact h k

/-- Statements do the same with all bare blocks opened. The bounds on the depth may differ, so
that the induction can go into a block on one side only. -/
theorem inOrder_openedAll (ns : List Node) : ∀ depth depth' : Nat,
    Equivalent (Scriptling.inOrder (Scriptling.exec settings steps depth) ns)
      (Scriptling.inOrder (Scriptling.exec settings steps depth') (openedAll ns)) := by
  induction ns using openedAll.induct
    (fun n => ∀ depth depth' : Nat, Equivalent (Scriptling.exec settings steps depth n)
      (Scriptling.inOrder (Scriptling.exec settings steps depth') n.opened))
    (fun n => ∀ depth depth' : Nat,
      Equivalent (Scriptling.inBlock (Scriptling.exec settings steps depth) n)
        (Scriptling.inBlock (Scriptling.exec settings steps depth') n.openedInside)) with
  | case1 body _ depth depth' =>
    rw [opened, inOrder_singleton]
    apply exec_of_add
    rintro k k' rfl rfl
    exact .bind (.record settings _ _) fun _ => .placing _ <| .throw _
  | case2 statements ih depth depth' =>
    rw [opened]
    exact exec_block_left settings steps fun k => ih k depth'
  | case3 condition thenBlock elseBlock m iht ihe depth depth' =>
    rw [opened, inOrder_singleton]
    apply exec_of_add
    rintro k k' rfl rfl
    exact exec_branch settings steps condition m (iht k k') (ihe k k')
      (isAbsent_openedInside elseBlock).symm
  | case4 condition body m ih depth depth' =>
    rw [opened, inOrder_singleton]
    apply exec_of_add
    rintro k k' rfl rfl
    exact exec_loop settings steps condition m (ih k k')
  | case5 n hprogram hblock hbranch hloop depth depth' =>
    have hopened : n.opened = [n] := by rw [opened] <;> assumption
    rw [hopened, inOrder_singleton]
    exact .exec settings steps depth depth' n
  | case6 statements ih depth depth' => exact ih depth depth'
  | case7 n hblock depth depth' =>
    have hopened : n.openedInside = n := by rw [openedInside]; assumption
    rw [hopened]
    exact .inBlock (.exec settings steps depth depth') n
  | case8 => exact fun _ _ => .pure ()
  | case9 n rest ihn ih =>
    intro depth depth'
    rw [openedAll, inOrder_append]
    exact .bind (ihn depth depth') fun _ => ih depth depth'

end Run.Equivalent

/-- Bare blocks are transparent. Opening all of them, at the top of a program and inside of its
branches and loops at whatever depth, leaves none, and a run of the program ends in the same way:
with the same output, variables, input left, iterations and error. This is so for all bounds on
its loops and on its depth, unless the program is nested too deeply with its blocks or without
them. -/
theorem bare_blocks_transparent (ns : List Node) :
    ¬ HasBareBlock (openedAll ns) ∧
      ∀ (settings : Settings) (steps depth depth' : Nat) (s : State),
        ¬ IsNested (runWithin settings steps depth (.program ns) s) →
        ¬ IsNested (runWithin settings steps depth' (.program (openedAll ns)) s) →
        observed (runWithin settings steps depth (.program ns) s) =
          observed (runWithin settings steps depth' (.program (openedAll ns)) s) := by
  constructor
  · exact not_hasBareBlock_openedAll ns
  · intro settings steps depth depth' s hfirst hsecond
    have h := Run.Equivalent.inOrder_openedAll settings steps ns depth depth'
    exact observed_runWithin h hfirst hsecond

/-- The statements `input x {} while (true) {{x += "b" {break} print(x)} print(y)}
if (true) {{{print(x - "c")}}}`. -/
def blockStatements : List Node :=
  [.input (.str "x") (.of ⟨1, 1⟩), .block [],
    .loop (.bool true) (.block
      [.block
        [.evaluate (.update (.str "x") (.str "+") (.string "b") (.of ⟨2, 17⟩)) (.of ⟨2, 17⟩),
          .block [.leave (.of ⟨2, 27⟩)], .print (.ident (.str "x") (.of ⟨2, 40⟩)) (.of ⟨2, 34⟩)],
        .print (.ident (.str "y") (.of ⟨2, 50⟩)) (.of ⟨2, 44⟩)]) (.of ⟨2, 1⟩),
    .branch (.bool true) (.block
      [.block [.block [.print (.binary (.str "-") (.ident (.str "x") (.of ⟨3, 20⟩)) (.string "c"))
        (.of ⟨3, 14⟩)]]]) .absent (.of ⟨3, 1⟩)]

/-- What becomes of statements that have two lines to read. -/
def runWithLines (depth : Nat) (ns : List Node) : EStateM.Result Stop State Unit :=
  runWithin ⟨4, .atMost 5⟩ 6 depth (.program ns) (.initial ⟨["a", "left"], #[]⟩)

/-- Inside of blocks, a `break` leaves the loop and the subtraction of texts ends the run, placed
at the statement that it stands in. -/
theorem blockStatements_transparent :
    HasBareBlock blockStatements ∧ ¬ HasBareBlock (openedAll blockStatements) ∧
      ¬ IsNested (runWithLines 30 blockStatements) ∧
      ¬ IsNested (runWithLines 20 (openedAll blockStatements)) ∧
      stop? (runWithLines 30 blockStatements) =
        some (.failure (.error ⟨.operands "-" "String" "String", .of ⟨3, 14⟩⟩)) ∧
      observed (runWithLines 30 blockStatements) =
        observed (runWithLines 20 (openedAll blockStatements)) := by
  have hbare : HasBareBlock blockStatements := .here (List.mem_cons_of_mem _ List.mem_cons_self)
  have hfirst : ¬ IsNested (runWithLines 30 blockStatements) := by
    intro hnested
    cases hnested
  have hsecond : ¬ IsNested (runWithLines 20 (openedAll blockStatements)) := by
    intro hnested
    cases hnested
  have h := bare_blocks_transparent blockStatements
  exact ⟨hbare, h.1, hfirst, hsecond, rfl, h.2 _ _ _ _ _ hfirst hsecond⟩

end Scriptling
