import Scriptling.Proofs.Outline

/-!
# Surveys

A survey looks through trees from left to right for the first thing of some kind.
What it would find in all the trees that the machine holds, in the order of the
text, is kept track of by every step: a step adds what the terminal brings, and
building trees out of trees loses nothing. Two surveys are of use: the first number
that is out of range, and the first `break` without a loop.
-/
namespace Scriptling.ShiftReduce

/-- The left operand of an operator that waits. -/
def Pending.left? : Pending → Option Grown
  | .binary _ _ left | .power left => some left
  | _ => none

/-- Whether an operand has been read that an operator may follow. -/
def Control.hasOperand : Control → Bool
  | .operator .. => true
  | _ => false

/-- What is looked for in expressions, in statements and in blocks. The flag tells
whether a loop is around. The laws say that what is found in a tree is what is found
first in its parts. -/
structure Survey (ε : Type) where
  expr : Grown → Option ε
  stmt : Bool → Grown → Option ε
  block : Bool → Grown → Option ε
  /-- What is found at a `break`. -/
  leave : Bool → Position → Option ε
  expr_ident : ∀ x p, expr (.leaf (.ident (.str x) (.of p))) = none
  expr_enclosed : ∀ g, expr (.enclosed g) = expr g
  expr_combine : ∀ (p : Pending) g, expr (p.combine g) = (p.left?.bind expr).or (expr g)
  stmt_print : ∀ b p v, stmt b (.above (.print v.node (.of p)) [v]) = expr v
  stmt_assign : ∀ b x p v, stmt b (.above (.assign (.str x) v.node (.of p)) [v]) = expr v
  stmt_evaluate : ∀ b p v, stmt b (.above (.evaluate v.node (.of p)) [v]) = expr v
  stmt_input : ∀ b x p, stmt b (.leaf (.input (.str x) (.of p))) = none
  stmt_leave : ∀ b p, stmt b (.leaf (.leave (.of p))) = leave b p
  stmt_block : ∀ b gs, stmt b (.above (.block (gs.map (·.node))) gs) = gs.findSome? (stmt b)
  block_block : ∀ b gs, block b (.above (.block (gs.map (·.node))) gs) = gs.findSome? (stmt b)
  stmt_branch : ∀ b c t p, stmt b (Machine.branchOf c t none p) = (expr c).or (block b t)
  stmt_branchElse : ∀ b c t p gs, let blk := Grown.above (.block (gs.map (·.node))) gs
    stmt b (Machine.branchOf c t (some blk) p) = ((expr c).or (block b t)).or (block b blk)
  stmt_loop : ∀ b c p blk, stmt b (.above (.loop c.node blk.node (.of p)) [c, blk]) =
    (expr c).or (block true blk)

variable {ε : Type} (S : Survey ε)

namespace Survey

/-- What is found in what waits, the innermost of which stands first. -/
def pending : List Pending → Option ε
  | [] => none
  | p :: rest => (pending rest).or (p.left?.bind S.expr)

/-- What is found in statements, the last of which stands first. -/
def stmts (b : Bool) (ds : List Grown) : Option ε :=
  ds.reverse.findSome? (S.stmt b)

/-- What is found in what stands before a block and belongs with it. -/
def opening (b : Bool) : Opening → Option ε
  | .bare => none
  | .thenBlock c _ | .body c _ => S.expr c
  | .elseBlock c t _ => (S.expr c).or (S.block b t)

/-- What is found before the innermost block. -/
def blocks : List (Opening × List Grown) → Option ε
  | [] => none
  | (op, before) :: outer =>
    ((blocks outer).or (S.stmts (looped outer) before)).or (S.opening (looped outer) op)

def control (b : Bool) : Control → Option ε
  | .boundary _ | .beforeParen _ | .beforeName _ => none
  | .afterThen c t _ => (S.expr c).or (S.block b t)
  | .beforeBrace op => S.opening b op
  | .operand _ waiting => S.pending waiting
  | .operator _ waiting g _ => (S.pending waiting).or (S.expr g)

/-- What is found in the statements that have been read. -/
def done (m : Machine) : Option ε :=
  (S.blocks m.blocks).or (S.stmts m.inLoop m.done)

/-- What is found in all that the machine holds. -/
def machine (m : Machine) : Option ε :=
  (S.done m).or (S.control m.inLoop m.control)

/-- What a terminal brings. -/
def occurrence (b : Bool) (o : Occurrence) : Option ε :=
  if o.terminal = .leave then S.leave b o.position else o.operand.bind S.expr

/-- A name that may yet turn out to be assigned to holds nothing that is looked for,
and nothing waits for a name that begins a statement. -/
def Settled (m : Machine) : Prop :=
  ∀ head waiting g ended, m.control = .operator head waiting g ended →
    (ended ≠ .closed → S.expr g = none) ∧ ∀ x p, ended = .firstName x p → waiting = []

end Survey

/-- What every lexeme and every token is to the machine. -/
structure Occurrence.Regular (o : Occurrence) : Prop where
  operand : o.operand.isSome = o.terminal.isOperand
  ident : o.terminal = .ident → o.operand = some (.leaf (.ident (.str o.text) (.of o.position)))

namespace Survey

variable {bs : List (Opening × List Grown)} {ds : List Grown} {m m' : Machine} {head : Head}
  {waiting : List Pending} {g : Grown} {ended : Ended} {o : Occurrence}

theorem stmts_cons (b : Bool) (d : Grown) (ds : List Grown) :
    S.stmts b (d :: ds) = (S.stmts b ds).or (S.stmt b d) := by
  simp [stmts, List.findSome?_append]

theorem settled_of_control (h : m.control.hasOperand = false) : S.Settled m := by
  intro head waiting g ended hc
  rw [hc] at h
  cases h

theorem occurrence_eq_none (ho : o.Regular) (hk : o.terminal.isOperand = false)
    (hl : o.terminal ≠ .leave) (b : Bool) : S.occurrence b o = none := by
  have hn : o.operand = none := by
    have := ho.operand
    rw [hk] at this
    simpa using this
  simp [occurrence, hl, hn]

/-- An operator that gets its operand keeps what is found. -/
theorem combine_found (p : Pending) (rest : List Pending) (g : Grown) :
    (S.pending rest).or (S.expr (p.combine g)) = (S.pending (p :: rest)).or (S.expr g) := by
  rw [S.expr_combine, pending, Option.or_assoc]

theorem reduce_found (s : Nat) (waiting : List Pending) (g : Grown) :
    (S.pending (Machine.reduce s waiting g).1).or (S.expr (Machine.reduce s waiting g).2) =
      (S.pending waiting).or (S.expr g) := by
  induction waiting generalizing g with
  | nil => rfl
  | cons p rest ih =>
    cases p with
    | binary op s' left =>
      rw [Machine.reduce]
      split
      · exact (ih _).trans (S.combine_found (.binary op s' left) rest g)
      · rfl
    | signed op => exact (ih _).trans (S.combine_found (.signed op) rest g)
    | power base => exact (ih _).trans (S.combine_found (.power base) rest g)
    | update x op p => rfl
    | paren => rfl

theorem reduceAll_found (waiting : List Pending) (g : Grown) :
    (S.pending (Machine.reduceAll waiting g).1).or (S.expr (Machine.reduceAll waiting g).2) =
      (S.pending waiting).or (S.expr g) := by
  induction waiting generalizing g with
  | nil => rfl
  | cons p rest ih =>
    by_cases hp : p = .paren
    · subst hp
      rfl
    · rw [Machine.reduceAll_cons hp, ih, combine_found]

theorem machine_push (m : Machine) (d : Grown) (b : Boundary) :
    S.machine (m.push d b) = (S.done m).or (S.stmt m.inLoop d) := by
  have h : S.machine (m.push d b) =
      ((S.blocks m.blocks).or (S.stmts m.inLoop (d :: m.done))).or none := rfl
  rw [h, stmts_cons, Option.or_none, ← Option.or_assoc]
  rfl

/-- What is found in the statements of a block and before it. -/
theorem done_cons (op : Opening) (before : List Grown) (c : Control) :
    S.done ⟨(op, before) :: bs, ds, c⟩ =
      ((S.done ⟨bs, before, c⟩).or (S.opening (looped bs) op)).or
        (S.stmts (op.isBody || looped bs) ds) := rfl

theorem machine_openBlock (m : Machine) (op : Opening) :
    S.machine (m.openBlock op) = (S.done m).or (S.opening m.inLoop op) := by
  have h : S.machine (m.openBlock op) =
      (((S.done m).or (S.opening m.inLoop op)).or none).or none := rfl
  rw [h, Option.or_none, Option.or_none]

/-- Closing a block keeps what is found in it. -/
theorem closeBlock_found (h : m.closeBlock = some m') :
    S.machine m' = S.done m ∧ S.Settled m' := by
  obtain ⟨bs, ds, c⟩ := m
  cases bs with
  | nil => cases h
  | cons block bs =>
    rw [Machine.closeBlock_cons] at h
    cases h
    obtain ⟨op, before⟩ := block
    rw [done_cons]
    cases op with
    | bare =>
      refine ⟨(S.machine_push ⟨bs, before, c⟩ _ .brace).trans ?_, S.settled_of_control rfl⟩
      rw [S.stmt_block]
      simp only [opening, Option.or_none]
      rfl
    | thenBlock cond p =>
      refine ⟨?_, S.settled_of_control rfl⟩
      rw [Option.or_assoc]
      change (S.done ⟨bs, before, c⟩).or ((S.expr cond).or (S.block (looped bs) _)) = _
      rw [S.block_block]
      rfl
    | elseBlock cond t p =>
      refine ⟨(S.machine_push ⟨bs, before, c⟩ _ .brace).trans ?_, S.settled_of_control rfl⟩
      rw [S.stmt_branchElse, S.block_block, ← Option.or_assoc]
      rfl
    | body cond p =>
      refine ⟨(S.machine_push ⟨bs, before, c⟩ _ .brace).trans ?_, S.settled_of_control rfl⟩
      rw [S.stmt_loop, S.block_block, Option.or_assoc]
      rfl

theorem takeOperand_found (ho : o.Regular) {first : Bool} (hf : first = true → waiting = [])
    (h : m.takeOperand head waiting first o = some m') :
    S.machine m' = (S.done m).or ((S.pending waiting).or (S.occurrence m.inLoop o)) ∧
      S.Settled m' := by
  unfold Machine.takeOperand at h
  cases hop : o.operand with
  | some g =>
    rw [hop] at h
    cases h
    have hl : o.terminal ≠ .leave := by
      intro hl
      have := ho.operand
      rw [hop, hl] at this
      cases this
    have hx : S.occurrence m.inLoop o = S.expr g := by simp [occurrence, hl, hop]
    rw [hx]
    refine ⟨rfl, ?_⟩
    rintro head' waiting' g' ended hc
    cases hc
    by_cases hi : o.terminal = .ident
    · have hg := hop.symm.trans (ho.ident hi)
      cases hg
      exact ⟨fun _ => S.expr_ident _ _, fun x p hx => hf (by cases first <;> simp_all)⟩
    · split
      · contradiction
      · exact ⟨fun h => (h rfl).elim, nofun⟩
  | none =>
    have hk : o.terminal.isOperand = false := by rw [← ho.operand, hop]; rfl
    rw [hop] at h
    dsimp only at h
    split at h
    · rename_i op hs
      cases h
      rw [S.occurrence_eq_none ho hk (by rintro hl; rw [hl] at hs; cases hs)]
      refine ⟨?_, S.settled_of_control rfl⟩
      rw [Option.or_none]
      exact congrArg (Option.or _) (Option.or_none)
    · split at h
      · rename_i hp
        cases h
        rw [S.occurrence_eq_none ho hk (by rw [hp]; decide)]
        refine ⟨?_, S.settled_of_control rfl⟩
        rw [Option.or_none]
        exact congrArg (Option.or _) (Option.or_none)
      · cases h

theorem stepBoundary_found (ho : o.Regular) {b : Boundary} (h : m.stepBoundary b o = .ok m') :
    S.machine m' = (S.done m).or (S.occurrence m.inLoop o) ∧ S.Settled m' := by
  unfold Machine.stepBoundary at h
  split at h
  case h_5 hk =>
    cases h
    refine ⟨?_, S.settled_of_control rfl⟩
    rw [machine_push, S.stmt_leave, occurrence, if_pos hk]
  case h_6 hk =>
    cases h
    refine ⟨?_, S.settled_of_control rfl⟩
    rw [S.occurrence_eq_none ho (by rw [hk]; rfl) (by rw [hk]; decide), machine_openBlock]
    rfl
  case h_8 hk =>
    split at h
    · rename_i hc
      cases h
      rw [S.occurrence_eq_none ho (by rw [hk]; rfl) (by rw [hk]; decide), Option.or_none]
      exact S.closeBlock_found hc
    · cases h
  case h_9 =>
    split at h
    · rename_i ht
      cases h
      exact S.takeOperand_found ho (fun _ => rfl) ht
    · cases h
  all_goals
    rename_i hk
    cases h
    rw [S.occurrence_eq_none ho (by rw [hk]; rfl) (by rw [hk]; decide)]
    exact ⟨rfl, S.settled_of_control rfl⟩

theorem endStatement_found (m : Machine) (head : Head) (g : Grown) :
    S.machine (m.endStatement head g) = (S.done m).or (S.expr g) ∧
      S.Settled (m.endStatement head g) := by
  refine ⟨?_, S.settled_of_control (by cases head <;> rfl)⟩
  cases head with
  | print p => exact (S.machine_push m _ _).trans (by rw [S.stmt_print])
  | assign x p => exact (S.machine_push m _ _).trans (by rw [S.stmt_assign])
  | evaluate p => exact (S.machine_push m _ _).trans (by rw [S.stmt_evaluate])
  | branch p => rfl
  | loop p => rfl

theorem stepAfter_found (ho : o.Regular) (h : m.stepAfter head waiting g ended o = .ok m') :
    S.machine m' = ((S.done m).or ((S.pending waiting).or (S.expr g))).or
      (S.occurrence m.inLoop o) ∧ S.Settled m' := by
  rw [← reduceAll_found]
  unfold Machine.stepAfter at h
  split at h
  · rename_i hk
    rw [S.occurrence_eq_none ho (by rw [hk]; rfl) (by rw [hk]; decide), Option.or_none]
    rcases Machine.reduceAll_cases waiting g with ⟨rest, g', hr, -⟩ | ⟨g', hr, -⟩
    · rw [hr] at h ⊢
      cases h
      refine ⟨?_, fun head' waiting' g'' ended' hc => ?_⟩
      · simp only [machine, control, pending, S.expr_enclosed, Pending.left?, Option.bind_none,
          Option.or_none]
        rfl
      · cases hc
        exact ⟨fun h => (h rfl).elim, nofun⟩
    · rw [hr] at h ⊢
      dsimp only at h
      split at h
      · cases h
        exact S.endStatement_found m head g'
      · cases h
  · rename_i hk
    split at h
    · rename_i hp
      have hp : Machine.inParen head waiting = false := by
        simpa using (Bool.and_eq_true_iff.1 hp).2
      obtain ⟨g', hr⟩ := Machine.reduceAll_of_not_inParen hp g
      rw [hr] at h ⊢
      have hd : S.done (m.endStatement head g') = (S.done m).or (S.expr g') := by
        rw [← (S.endStatement_found m head g').1]
        rcases Head.cases_of_isParen (Machine.isParen_of_not_inParen hp) with
          ⟨x, p, rfl⟩ | ⟨p, rfl⟩
        · exact (Option.or_none).symm
        · exact (Option.or_none).symm
      have hl : (m.endStatement head g').inLoop = m.inLoop := by cases head <;> rfl
      have := S.stepBoundary_found ho h
      rwa [hd, hl] at this
    · cases h

/-- Behind an operand, an operator that waits for another one keeps what is found. -/
theorem stepOperator_found (ho : o.Regular)
    (hs : (ended ≠ .closed → S.expr g = none) ∧ ∀ x p, ended = .firstName x p → waiting = [])
    (h : m.stepOperator head waiting g ended o = .ok m') :
    S.machine m' = ((S.done m).or ((S.pending waiting).or (S.expr g))).or
      (S.occurrence m.inLoop o) ∧ S.Settled m' := by
  have hnone : ∀ {k : Nat}, o.terminal.binding? = some k → S.occurrence m.inLoop o = none := by
    intro k hb
    refine S.occurrence_eq_none ho (Terminal.isOperand_of_binding? hb) ?_ _
    intro hl
    rw [hl] at hb
    cases hb
  cases hst : o.terminal.strength? with
  | some k =>
    rw [Machine.stepOperator_binary hst] at h
    cases h
    rw [hnone (Terminal.binding?_of_strength? hst), Option.or_none, ← S.reduce_found k]
    exact ⟨rfl, S.settled_of_control rfl⟩
  | none =>
    by_cases hc : o.terminal = .caret
    · rw [Machine.stepOperator_caret hc] at h
      cases h
      rw [hnone (k := 6) (by rw [hc]; rfl), Option.or_none]
      exact ⟨rfl, S.settled_of_control rfl⟩
    by_cases hf : ended.Final o.terminal
    · rw [Machine.stepOperator_of_final hst hc hf] at h
      exact S.stepAfter_found ho h
    · -- the name is assigned to and drops out of what is held
      obtain ⟨x, p, he⟩ : ∃ x p, ended = .name x p ∨ ended = .firstName x p := by
        cases ended with
        | closed => exact (hf trivial).elim
        | name x p => exact ⟨x, p, .inl rfl⟩
        | firstName x p => exact ⟨x, p, .inr rfl⟩
      have hg : S.expr g = none := hs.1 (by rcases he with rfl | rfl <;> nofun)
      rw [hg, Option.or_none]
      cases hu : o.terminal.updateOperator? with
      | some op =>
        have hl : o.terminal ≠ .leave := by
          intro hl
          rw [hl] at hu
          cases hu
        rw [Machine.stepOperator_update hu he] at h
        cases h
        rw [S.occurrence_eq_none ho (Terminal.isOperand_of_updateOperator? hu) hl, Option.or_none]
        exact ⟨congrArg (Option.or _) Option.or_none, S.settled_of_control rfl⟩
      | none =>
        rcases he with rfl | rfl
        · exact (hf hu).elim
        · have heq : o.terminal = .equal := Decidable.byContradiction fun hne => hf ⟨hu, hne⟩
          obtain rfl := hs.2 x p rfl
          rw [Machine.stepOperator_equal heq] at h
          cases h
          rw [S.occurrence_eq_none ho (by rw [heq]; rfl) (by rw [heq]; decide), Option.or_none]
          exact ⟨rfl, S.settled_of_control rfl⟩

/-- A step adds to what is found what the terminal brings. -/
theorem step_found (ho : o.Regular) (hs : S.Settled m) (h : m.step o = .ok m') :
    S.machine m' = (S.machine m).or (S.occurrence m.inLoop o) ∧ S.Settled m' := by
  obtain ⟨bs, ds, c⟩ := m
  cases c with
  | boundary b =>
    have := S.stepBoundary_found ho h
    rwa [← Option.or_none (o := S.done _)] at this
  | afterThen c t p =>
    simp only [Machine.step] at h
    split at h
    · rename_i hk
      cases h
      rw [S.occurrence_eq_none ho (by rw [hk]; rfl) (by rw [hk]; decide), Option.or_none]
      exact ⟨rfl, S.settled_of_control rfl⟩
    · have := S.stepBoundary_found ho h
      have hd : S.done (Machine.push ⟨bs, ds, .afterThen c t p⟩ (Machine.branchOf c t none p)
          .brace) = S.machine ⟨bs, ds, .afterThen c t p⟩ := by
        refine (Option.or_none (o := S.done _)).symm.trans ((S.machine_push _ _ _).trans ?_)
        rw [S.stmt_branch]
        rfl
      rwa [hd] at this
  | beforeParen head =>
    simp only [Machine.step] at h
    split at h
    · rename_i hk
      cases h
      rw [S.occurrence_eq_none ho (by rw [hk]; rfl) (by rw [hk]; decide), Option.or_none]
      exact ⟨rfl, S.settled_of_control rfl⟩
    · cases h
  | beforeName p =>
    simp only [Machine.step] at h
    split at h
    · rename_i hk
      cases h
      have hx : S.occurrence (Machine.inLoop ⟨bs, ds, .beforeName p⟩) o = none := by
        rw [occurrence, if_neg (by rw [hk]; decide), ho.ident hk]
        exact S.expr_ident _ _
      refine ⟨(S.machine_push _ _ _).trans ?_, S.settled_of_control rfl⟩
      rw [hx, S.stmt_input, Option.or_none, Option.or_none]
      exact (Option.or_none).symm
    · cases h
  | beforeBrace op =>
    simp only [Machine.step] at h
    split at h
    · rename_i hk
      cases h
      rw [S.occurrence_eq_none ho (by rw [hk]; rfl) (by rw [hk]; decide), Option.or_none]
      exact ⟨S.machine_openBlock _ op, S.settled_of_control rfl⟩
    · cases h
  | operand head waiting =>
    simp only [Machine.step] at h
    split at h
    · rename_i ht
      cases h
      have := S.takeOperand_found ho (fun hf => by cases hf) ht
      rwa [← Option.or_assoc] at this
    · cases h
  | operator head waiting g ended =>
    exact S.stepOperator_found ho (hs head waiting g ended rfl) h

/-- What is found when a program ends is found in its statements. -/
theorem finish_found {g : Grown} (h : m.finish = .ok g) :
    ∃ ds : List Grown, g = .above (.program (ds.reverse.map (·.node))) ds.reverse ∧
      S.stmts false ds = S.machine m := by
  obtain ⟨bs, ds, c⟩ := m
  cases c with
  | boundary b =>
    cases bs with
    | nil =>
      cases h
      exact ⟨ds, rfl, (Option.or_none).symm⟩
    | cons block bs => cases h
  | afterThen c t p =>
    cases bs with
    | nil =>
      cases h
      refine ⟨Machine.branchOf c t none p :: ds, rfl, ?_⟩
      rw [stmts_cons, S.stmt_branch]
      rfl
    | cons block bs => cases h
  | operator head waiting g' ended =>
    simp only [Machine.finish] at h
    split at h
    · cases h
    · rename_i hp
      have hp : Machine.inParen head waiting = false := by simpa using hp
      obtain ⟨v, hr⟩ := Machine.reduceAll_of_not_inParen hp g'
      have hm : S.machine ⟨bs, ds, .operator head waiting g' ended⟩ =
          (S.done ⟨bs, ds, .operator head waiting g' ended⟩).or (S.expr v) := by
        refine congrArg (Option.or _) ((S.reduceAll_found waiting g').symm.trans ?_)
        rw [hr]
        rfl
      rw [hr] at h
      rcases Head.cases_of_isParen (Machine.isParen_of_not_inParen hp) with
        ⟨x, p, rfl⟩ | ⟨p, rfl⟩
      · cases bs with
        | nil =>
          cases h
          refine ⟨.above (.assign (.str x) v.node (.of p)) [v] :: ds, rfl, ?_⟩
          rw [hm, stmts_cons, S.stmt_assign]
          rfl
        | cons block bs => cases h
      · cases bs with
        | nil =>
          cases h
          refine ⟨.above (.evaluate v.node (.of p)) [v] :: ds, rfl, ?_⟩
          rw [hm, stmts_cons, S.stmt_evaluate]
          rfl
        | cons block bs => cases h
  | _ => cases h

end Survey

namespace Grown

theorem overflow_above (n : Node) (parts : List Grown) :
    (above n parts).overflow = parts.findSome? (·.overflow) := by
  have h : (above n parts).overflow = (walk parts).2 := rfl
  rw [h]
  induction parts with
  | nil => rfl
  | cons g rest ih =>
    rw [walk, List.findSome?_cons]
    cases hg : g.overflow with
    | some p => rfl
    | none => exact ih rfl

theorem overflow_single (n : Node) (g : Grown) : (above n [g]).overflow = g.overflow := by
  rw [overflow_above, List.findSome?_singleton]

theorem overflow_cons (n : Node) (g : Grown) (rest : List Grown) :
    (above n (g :: rest)).overflow = g.overflow.or (above n rest).overflow := by
  rw [overflow_above, overflow_above, List.findSome?_cons]
  cases g.overflow <;> rfl

theorem overflow_chained (op : String) (s : Nat) (left right : Grown) :
    (chained op s left right).overflow = left.overflow.or right.overflow := by
  refine (overflow_cons (.binary (.str op) left.node right.node) _ [right]).trans ?_
  rw [overflow_single]
  split <;> rfl

end Grown

/-- The first number that is out of range. -/
def overflows : Survey Position where
  expr g := g.overflow
  stmt _ g := g.overflow
  block _ g := g.overflow
  leave _ _ := none
  expr_ident _ _ := rfl
  expr_enclosed _ := rfl
  expr_combine p g := by
    cases p with
    | binary op s left => exact Grown.overflow_chained op s left g
    | power base =>
      refine (Grown.overflow_cons _ base [g]).trans ?_
      rw [Grown.overflow_single]
      rfl
    | signed op => exact Grown.overflow_single _ g
    | update x op p => exact Grown.overflow_single _ g
    | paren => rfl
  stmt_print _ p v := Grown.overflow_single _ v
  stmt_assign _ x p v := Grown.overflow_single _ v
  stmt_evaluate _ p v := Grown.overflow_single _ v
  stmt_input _ _ _ := rfl
  stmt_leave _ _ := rfl
  stmt_block _ gs := Grown.overflow_above _ gs
  block_block _ gs := Grown.overflow_above _ gs
  stmt_branch _ c t p := (Grown.overflow_cons _ c [t]).trans (by rw [Grown.overflow_single])
  stmt_branchElse _ c t p gs := by
    refine (Grown.overflow_cons _ c [t, _]).trans ?_
    rw [Grown.overflow_cons, Grown.overflow_single, Option.or_assoc]
  stmt_loop _ c p blk := (Grown.overflow_cons _ c [blk]).trans (by rw [Grown.overflow_single])

/-- The failure of a check. -/
def failure? : Except Failure Unit → Option Failure
  | .ok _ => none
  | .error f => some f

theorem failure?_bind (x y : Except Failure Unit) :
    failure? (x >>= fun _ => y) = (failure? x).or (failure? y) := by
  cases x <;> rfl

theorem failure?_checkAllBreaks (b : Bool) (gs : List Grown) :
    failure? (Node.checkAllBreaks b (gs.map (·.node))) =
      gs.findSome? fun g => failure? (Node.checkBreaks b g.node) := by
  induction gs with
  | nil => rfl
  | cons g rest ih =>
    rw [List.map_cons, Node.checkAllBreaks, failure?_bind, ih, List.findSome?_cons]
    cases failure? (Node.checkBreaks b g.node) <;> rfl

/-- The first `break` without a loop. -/
def strayBreaks : Survey Failure where
  expr _ := none
  stmt b g := failure? (Node.checkBreaks b g.node)
  block b g := failure? (Node.checkBlockBreaks b g.node)
  leave b p := if b then none else some (.error (.located .breakOutsideLoop p))
  expr_ident _ _ := rfl
  expr_enclosed _ := rfl
  expr_combine p g := by cases p <;> rfl
  stmt_print _ p v := by simp [Grown.above, Node.checkBreaks, failure?]
  stmt_assign _ x p v := by simp [Grown.above, Node.checkBreaks, failure?]
  stmt_evaluate _ p v := by simp [Grown.above, Node.checkBreaks, failure?]
  stmt_input _ _ _ := by simp [Grown.leaf, Node.checkBreaks, failure?]
  stmt_leave b p := by cases b <;> simp [Grown.leaf, Node.checkBreaks, failure?, Error.located]
  stmt_block b gs := by
    simp only [Grown.above, Node.checkBreaks]
    exact failure?_checkAllBreaks b gs
  block_block b gs := by
    simp only [Grown.above, Node.checkBlockBreaks]
    exact failure?_checkAllBreaks b gs
  stmt_branch b c t p := by
    simp only [Machine.branchOf, Grown.above, Node.checkBreaks, failure?_bind, Option.map_none,
      Option.getD_none, Node.isAbsent, if_true]
    exact Option.or_none
  stmt_branchElse b c t p gs := by
    simp only [Machine.branchOf, Grown.above, Node.checkBreaks, failure?_bind, Option.map_some,
      Option.getD_some, Node.isAbsent]
    rfl
  stmt_loop b c p blk := by
    simp only [Grown.above, Node.checkBreaks]
    rfl

end Scriptling.ShiftReduce
