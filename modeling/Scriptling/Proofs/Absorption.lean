import Scriptling.Proofs.Seams

/-!
# Statements that are absorbed

Behind an operand a minus is an operator. A program that begins with a minus and stands behind
such an operand therefore loses its first statement: up to where that statement would have
ended, the machine moves as it does when it reads the statement alone, since both times it has
the same outline. Then both statements end, and what follows is read in the same way.

Which of the two happens can be told from the last token and the last statement, for a
semicolon leaves no operand, and any other last token of a statement that does not end with
an expression leaves none either.
-/
namespace Scriptling

/-- A statement that ends with an expression, with a place for the expression. -/
inductive Node.EndsInValue : (Node → Node) → Prop where
  | assign (x : Json) (m : Mark) : EndsInValue (.assign x · m)
  | evaluate (m : Mark) : EndsInValue (.evaluate · m)

/-- Whether a statement ends with an expression. -/
def Node.hasValue : Node → Bool
  | .assign .. | .evaluate .. => true
  | _ => false

/-- Whether a program ends with an expression that could go on, as far as its last token and its
last statement tell. -/
def EndsInExpression (ts : List Token) (ns : List Node) : Prop :=
  ts ≠ [] ∧ (∀ t ∈ ts.getLast?, t.symbol ≠ .mark ";") ∧ ∃ n ∈ ns.getLast?, n.hasValue = true

namespace ShiftReduce

/-- A semicolon is behind every statement. -/
theorem Outline.stage_of_semicolon {o next : Outline} (h : o.step .semicolon = some next) :
    next.stage = .boundary := by
  obtain ⟨frames, stage⟩ := o
  cases stage with
  | boundary | afterThen =>
    cases h
    rfl
  | operator clause parens ending =>
    have hcontinues : continues ending .semicolon = false := by cases ending <;> rfl
    simp only [step, stepOperator, hcontinues, reduceCtorEq, false_and, Bool.false_eq_true,
      if_false] at h
    split at h
    · cases h
      rfl
    · cases h
  | _ => cases h

namespace Machine

variable {m next : Machine} {t : Token} {o : Occurrence} {head : Head} {done : List Grown}

/-- Whether the last statement of a machine that has read a program does not end with an
expression, unless an operand is at its end. -/
def Fresh (m : Machine) : Prop :=
  m.outline.isFinal = true → m.control.hasOperand = false →
    ∃ d ds, m.settle.done = d :: ds ∧ d.node.hasValue = false

theorem fresh_of_not_isFinal (h : m.outline.isFinal = false) : m.Fresh := by
  intro hfinal
  rw [h] at hfinal
  cases hfinal

theorem fresh_of_hasOperand (h : m.control.hasOperand = true) : m.Fresh := by
  intro _ hoperand
  rw [h] at hoperand
  cases hoperand

theorem fresh_push {d : Grown} {b : Boundary} (h : d.node.hasValue = false) :
    (m.push d b).Fresh :=
  fun _ _ => ⟨d, m.done, rfl, h⟩

theorem fresh_closeBlock (h : m.closeBlock = some next) : next.Fresh := by
  obtain ⟨blocks, done, c⟩ := m
  cases blocks with
  | nil => cases h
  | cons block blocks =>
    rw [closeBlock_cons] at h
    obtain ⟨opening, before⟩ := block
    intro _ _
    cases opening with
    | _ =>
      cases h
      exact ⟨_, _, rfl, rfl⟩

theorem fresh_takeOperand {pending : List Pending} {first : Bool}
    (h : m.takeOperand head pending first o = some next) : next.Fresh := by
  unfold takeOperand at h
  repeat' split at h
  all_goals
    cases h
    try first
      | exact fresh_of_hasOperand rfl
      | exact fresh_of_not_isFinal rfl

theorem fresh_stepBoundary {b : Boundary} (ho : o.terminal ≠ .semicolon)
    (h : m.stepBoundary b o = .ok next) : next.Fresh := by
  unfold stepBoundary at h
  split at h
  case h_5 =>
    cases h
    exact fresh_push rfl
  case h_7 ht => exact absurd ht ho
  case h_8 =>
    split at h
    · rename_i heq
      cases h
      exact fresh_closeBlock heq
    · cases h
  case h_9 =>
    split at h
    · rename_i heq
      cases h
      exact fresh_takeOperand heq
    · cases h
  all_goals
    cases h
    exact fresh_of_not_isFinal rfl

theorem fresh_stepAfter {pending : List Pending} {g : Grown} {ended : Ended}
    (ho : o.terminal ≠ .semicolon) (h : m.stepAfter head pending g ended o = .ok next) :
    next.Fresh := by
  unfold stepAfter at h
  split at h
  · split at h
    · cases h
      exact fresh_of_hasOperand rfl
    · split at h
      · rename_i hparen
        cases h
        cases head with
        | print p => exact fresh_push rfl
        | branch p | loop p => exact fresh_of_not_isFinal rfl
        | assign x p | evaluate p => cases hparen
      · cases h
  · split at h
    · exact fresh_stepBoundary ho h
    · cases h

theorem fresh_stepOperator {pending : List Pending} {g : Grown} {ended : Ended}
    (ho : o.terminal ≠ .semicolon) (h : m.stepOperator head pending g ended o = .ok next) :
    next.Fresh := by
  unfold stepOperator at h
  split at h
  · cases h
    exact fresh_of_not_isFinal rfl
  · split at h
    case h_5 => exact fresh_stepAfter ho h
    all_goals
      cases h
      exact fresh_of_not_isFinal rfl

/-- Only a semicolon or an operand can stand at the end of a program whose last statement ends
with an expression. -/
theorem fresh_step (ho : o.terminal ≠ .semicolon) (h : m.step o = .ok next) : next.Fresh := by
  obtain ⟨blocks, done, c⟩ := m
  cases c with
  | boundary b => exact fresh_stepBoundary ho h
  | afterThen condition block p =>
    simp only [step] at h
    split at h
    · cases h
      exact fresh_of_not_isFinal rfl
    · exact fresh_stepBoundary ho h
  | beforeParen head =>
    simp only [step] at h
    split at h
    · cases h
      exact fresh_of_not_isFinal rfl
    · cases h
  | beforeName p =>
    simp only [step] at h
    split at h
    · cases h
      exact fresh_push rfl
    · cases h
  | beforeBrace opening =>
    simp only [step] at h
    split at h
    · cases h
      exact fresh_of_not_isFinal rfl
    · cases h
  | operand head pending =>
    simp only [step] at h
    split at h
    · rename_i heq
      cases h
      exact fresh_takeOperand heq
    · cases h
  | operator head pending g ended => exact fresh_stepOperator ho h

theorem step_of_read (h : (m.read t).toOption = some next) :
    ∃ o, Occurrence.ofToken? t = some o ∧ m.step o = .ok next := by
  rw [toOption_read] at h
  split at h
  · cases h
  · obtain ⟨o, ho, hstep⟩ := Option.bind_eq_some_iff.1 h
    refine ⟨o, ho, ?_⟩
    cases hr : m.step o with
    | error e => simp [hr, Except.toOption] at hstep
    | ok next' =>
      rw [hr] at hstep
      cases hstep
      rfl

/-- A semicolon leaves no operand. -/
theorem hasOperand_of_semicolon (ho : Occurrence.ofToken? t = some o)
    (hk : o.terminal = .semicolon) (h : m.step o = .ok next) : next.control.hasOperand = false := by
  have houtline : m.outline.step .semicolon = some next.outline := by
    rw [← hk, ← outline_step (Occurrence.isSome_operand ho), h]
    rfl
  have hstage : next.control.stage = .boundary := Outline.stage_of_semicolon houtline
  cases hcontrol : next.control with
  | operator => simp [hcontrol, Control.stage] at hstage
  | _ => rfl

/-- The last token and the last statement tell whether there is an operand at the end. -/
theorem hasOperand_iff {ts : List Token} (hm : start.readAll ts = some m)
    (hfinal : m.outline.isFinal = true) :
    m.control.hasOperand = true ↔
      EndsInExpression ts (m.settle.done.reverse.map (·.node)) := by
  have hlast : (m.settle.done.reverse.map (·.node)).getLast? =
      m.settle.done.head?.map (·.node) := by
    rw [List.getLast?_map, List.getLast?_reverse]
  have hkind : ∀ {t o}, Occurrence.ofToken? t = some o →
      (t.symbol = .mark ";" ↔ o.terminal = .semicolon) := by
    intro t o ho
    rw [← Token.terminal?_eq_iff (by decide : Terminal.ofMark? ";" = some .semicolon),
      Token.terminal?, ho, Option.map_some, Option.some.injEq]
  unfold EndsInExpression
  rw [hlast]
  rcases List.eq_nil_or_concat ts with rfl | ⟨us, t, rfl⟩
  · cases hm
    simp [start, Control.hasOperand]
  rw [List.concat_eq_append, readAll_append] at hm
  obtain ⟨before, -, hm⟩ := Option.bind_eq_some_iff.1 hm
  obtain ⟨_, hread, hm⟩ := Option.bind_eq_some_iff.1 hm
  cases hm
  obtain ⟨o, ho, hstep⟩ := step_of_read hread
  -- Only the last step matters: a semicolon leaves no operand, and any other token that leaves
  -- none has just finished a statement of another kind.
  constructor
  · intro hoperand
    refine ⟨by simp, ?_, ?_⟩
    · intro t' ht' hsemicolon
      obtain rfl : t = t' := by simpa using ht'
      rw [hasOperand_of_semicolon ho ((hkind ho).1 hsemicolon) hstep] at hoperand
      cases hoperand
    · cases final_of_isFinal hfinal with
      | boundary | afterThen => cases hoperand
      | operator done g ended hparen =>
        rcases Head.cases_of_isParen (isParen_of_not_inParen hparen) with ⟨x, p, rfl⟩ | ⟨p, rfl⟩
        · exact ⟨_, rfl, rfl⟩
        · exact ⟨_, rfl, rfl⟩
  · rintro ⟨-, hsemicolon, n, hn, hvalue⟩
    cases hoperand : m.control.hasOperand with
    | true => rfl
    | false =>
      have hne : o.terminal ≠ .semicolon := fun h =>
        hsemicolon t (by simp) ((hkind ho).2 h)
      obtain ⟨d, ds, hdone, hd⟩ := fresh_step hne hstep hfinal hoperand
      rw [hdone] at hn
      cases hn
      rw [hd] at hvalue
      cases hvalue

/-- Whether the machine is inside the expression of a statement that no block is open around.
The expression is not a single name that begins the statement. -/
inductive Within (head : Head) (done : List Grown) : Machine → Prop where
  | operand (pending : List Pending) : Within head done ⟨[], done, .operand head pending⟩
  | operator (pending : List Pending) (g : Grown) {ended : Ended} : ended.ending ≠ .firstName →
    Within head done ⟨[], done, .operator head pending g ended⟩

theorem within_takeOperand {c : Control} {pending : List Pending}
    (h : takeOperand ⟨[], done, c⟩ head pending false o = some next) :
    Within head done next := by
  unfold takeOperand at h
  split at h
  · cases h
    refine .operator pending _ ?_
    split <;> nofun
  · split at h
    · cases h
      exact .operand _
    · split at h
      · cases h
        exact .operand _
      · cases h

theorem begin_of_stepBoundary {c : Control} {g : Grown} (ho : Occurrence.ofToken? t = some o)
    (hhead : head.isParen = false)
    (h : (endStatement ⟨[], done, c⟩ head g).stepBoundary .separator o = .ok next) :
    (Outline.begin [] o.terminal).isSome = true := by
  have hbegin := outline_stepBoundary (Occurrence.isSome_operand ho)
    (endStatement ⟨[], done, c⟩ head g) .separator
  have hframes : (endStatement ⟨[], done, c⟩ head g).outline.frames = [] := by cases head <;> rfl
  rw [h, hframes] at hbegin
  rw [← hbegin]
  rfl

/-- Inside an expression the machine stays, unless the program may end and a token begins
another one. -/
theorem Within.read (h : Within head done m) (hhead : head.isParen = false)
    (hread : (m.read t).toOption = some next)
    (hends : ¬ (m.outline.isFinal = true ∧ m.Separate t)) : Within head done next := by
  obtain ⟨o, ho, hstep⟩ := step_of_read hread
  cases h with
  | operand pending =>
    simp only [step] at hstep
    split at hstep
    · rename_i heq
      cases hstep
      exact within_takeOperand heq
    · cases hstep
  | @operator pending g ended hended =>
    simp only [step, stepOperator] at hstep
    split at hstep
    · cases hstep
      exact .operand _
    · rename_i hstrength
      split at hstep
      · cases hstep
        exact .operand _
      · exact absurd rfl hended
      · exact absurd rfl hended
      · cases hstep
        exact .operand _
      · unfold stepAfter at hstep
        split at hstep
        · split at hstep
          · cases hstep
            refine .operator _ _ ?_
            intro hfirst
            cases hfirst
          · rw [hhead] at hstep
            cases hstep
        · split at hstep
          · rename_i hcond
            obtain ⟨-, hparen⟩ := Bool.and_eq_true_iff.1 hcond
            -- The token has ended the expression and begun a statement, which is excluded.
            refine absurd ⟨?_, o.terminal, by simp [Token.terminal?, ho], ?_, ?_⟩ hends
            · rw [inParen_eq] at hparen
              simpa [Outline.isFinal, Outline.isReady, outline, Control.stage] using hparen
            · exact begin_of_stepBoundary ho hhead hstep
            · rintro ⟨-, hminus⟩
              rw [hminus] at hstrength
              cases hstrength
          · cases hstep

theorem separate_congr {c : Machine} (h : c.outline = m.outline) :
    c.Separate t ↔ m.Separate t := by
  have hstage : ∀ c : Control, c.hasOperand = match c.stage with
      | .operator .. => true
      | _ => false := by
    intro c
    cases c <;> rfl
  have hcontrol : c.control.stage = m.control.stage := congrArg Outline.stage h
  rw [Separate, Separate, hstage, hstage, hcontrol]

/-- Two machines with one outline leave their expressions at the same token. Up to that token
both of them read the same. -/
theorem Within.exists_split {c : Machine} {head' : Head} {done' : List Grown}
    (hm : Within head done m) (hhead : head.isParen = false) (hc : Within head' done' c)
    (hhead' : head'.isParen = false) (houtline : c.outline = m.outline) {us : List Token}
    (hus : m.readAll us = some next) (hfinal : next.outline.isFinal = true) :
    ∃ fs gs m' c', us = fs ++ gs ∧ m.readAll fs = some m' ∧ c.readAll fs = some c' ∧
      Within head done m' ∧ Within head' done' c' ∧ m'.outline.isFinal = true ∧
      c'.outline = m'.outline ∧ ∀ t ∈ gs.head?, m'.Separate t := by
  induction us generalizing m c with
  | nil =>
    obtain rfl : m = next := Option.some.inj hus
    exact ⟨[], [], m, c, rfl, rfl, rfl, hm, hc, hfinal, houtline, nofun⟩
  | cons t us ih =>
    by_cases hends : m.outline.isFinal = true ∧ m.Separate t
    · refine ⟨[], t :: us, m, c, rfl, rfl, rfl, hm, hc, hends.1, houtline, ?_⟩
      rintro t' ⟨⟩
      exact hends.2
    · obtain ⟨m₁, hread, hus⟩ := Option.bind_eq_some_iff.1 hus
      have hoc : (c.read t).toOption.map outline = some m₁.outline := by
        rw [outline_read, houtline, ← outline_read, hread]
        rfl
      obtain ⟨c₁, hread', houtline₁⟩ := Option.map_eq_some_iff.1 hoc
      have hends' : ¬ (c.outline.isFinal = true ∧ c.Separate t) := by
        rwa [houtline, separate_congr houtline]
      obtain ⟨fs, gs, m', c', rfl, hfs, hfs', hrest⟩ :=
        ih (hm.read hhead hread hends) (hc.read hhead' hread' hends') houtline₁ hus
      refine ⟨t :: fs, gs, m', c', rfl, ?_, ?_, hrest⟩
      · rw [readAll, hread]
        exact hfs
      · rw [readAll, hread']
        exact hfs'

theorem exists_statement (hhead : head.isParen = false) :
    ∃ s, Node.EndsInValue s ∧
      ∀ (m : Machine) g, m.endStatement head g = m.push (.above (s g.node) [g]) .separator := by
  rcases Head.cases_of_isParen hhead with ⟨x, p, rfl⟩ | ⟨p, rfl⟩
  · exact ⟨_, .assign (.str x) (.of p), fun _ _ => rfl⟩
  · exact ⟨_, .evaluate (.of p), fun _ _ => rfl⟩

section Values

variable {s : Node → Node}
  (hs : ∀ (m : Machine) g, m.endStatement head g = m.push (.above (s g.node) [g]) .separator)

include hs

/-- An expression at the end becomes the value of its statement. -/
theorem nodes_settle_operator (pending : List Pending) (g : Grown) (ended : Ended) :
    (settle ⟨[], done, .operator head pending g ended⟩).done.reverse.map (·.node) =
      done.reverse.map (·.node) ++ [s (reduceAll pending g).2.node] := by
  have hsettle : settle ⟨[], done, .operator head pending g ended⟩ =
      endStatement ⟨[], done, .operator head pending g ended⟩ head (reduceAll pending g).2 := rfl
  rw [hsettle, hs]
  simp [push, Grown.above]

theorem Within.nodes_settle (h : Within head done m) (hfinal : m.outline.isFinal = true) :
    ∃ e, m.settle.done.reverse.map (·.node) = done.reverse.map (·.node) ++ [s e] := by
  cases h with
  | operand pending => cases hfinal
  | operator pending g _ => exact ⟨_, nodes_settle_operator hs pending g _⟩

end Values

theorem Builds.unique {ts : List Token} {ns ns' : List Node} (h : Builds ts ns)
    (h' : Builds ts ns') : ns = ns' := by
  obtain ⟨m, hm, -, rfl⟩ := h
  obtain ⟨m', hm', -, rfl⟩ := h'
  cases hm.symm.trans hm'
  rfl

/-- What can be read behind a program, and continues none of it, is a program itself. -/
theorem exists_builds {gs : List Token} (hm : m.outline.isFinal = true)
    (hgs : m.readAll gs = some next) (hnext : next.outline.isFinal = true)
    (hseam : ∀ t ∈ gs.head?, m.Separate t) : ∃ ns, Builds gs ns := by
  cases gs with
  | nil => exact ⟨[], start, rfl, rfl, rfl⟩
  | cons t gs =>
    rw [readAll_cons_of_isFinal hm (hseam t rfl)] at hgs
    obtain ⟨last, hlast, rfl⟩ := Option.map_eq_some_iff.1 hgs
    rw [outline_on] at hnext
    exact ⟨_, last, hlast, hnext, rfl⟩

theorem read_minus_start (ht : t.symbol = .mark "-") :
    start.read t = .ok ⟨[], [], .operand (.evaluate t.position) [.signed "-"]⟩ :=
  read_mark .minus ht (by decide) (by decide) rfl

theorem read_minus_operator {pending : List Pending} {g : Grown} {ended : Ended}
    (ht : t.symbol = .mark "-") :
    read ⟨[], done, .operator head pending g ended⟩ t =
      .ok ⟨[], done,
        .operand head (.binary "-" 4 (reduce 4 pending g).2 :: (reduce 4 pending g).1)⟩ :=
  read_mark .minus ht (by decide) (by decide) rfl

/-- A program that begins with a minus loses its first statement to an operand before it. -/
theorem Builds.absorb {ts us : List Token} {ns : List Node} (hm : start.readAll ts = some m)
    (hfinal : m.outline.isFinal = true) (hoperand : m.control.hasOperand = true)
    (ht : t.symbol = .mark "-") (h : Builds (t :: us) ns) :
    ∃ (before : List Node) (s : Node → Node) (e e' f : Node) (fs gs : List Token)
      (after : List Node),
      Node.EndsInValue s ∧ m.settle.done.reverse.map (·.node) = before ++ [s e] ∧
      ns = .evaluate f (.of t.position) :: after ∧ us = fs ++ gs ∧
      Builds (t :: fs) [.evaluate f (.of t.position)] ∧ Builds gs after ∧
      Builds (ts ++ t :: fs) (before ++ [s e']) ∧
      Builds (ts ++ t :: us) (before ++ s e' :: after) := by
  obtain ⟨next, hnext, hfinal', hns⟩ := h
  obtain ⟨m₀, hread, hus⟩ := Option.bind_eq_some_iff.1 hnext
  rw [read_minus_start ht] at hread
  cases hread
  cases final_of_isFinal hfinal with
  | boundary | afterThen => cases hoperand
  | @operator done head pending g ended hparen =>
  have hhead := isParen_of_not_inParen hparen
  obtain ⟨s, hs, hstatement⟩ := exists_statement hhead
  -- Behind the minus both machines want an operand, and have the same outline.
  have houtline : outline ⟨[], done, .operand head
        (.binary "-" 4 (reduce 4 pending g).2 :: (reduce 4 pending g).1)⟩ =
      outline ⟨[], [], .operand (.evaluate t.position) [.signed "-"]⟩ := by
    obtain ⟨hclause, hparens⟩ : head.clause = .plain ∧ Pending.parens pending = 0 := by
      simpa [inParen_eq] using hparen
    have hplain : (Head.evaluate t.position).clause = .plain := rfl
    simp [outline, Control.stage, Pending.parens, parens_reduce, hclause, hparens, hplain]
  obtain ⟨fs, gs, m', c', rfl, hfs, hfs', hm', hc', hfinal₁, houtline', hseam⟩ :=
    Within.exists_split (.operand _) rfl (.operand _) hhead houtline hus hfinal'
  have hfinal₂ : c'.outline.isFinal = true := by rwa [houtline']
  have hseam' : ∀ u ∈ gs.head?, c'.Separate u := fun u hu =>
    (separate_congr houtline').2 (hseam u hu)
  have hfirst : start.readAll (t :: fs) = some m' := by
    rw [readAll, read_minus_start ht]
    exact hfs
  have hmerged : start.readAll (ts ++ t :: fs) = some c' := by
    rw [readAll_append, hm, Option.bind_some, readAll, read_minus_operator ht]
    exact hfs'
  rw [readAll_append, hfs, Option.bind_some] at hus
  obtain ⟨after, hafter⟩ := exists_builds hfinal₁ hus hfinal' hseam
  obtain ⟨f, hf⟩ := hm'.nodes_settle (s := (.evaluate · (.of t.position))) (fun _ _ => rfl) hfinal₁
  obtain ⟨e', he'⟩ := hc'.nodes_settle hstatement hfinal₂
  refine ⟨done.reverse.map (·.node), s, _, e', f, fs, gs, after, hs,
    nodes_settle_operator hstatement pending g ended, ?_, rfl, ⟨m', hfirst, hfinal₁, hf⟩, hafter,
    ⟨c', hmerged, hfinal₂, he'⟩, ?_⟩
  · exact Builds.unique ⟨next, hnext, hfinal', hns⟩
      (Builds.append hfirst hfinal₁ hf hafter hseam)
  · have hwhole := Builds.append hmerged hfinal₂ he' hafter hseam'
    rwa [List.append_assoc, List.append_assoc] at hwhole

end Machine
end ShiftReduce
end Scriptling
