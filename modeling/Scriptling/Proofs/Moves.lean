import Scriptling.Proofs.Reading
import Scriptling.Proofs.Verdict

/-!
# Moves of the machine

What the machine does at a token depends on what it is doing and on the terminal
that the token is. Two machines that move alike at the next token come to the
same verdict. So a waiting operator may take its operand early, a statement may
end early, and an expression may begin early, as long as the next token leaves no
other choice.
-/
namespace Scriptling

namespace ShiftReduce

theorem Terminal.ofMark?_eq_some_iff {text : String} {t : Terminal} :
    ofMark? text = some t ↔ t.text? = some text ∧ t ≠ .truth ∧ t ≠ .falsity := by
  simp only [ofMark?, Option.filter_eq_some_iff, Bool.and_eq_true, bne_iff_ne]
  exact ⟨fun ⟨h, ht⟩ => ⟨text?_of_ofText? h, ht⟩, fun ⟨h, ht⟩ => ⟨ofText?_of_text? h, ht⟩⟩

/-- Whether a terminal is an operand by itself. -/
def Terminal.isOperand : Terminal → Bool
  | .number | .string | .ident | .truth | .falsity => true
  | _ => false

theorem Terminal.isOperand_of_ofMark? {text : String} {t : Terminal} (h : ofMark? text = some t) :
    t.isOperand = false := by
  obtain ⟨ht, h₁, h₂⟩ := ofMark?_eq_some_iff.1 h
  cases t <;> first | rfl | contradiction

theorem Terminal.isOperand_of_binding? {t : Terminal} {k : Nat} (h : t.binding? = some k) :
    t.isOperand = false := by
  cases t <;> first | rfl | cases h

theorem Terminal.isOperand_of_updateOperator? {t : Terminal} {op : String}
    (h : t.updateOperator? = some op) : t.isOperand = false := by
  cases t <;> first | rfl | cases h

theorem Terminal.binding?_of_strength? {t : Terminal} {k : Nat} (h : t.strength? = some k) :
    t.binding? = some k := by
  have hc : t ≠ .caret := by
    rintro rfl
    cases h
  simpa [binding?, hc] using h

theorem Terminal.binding?_bounds {t : Terminal} {k : Nat} (h : t.binding? = some k) :
    0 < k ∧ k < 7 := by
  cases t <;> cases h <;> decide

theorem Terminal.strength?_of_binding?_eq_none {t : Terminal} (h : t.binding? = none) :
    t.strength? = none ∧ t ≠ .caret := by
  have hc : t ≠ .caret := by
    rintro rfl
    cases h
  exact ⟨by simpa [binding?, hc] using h, hc⟩

theorem Occurrence.isSome_operand {t : Token} {o : Occurrence} (h : ofToken? t = some o) :
    o.operand.isSome = o.terminal.isOperand := by
  unfold ofToken? at h
  split at h
  case h_6 =>
    obtain ⟨terminal, hm, rfl⟩ := Option.map_eq_some_iff.1 h
    exact (Terminal.isOperand_of_ofMark? hm).symm
  all_goals
    cases h
    try rfl

theorem Occurrence.position_eq {t : Token} {o : Occurrence} (h : ofToken? t = some o) :
    o.position = t.position := by
  unfold ofToken? at h
  split at h
  case h_6 =>
    obtain ⟨terminal, hm, rfl⟩ := Option.map_eq_some_iff.1 h
    rfl
  all_goals
    cases h
    try rfl

theorem Occurrence.exists_ident {t : Token} {o : Occurrence} (h : ofToken? t = some o)
    (hi : o.terminal = .ident) : ∃ x, t.symbol = .ident x := by
  unfold ofToken? at h
  split at h
  case h_3 name hs => exact ⟨name, hs⟩
  case h_6 =>
    obtain ⟨terminal, hm, rfl⟩ := Option.map_eq_some_iff.1 h
    cases (Terminal.isOperand_of_ofMark? hm).symm.trans (congrArg Terminal.isOperand hi)
  all_goals
    cases h
    try cases hi

end ShiftReduce

namespace Token

open ShiftReduce

/-- The terminal that a token is. -/
def terminal? (t : Token) : Option Terminal :=
  (Occurrence.ofToken? t).map (·.terminal)

theorem terminal?_of_mark {t : Token} {text : String} (h : t.symbol = .mark text) :
    t.terminal? = Terminal.ofMark? text := by
  simp [terminal?, Occurrence.ofToken?, h, Function.comp_def]

/-- A token is the terminal of a mark if it is that mark. -/
theorem terminal?_eq_iff {t : Token} {text : String} {k : Terminal}
    (h : Terminal.ofMark? text = some k) :
    t.terminal? = some k ↔ t.symbol = .mark text := by
  constructor
  · intro ht
    obtain ⟨o, ho, rfl⟩ := Option.map_eq_some_iff.1 ht
    have hn := Terminal.isOperand_of_ofMark? h
    unfold Occurrence.ofToken? at ho
    split at ho
    case h_6 text' hs =>
      obtain ⟨k, hk, rfl⟩ := Option.map_eq_some_iff.1 ho
      have h₁ := (Terminal.ofMark?_eq_some_iff.1 hk).1
      have h₂ := (Terminal.ofMark?_eq_some_iff.1 h).1
      cases h₁.symm.trans h₂
      exact hs
    all_goals
      cases ho
      try cases hn
  · intro hs
    rw [terminal?_of_mark hs, h]

theorem exists_mark {t : Token} {terminal : Terminal} (h : t.terminal? = some terminal)
    (hk : terminal.isOperand = false) :
    ∃ text, t.symbol = .mark text ∧ Terminal.ofMark? text = some terminal := by
  obtain ⟨o, ho, rfl⟩ := Option.map_eq_some_iff.1 h
  unfold Occurrence.ofToken? at ho
  split at ho
  case h_6 text hs =>
    obtain ⟨k, hm, rfl⟩ := Option.map_eq_some_iff.1 ho
    exact ⟨text, hs, hm⟩
  all_goals
    cases ho
    try cases hk

end Token

namespace Stream

/-- Whether the next token, if it is a terminal, is one that is asked for. -/
def Next (s : Stream) (P : ShiftReduce.Terminal → Prop) : Prop :=
  ∀ t, s.tokens.head?.bind Token.terminal? = some t → P t

theorem next_cons {t : Token} {rest : List Token} {failure : Option Error}
    {P : ShiftReduce.Terminal → Prop} :
    Next ⟨t :: rest, failure⟩ P ↔ ∀ k, t.terminal? = some k → P k := by
  simp [Next]

end Stream

namespace ShiftReduce

namespace Pending

/-- The tree of an operator that has got its right operand. -/
def combine : Pending → Grown → Grown
  | .binary op s left, g => .chained op s left g
  | .signed op, g => .above (.unary (.str op) g.node) [g]
  | .power base, g => .above (.binary (.str "^") base.node g.node) [base, g]
  | .update x op p, g => .above (.update (.str x) (.str op) g.node (.of p)) [g]
  | .paren, g => g

/-- Whether a waiting operator gets its right operand before a terminal is read. -/
def Yields (p : Pending) (t : Terminal) : Prop :=
  t ≠ .caret ∧
    match p with
    | .binary _ s _ => ∀ s', t.strength? = some s' → s' ≤ s
    | .signed _ | .power _ => True
    | .update .. => t.strength? = none
    | .paren => False

end Pending

namespace Ended

/-- Whether an operand is no name that a terminal turns into the target of an
assignment. -/
def Final (ended : Ended) (t : Terminal) : Prop :=
  match ended with
  | .closed => True
  | .name .. => t.updateOperator? = none
  | .firstName .. => t.updateOperator? = none ∧ t ≠ .equal

end Ended

theorem Head.cases_of_isParen {head : Head} (h : head.isParen = false) :
    (∃ x p, head = .assign x p) ∨ ∃ p, head = .evaluate p := by
  cases head with
  | assign x p => exact .inl ⟨x, p, rfl⟩
  | evaluate p => exact .inr ⟨p, rfl⟩
  | print p => cases h
  | branch p => cases h
  | loop p => cases h

namespace Machine

/-- The machine behind a block. -/
def afterBlock (bs : List (Opening × List Grown)) (ds : List Grown) (block : Grown) :
    Opening → Machine
  | .bare => ⟨bs, block :: ds, .boundary .brace⟩
  | .thenBlock c p => ⟨bs, ds, .afterThen c block p⟩
  | .elseBlock c thenBlock p => ⟨bs, branchOf c thenBlock (some block) p :: ds, .boundary .brace⟩
  | .body c p =>
    ⟨bs, .above (.loop c.node block.node (.of p)) [c, block] :: ds, .boundary .brace⟩

theorem closeBlock_cons {block : Opening × List Grown} {bs : List (Opening × List Grown)}
    {ds : List Grown} {c : Control} :
    closeBlock ⟨block :: bs, ds, c⟩ =
      some (afterBlock bs block.2 (.above (.block (ds.reverse.map (·.node))) ds.reverse)
        block.1) := by
  obtain ⟨opening, before⟩ := block
  cases opening <;> rfl

section Congruence

variable {m m' : Machine} {t : Token}

theorem read_congr (hb : m.blocks = m'.blocks) (hm : m.move t = m'.move t)
    (hw : m.wanted t = m'.wanted t) : m.read t = m'.read t := by
  unfold read inLoop
  rw [hb, hm, hw]

theorem read_of_move {next : Machine} (hm : m.move t = some next)
    (ht : t.terminal? ≠ some .leave) : m.read t = .ok next := by
  have hk : Terminal.ofMark? "break" = some .leave := by decide
  rw [ne_eq, Token.terminal?_eq_iff hk, ← Symbol.isMark_iff] at ht
  simp [read, hm, ht]

/-- The machine reads a mark as it steps over the terminal. -/
theorem read_mark (terminal : Terminal) {text : String} {next : Machine}
    (ht : t.symbol = .mark text) (hk : Terminal.ofMark? text = some terminal)
    (hl : terminal ≠ .leave) (h : m.step ⟨terminal, text, t.position, none⟩ = .ok next) :
    m.read t = .ok next := by
  refine read_of_move ?_ ?_
  · simp [move, Occurrence.ofToken?, ht, hk, h, Except.toOption]
  · simpa [Token.terminal?_of_mark ht, hk] using hl

theorem read_of_not_move (hm : m.move t = none) :
    m.read t = .error (unexpected (m.wanted t) t) := by
  simp [read, hm]

theorem verdict_cons {rest : List Token} {failure : Option Error}
    (ht : t.symbol.isFinish = false) :
    m.verdict ⟨t :: rest, failure⟩ =
      match m.read t with
      | .ok next => next.verdict ⟨rest, failure⟩
      | .error e => .error e := by
  simp only [verdict, judge, ht]
  rfl

theorem verdict_finish {rest : List Token} {failure : Option Error}
    (ht : t.symbol.isFinish = true) : m.verdict ⟨t :: rest, failure⟩ = m.close t := by
  simp [verdict, judge, ht]

/-- The verdict on a stream depends on the moves at its next token. -/
theorem verdict_congr {rest : List Token} {failure : Option Error}
    (hc : t.symbol.isFinish = true → m.close t = m'.close t)
    (hr : t.symbol.isFinish = false → m.read t = m'.read t) :
    m.verdict ⟨t :: rest, failure⟩ = m'.verdict ⟨t :: rest, failure⟩ := by
  cases ht : t.symbol.isFinish with
  | true => rw [verdict_finish ht, verdict_finish ht, hc ht]
  | false => rw [verdict_cons ht, verdict_cons ht, hr ht]

/-- The machine refuses a stream whose next token it can neither read nor end at. -/
theorem verdict_refuse {rest : List Token} {failure : Option Error}
    (hc : t.symbol.isFinish = true → m.finish.toOption = none)
    (hm : t.symbol.isFinish = false → m.move t = none) :
    m.verdict ⟨t :: rest, failure⟩ = .error (unexpected (m.wanted t) t) := by
  cases ht : t.symbol.isFinish with
  | true =>
    rw [verdict_finish ht, close, hc ht]
  | false =>
    rw [verdict_cons ht, read_of_not_move (hm ht)]

/-- A machine that waits for one terminal refuses every other token. -/
theorem verdict_of_ne {rest : List Token} {failure : Option Error} {k : Terminal}
    (ht : t.terminal? ≠ some k) (hf : m.finish.toOption = none)
    (h : ∀ o : Occurrence, o.terminal ≠ k → (m.step o).toOption = none) :
    m.verdict ⟨t :: rest, failure⟩ = .error (unexpected (m.wanted t) t) := by
  refine verdict_refuse (fun _ => hf) (fun _ => ?_)
  unfold move
  cases ho : Occurrence.ofToken? t with
  | none => rfl
  | some o =>
    refine h o fun hk => ht ?_
    simp [Token.terminal?, ho, hk]

end Congruence

section Finish

variable {bs : List (Opening × List Grown)} {ds : List Grown} {head : Head}
  {pending : List Pending} {g : Grown} {ended : Ended} {b : Boundary}

theorem toOption_finish_boundary :
    (finish ⟨bs, ds, .boundary b⟩).toOption =
      if bs.isEmpty then some (.above (.program (ds.reverse.map (·.node))) ds.reverse)
      else none := by
  cases bs <;> rfl

/-- An expression that may end at the end of the text ends its statement there. -/
theorem toOption_finish_operator (c : Control) :
    (finish ⟨bs, ds, .operator head pending g ended⟩).toOption =
      if inParen head pending then none
      else (finish (endStatement ⟨bs, ds, c⟩ head (reduceAll pending g).2)).toOption := by
  simp only [finish]
  split
  · rfl
  · rename_i h
    cases head <;> cases bs <;> first | rfl | simp [inParen, Head.isParen] at h

end Finish

section Collapse

variable {bs : List (Opening × List Grown)} {ds : List Grown} {head : Head}
  {pending : List Pending} {g : Grown} {ended : Ended} {p : Pending} {o : Occurrence}

theorem reduce_cons_of_yields {s : Nat} (h : p.Yields o.terminal)
    (hs : o.terminal.strength? = some s) :
    reduce s (p :: pending) g = reduce s pending (p.combine g) := by
  obtain ⟨-, h⟩ := h
  cases p with
  | binary op s' left => simp [reduce, h s hs, Pending.combine]
  | signed op => simp [reduce, Pending.combine]
  | power base => simp [reduce, Pending.combine]
  | update x op q => simp [hs] at h
  | paren => exact h.elim

theorem reduceAll_cons (h : p ≠ .paren) :
    reduceAll (p :: pending) g = reduceAll pending (p.combine g) := by
  cases p <;> simp_all [reduceAll, Pending.combine]

theorem inParen_cons (h : p ≠ .paren) :
    inParen head (p :: pending) = inParen head pending := by
  cases p <;> simp_all [inParen]

/-- How an operand ends matters only to a name, and only at once. -/
theorem toOption_stepAfter_congr {c c' : Control} {ended' : Ended} :
    (stepAfter ⟨bs, ds, c⟩ head pending g ended o).toOption =
      (stepAfter ⟨bs, ds, c'⟩ head pending g ended' o).toOption := by
  unfold stepAfter
  split
  · split
    · rfl
    · split
      · rfl
      · rfl
  · split
    · rfl
    · rfl

theorem toOption_stepAfter_cons (hp : p ≠ .paren) {m : Machine} :
    (m.stepAfter head (p :: pending) g ended o).toOption =
      (m.stepAfter head pending (p.combine g) ended o).toOption := by
  unfold stepAfter
  rw [reduceAll_cons hp, inParen_cons hp]
  split
  · split
    · rfl
    · split
      · rfl
      · rfl
  · split
    · rfl
    · rfl

theorem stepOperator_binary {m : Machine} {s : Nat} (hs : o.terminal.strength? = some s) :
    m.stepOperator head pending g ended o =
      .ok ⟨m.blocks, m.done,
        .operand head (.binary o.text s (reduce s pending g).2 :: (reduce s pending g).1)⟩ := by
  simp only [stepOperator, hs]

theorem stepOperator_caret {m : Machine} (hc : o.terminal = .caret) :
    m.stepOperator head pending g ended o =
      .ok { m with control := .operand head (.power g :: pending) } := by
  simp only [stepOperator, hc]
  rfl

theorem stepOperator_equal {m : Machine} {x : String} {q : Position}
    (hc : o.terminal = .equal) :
    m.stepOperator head pending g (.firstName x q) o =
      .ok { m with control := .operand (.assign x q) [] } := by
  simp only [stepOperator, hc]
  rfl

theorem stepOperator_update {m : Machine} {x op : String} {q : Position}
    (hu : o.terminal.updateOperator? = some op)
    (he : ended = .name x q ∨ ended = .firstName x q) :
    m.stepOperator head pending g ended o =
      .ok { m with control := .operand head (.update x op q :: pending) } := by
  unfold stepOperator
  cases ht : o.terminal <;> simp only [ht, Terminal.updateOperator?, reduceCtorEq] at hu
  all_goals
    cases hu
    rcases he with rfl | rfl <;> rfl

theorem stepOperator_of_final {m : Machine} (hs : o.terminal.strength? = none)
    (hc : o.terminal ≠ .caret) (he : ended.Final o.terminal) :
    m.stepOperator head pending g ended o = m.stepAfter head pending g ended o := by
  unfold stepOperator
  rw [hs]
  dsimp only
  split <;> simp_all [Ended.Final]

/-- At a terminal that it yields to, a waiting operator may already have its
operand. -/
theorem toOption_step_cons (hp : p.Yields o.terminal) (he : ended.Final o.terminal) :
    (step ⟨bs, ds, .operator head (p :: pending) g ended⟩ o).toOption =
      (step ⟨bs, ds, .operator head pending (p.combine g) .closed⟩ o).toOption := by
  have hne : p ≠ .paren := by
    rintro rfl
    exact hp.2
  simp only [step]
  cases hs : o.terminal.strength? with
  | some s =>
    simp only [stepOperator, hs, reduce_cons_of_yields hp hs]
  | none =>
    have hc : Ended.closed.Final o.terminal := trivial
    rw [stepOperator_of_final hs hp.1 he, stepOperator_of_final hs hp.1 hc,
      toOption_stepAfter_cons hne, toOption_stepAfter_congr]

theorem verdict_cons_pending {s : Stream} (hs : s.Closed) (hp : p ≠ .paren)
    (h : s.Next fun t => p.Yields t ∧ ended.Final t) :
    verdict ⟨bs, ds, .operator head (p :: pending) g ended⟩ s =
      verdict ⟨bs, ds, .operator head pending (p.combine g) .closed⟩ s := by
  have hw : ∀ t, wanted ⟨bs, ds, .operator head (p :: pending) g ended⟩ t =
      wanted ⟨bs, ds, .operator head pending (p.combine g) .closed⟩ t := by
    intro t
    simp only [wanted, inParen_cons hp]
    rfl
  rcases hs.cases with ⟨e, rfl⟩ | ⟨t, rest, failure, rfl⟩
  · rfl
  · refine verdict_congr (fun _ => ?_) (fun _ => read_congr rfl ?_ (hw t))
    · unfold close
      rw [hw t]
      let c : Control := .boundary .start
      rw [toOption_finish_operator c, toOption_finish_operator c, inParen_cons hp,
        reduceAll_cons hp]
    · unfold move
      cases ho : Occurrence.ofToken? t with
      | none => rfl
      | some o =>
        have hn := h o.terminal (by simp [Token.terminal?, ho])
        exact toOption_step_cons hn.1 hn.2

/-- No statement begins with a terminal that cannot follow one. -/
theorem toOption_stepBoundary_eq_none {t : Token} {b : Boundary} {m : Machine}
    (ho : Occurrence.ofToken? t = some o) (h : Expected.statement.contains o.terminal = false) :
    (m.stepBoundary b o).toOption = none := by
  have hk : ∀ k : Terminal, Expected.statement.contains k = false →
      k.isOperand = false ∧ k.sign? = none ∧ k ≠ .leftParen := by
    intro k
    cases k <;> decide
  obtain ⟨hop, hsign, hparen⟩ := hk o.terminal h
  have hn : o.operand = none := by
    have hsome := Occurrence.isSome_operand ho
    rw [hop] at hsome
    simpa using hsome
  have htake : m.takeOperand (.evaluate o.position) [] true o = none := by
    simp [takeOperand, hn, hsign, hparen]
  unfold stepBoundary
  rw [htake]
  -- the other statements begin with terminals that may follow one
  split
  case h_9 => rfl
  all_goals
    rename_i ht
    rw [ht] at h
    cases h

/-- At a terminal that continues no expression, a statement may already have
ended. -/
theorem toOption_step_endStatement {t : Token} {c : Control} (ho : Occurrence.ofToken? t = some o)
    (hh : head.isParen = false) (hb : o.terminal.binding? = none) (he : ended.Final o.terminal) :
    (step ⟨bs, ds, .operator head [] g ended⟩ o).toOption =
      (step (endStatement ⟨bs, ds, c⟩ head g) o).toOption := by
  obtain ⟨hs, hc⟩ := Terminal.strength?_of_binding?_eq_none hb
  have hstep : step (endStatement ⟨bs, ds, c⟩ head g) o =
      (endStatement ⟨bs, ds, c⟩ head g).stepBoundary .separator o := by
    cases head <;> first | rfl | cases hh
  rw [hstep]
  simp only [step, stepOperator_of_final hs hc he, stepAfter, reduceAll]
  split
  · rename_i hr
    rw [toOption_stepBoundary_eq_none ho (by rw [hr]; decide)]
    simp [hh, Except.toOption]
  · cases hm : Expected.statement.contains o.terminal with
    | true =>
      have hp : inParen head [] = false := by simp [inParen, hh]
      have hd : endStatement ⟨bs, ds, .operator head [] g ended⟩ head g =
          endStatement ⟨bs, ds, c⟩ head g := by cases head <;> rfl
      simp [hp, hd]
    | false =>
      rw [toOption_stepBoundary_eq_none ho hm]
      rfl

theorem verdict_endStatement {s : Stream} {c : Control} (hs : s.Closed)
    (hh : head.isParen = false) (h : s.Next fun t => t.binding? = none ∧ ended.Final t) :
    verdict ⟨bs, ds, .operator head [] g ended⟩ s =
      verdict (endStatement ⟨bs, ds, c⟩ head g) s := by
  have hp : inParen head [] = false := by simp [inParen, hh]
  have hw : ∀ t, wanted ⟨bs, ds, .operator head [] g ended⟩ t =
      wanted (endStatement ⟨bs, ds, c⟩ head g) t := by
    intro t
    rcases Head.cases_of_isParen hh with ⟨x, p, rfl⟩ | ⟨p, rfl⟩
    · simp only [wanted, hp]
      rfl
    · simp only [wanted, hp]
      rfl
  rcases hs.cases with ⟨e, rfl⟩ | ⟨t, rest, failure, rfl⟩
  · rfl
  · refine verdict_congr (fun _ => ?_) (fun _ => read_congr ?_ ?_ (hw t))
    · unfold close
      rw [hw t, toOption_finish_operator c, hp]
      rfl
    · cases head <;> rfl
    · unfold move
      cases ho : Occurrence.ofToken? t with
      | none => rfl
      | some o =>
        have hn := h o.terminal (by simp [Token.terminal?, ho])
        exact toOption_step_endStatement ho hh hn.1 hn.2

/-- A branch without a second block ends where none follows. -/
theorem verdict_afterThen {s : Stream} {c blk : Grown} {p : Position} (hs : s.Closed)
    (h : s.Next fun t => t ≠ .otherwise) :
    verdict ⟨bs, ds, .afterThen c blk p⟩ s =
      verdict ⟨bs, branchOf c blk none p :: ds, .boundary .brace⟩ s := by
  rcases hs.cases with ⟨e, rfl⟩ | ⟨t, rest, failure, rfl⟩
  · rfl
  · refine verdict_congr (fun _ => ?_) (fun _ => read_congr rfl ?_ rfl)
    · rfl
    · unfold move
      cases ho : Occurrence.ofToken? t with
      | none => rfl
      | some o =>
        have hn := h o.terminal (by simp [Token.terminal?, ho])
        simp [step, hn]
        rfl

/-- A statement that no keyword or bracket begins is an expression or an assignment. -/
theorem toOption_stepBoundary_of_operand {m : Machine} {b : Boundary}
    (h : o.terminal ∉
      [.print, .branch, .loop, .input, .leave, .leftBrace, .semicolon, .rightBrace]) :
    (m.stepBoundary b o).toOption = m.takeOperand (.evaluate o.position) [] true o := by
  unfold stepBoundary
  split
  case h_9 => cases m.takeOperand (.evaluate o.position) [] true o <;> rfl
  all_goals
    rename_i ht
    simp [ht] at h

theorem toOption_step_operand :
    (step ⟨bs, ds, .operand head pending⟩ o).toOption =
      takeOperand ⟨bs, ds, .operand head pending⟩ head pending false o := by
  simp only [step]
  cases takeOperand ⟨bs, ds, .operand head pending⟩ head pending false o <;> rfl

/-- A name that begins a statement is like any other, unless it is assigned to. -/
theorem verdict_firstName {s : Stream} {x : String} {p : Position} (hs : s.Closed)
    (h : s.Next fun t => t ≠ .equal) :
    verdict ⟨bs, ds, .operator head pending g (.firstName x p)⟩ s =
      verdict ⟨bs, ds, .operator head pending g (.name x p)⟩ s := by
  rcases hs.cases with ⟨e, rfl⟩ | ⟨t, rest, failure, rfl⟩
  · rfl
  · refine verdict_congr (fun _ => ?_) (fun _ => read_congr rfl ?_ rfl)
    · let c : Control := .boundary .start
      unfold close
      rw [toOption_finish_operator c, toOption_finish_operator c]
      rfl
    · unfold move
      cases ho : Occurrence.ofToken? t with
      | none => rfl
      | some o =>
        have hn := h o.terminal (by simp [Token.terminal?, ho])
        simp only [Option.bind_some, step]
        cases hs : o.terminal.strength? with
        | some s => rw [stepOperator_binary hs, stepOperator_binary hs]
        | none =>
          by_cases hc : o.terminal = .caret
          · rw [stepOperator_caret hc, stepOperator_caret hc]
          cases hu : o.terminal.updateOperator? with
          | some op => rw [stepOperator_update hu (.inr rfl), stepOperator_update hu (.inl rfl)]
          | none =>
            have h₁ : (Ended.firstName x p).Final o.terminal := ⟨hu, hn⟩
            have h₂ : (Ended.name x p).Final o.terminal := hu
            rw [stepOperator_of_final hs hc h₁, stepOperator_of_final hs hc h₂,
              toOption_stepAfter_congr]

theorem verdict_evaluate_ident {t : Token} {rest : List Token} {failure : Option Error}
    {b : Boundary} {x : String} (hs : Stream.Closed ⟨t :: rest, failure⟩)
    (ht : t.symbol = .ident x) (h : Stream.Next ⟨rest, failure⟩ fun k => k ≠ .equal) :
    verdict ⟨bs, ds, .boundary b⟩ ⟨t :: rest, failure⟩ =
      verdict ⟨bs, ds, .operand (.evaluate t.position) []⟩ ⟨t :: rest, failure⟩ := by
  have hf : t.symbol.isFinish = false := by rw [ht]; rfl
  have hk : t.terminal? ≠ some .leave := by simp [Token.terminal?, Occurrence.ofToken?, ht]
  have h₁ : move ⟨bs, ds, .boundary b⟩ t = some ⟨bs, ds, .operator (.evaluate t.position) []
      (.leaf (.ident (.str x) (.of t.position))) (.firstName x t.position)⟩ := by
    simp only [move, Occurrence.ofToken?, ht]
    rfl
  have h₂ : move ⟨bs, ds, .operand (.evaluate t.position) []⟩ t =
      some ⟨bs, ds, .operator (.evaluate t.position) []
        (.leaf (.ident (.str x) (.of t.position))) (.name x t.position)⟩ := by
    simp only [move, Occurrence.ofToken?, ht]
    rfl
  rw [verdict_cons hf, verdict_cons hf, read_of_move h₁ hk, read_of_move h₂ hk]
  exact verdict_firstName (hs.tail hf) h

/-- Where a statement begins, the machine may already look for an expression if
the statement can be nothing else. -/
theorem verdict_evaluate {t : Token} {rest : List Token} {failure : Option Error} {b : Boundary}
    (hf : t.symbol.isFinish = false) (hx : ∀ x, t.symbol ≠ .ident x)
    (hk : ∀ k, t.terminal? = some k →
      k ∉ [.print, .branch, .loop, .input, .leave, .leftBrace, .semicolon, .rightBrace]) :
    verdict ⟨bs, ds, .boundary b⟩ ⟨t :: rest, failure⟩ =
      verdict ⟨bs, ds, .operand (.evaluate t.position) []⟩ ⟨t :: rest, failure⟩ := by
  refine verdict_congr (fun h => ?_) (fun _ => read_congr rfl ?_ ?_)
  · rw [hf] at h
    cases h
  · unfold move
    cases ho : Occurrence.ofToken? t with
    | none => rfl
    | some o =>
      have hn := hk o.terminal (by simp [Token.terminal?, ho])
      have hi : o.terminal ≠ .ident := fun hi =>
        (Occurrence.exists_ident ho hi).elim fun x h => hx x h
      simp only [Option.bind_some, step]
      rw [toOption_stepBoundary_of_operand hn, Occurrence.position_eq ho]
      change _ = (step ⟨bs, ds, .operand (.evaluate t.position) []⟩ o).toOption
      rw [toOption_step_operand]
      simp only [takeOperand]
  · simp [wanted, hf]

/-- Where no block is open, a closing brace is refused like any other token that
begins no statement. -/
theorem verdict_rightBrace {t : Token} {rest : List Token} {failure : Option Error}
    {b : Boundary} (ht : t.symbol = .mark "\x7d") :
    verdict ⟨[], ds, .boundary b⟩ ⟨t :: rest, failure⟩ =
      verdict ⟨[], ds, .operand head []⟩ ⟨t :: rest, failure⟩ := by
  refine verdict_congr (fun h => ?_) (fun _ => read_congr rfl ?_ ?_)
  · rw [Descent.isFinish_of_mark ht] at h
    cases h
  · simp only [move, Occurrence.ofToken?, ht]
    rfl
  · simp [wanted, inBlock]

/-- In parentheses, an expression that does not go on is followed by the closing one. -/
theorem verdict_inParen {t : Token} {rest : List Token} {failure : Option Error}
    (hp : inParen head pending = true) (ht : t.terminal? ≠ some .rightParen)
    (h : Stream.Next ⟨t :: rest, failure⟩ fun k => k.binding? = none ∧ ended.Final k) :
    verdict ⟨bs, ds, .operator head pending g ended⟩ ⟨t :: rest, failure⟩ =
      .error (unexpected (quote ")") t) := by
  have hw : wanted ⟨bs, ds, .operator head pending g ended⟩ t = quote ")" := by
    simp [wanted, hp]
  rw [← hw]
  refine verdict_refuse (fun _ => ?_) (fun _ => ?_)
  · rw [toOption_finish_operator (.boundary .start), hp]
    rfl
  · unfold move
    cases ho : Occurrence.ofToken? t with
    | none => rfl
    | some o =>
      have hk : t.terminal? = some o.terminal := by simp [Token.terminal?, ho]
      obtain ⟨hb, he⟩ := Stream.next_cons.1 h o.terminal hk
      obtain ⟨hs, hc⟩ := Terminal.strength?_of_binding?_eq_none hb
      simp only [Option.bind_some, step]
      rw [stepOperator_of_final hs hc he, stepAfter, hp]
      split
      · rename_i hr
        rw [hk, hr] at ht
        contradiction
      · simp [Except.toOption]

/-- Where an operand is wanted, nothing but an operand, a sign or a parenthesis
can stand. -/
theorem verdict_operand {t : Token} {rest : List Token} {failure : Option Error}
    (h : ∀ k, t.terminal? = some k → k.isOperand = false ∧ k.sign? = none ∧ k ≠ .leftParen) :
    verdict ⟨bs, ds, .operand head pending⟩ ⟨t :: rest, failure⟩ =
      .error (unexpected "expression" t) := by
  have hw : wanted ⟨bs, ds, .operand head pending⟩ t = "expression" := rfl
  rw [← hw]
  refine verdict_refuse (fun _ => rfl) (fun _ => ?_)
  unfold move
  cases ho : Occurrence.ofToken? t with
  | none => rfl
  | some o =>
    obtain ⟨h₁, h₂, h₃⟩ := h o.terminal (by simp [Token.terminal?, ho])
    have hn : o.operand = none := by
      have ho := Occurrence.isSome_operand ho
      rw [h₁] at ho
      simpa using ho
    rw [Option.bind_some, toOption_step_operand, takeOperand]
    simp [hn, h₂, h₃]

end Collapse

end Machine
end ShiftReduce
end Scriptling
