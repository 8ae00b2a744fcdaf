import Scriptling.Proofs.Follows
import Scriptling.Proofs.Grammar

/-!
# Expressions and the machine

Reading an expression of a level takes the machine from waiting for an operand to
the point behind one, with the same operators waiting for it. The tree is the one
that was read, and the next token continues no expression of the level.
-/
namespace Scriptling.Descent

open ShiftReduce

namespace Level

/-- How strongly the operators of a level bind. -/
def strength : Level → Nat
  | .expression | .disjunction => 1
  | .conjunction => 2
  | .comparison => 3
  | .sum => 4
  | .product => 5
  | .signed | .power => 6
  | .assignment | .primary => 7

/-- How many levels are entered from one on before a token is taken. -/
def depth : Level → Nat
  | .expression => 10
  | .disjunction => 9
  | .conjunction => 8
  | .comparison => 7
  | .sum => 6
  | .product => 5
  | .signed => 4
  | .power => 3
  | .assignment => 2
  | .primary => 1

end Level

theorem mem_operators_iff {level : Level} (h : level.operators ≠ []) {text : String} :
    text ∈ level.operators ↔
      ∃ t, Terminal.ofMark? text = some t ∧ t.binding? = some level.strength := by
  simp only [Terminal.ofMark?_eq_some_iff]
  constructor
  · have key : ∀ text ∈ level.operators, ∃ t ∈ Terminal.all, (t.text? = some text ∧
        t ≠ .truth ∧ t ≠ .falsity) ∧ t.binding? = some level.strength := by
      cases level <;> decide
    intro hm
    obtain ⟨t, -, ht⟩ := key text hm
    exact ⟨t, ht⟩
  · have key : level.operators ≠ [] → ∀ t ∈ Terminal.all, ∀ text ∈ t.text?,
        t.binding? = some level.strength → text ∈ level.operators := by
      cases level <;> decide
    rintro ⟨t, ⟨ht, -⟩, hs⟩
    exact key h t t.mem_all text ht hs

/-- The innermost operator that waits leaves an operand to operators of the given
strength. -/
def Enters (strength : Nat) : List Pending → Prop
  | .binary _ s _ :: _ => s < strength
  | .signed _ :: _ | .power _ :: _ => 5 < strength
  | _ => True

theorem Enters.mono {j k : Nat} {pending : List Pending} (h : Enters j pending) (hjk : j ≤ k) :
    Enters k pending := by
  unfold Enters at h ⊢
  split at h <;> omega

theorem reduce_of_enters {k : Nat} {pending : List Pending} (h : Enters k pending) (hk : k ≤ 5)
    (g : Grown) : Machine.reduce k pending g = (pending, g) := by
  cases pending with
  | nil => rfl
  | cons p rest =>
    cases p with
    | binary op s left =>
      have hs : s < k := h
      rw [Machine.reduce, if_neg (by omega)]
    | signed op =>
      have hs : 5 < k := h
      omega
    | power base =>
      have hs : 5 < k := h
      omega
    | update x op p => rfl
    | paren => rfl

/-- The next token neither binds as strongly as given nor assigns to a name that
has just been read. -/
def Stops (strength : Nat) (ended : Ended) (s : Stream) : Prop :=
  s.Next fun t => (∀ k, t.binding? = some k → k < strength) ∧ ended.Final t

/-- What has been read is an operand of the given strength. -/
def Grew (strength : Nat) (m : Machine) (head : Head) (pending : List Pending) (n : Node)
    (next : Machine) (rest : Stream) : Prop :=
  ∃ g ended, next = ⟨m.blocks, m.done, .operator head pending g ended⟩ ∧ g.node = n ∧
    Stops strength ended rest

theorem ne_caret_of_stops {k : Nat} {t : Terminal} (h : ∀ i, t.binding? = some i → i < k)
    (hk : k ≤ 6) : t ≠ .caret := by
  rintro rfl
  have := h 6 rfl
  omega

theorem stops_of_operator?_eq_none (level : Level) {t : Token} {rest : List Token}
    {failure : Option Error} {ended : Ended} (hl : level.operators ≠ [])
    (h : Stops (level.strength + 1) ended ⟨t :: rest, failure⟩)
    (ho : operator? level.operators t = none) :
    Stops level.strength ended ⟨t :: rest, failure⟩ := by
  intro k hk
  refine ⟨fun i hi => ?_, (h k hk).2⟩
  have hle := (h k hk).1 i hi
  have hne : i ≠ level.strength := by
    rintro rfl
    obtain ⟨text, hs, hm⟩ := Token.exists_mark hk (Terminal.isOperand_of_binding? hi)
    have hmem := (mem_operators_iff hl).2 ⟨k, hm, hi⟩
    rw [operator?_eq_some_iff.2 ⟨hs, hmem⟩] at ho
    cases ho
  omega

section Chain

variable (level : Level) {operand : Reading Node} {short : Prop} {m : Machine} {head : Head}
  {pending : List Pending}

/-- The rest of a chain follows the machine if its operands do. -/
theorem chain_follows (hl : level.operators ≠ []) (hk : level.strength ≤ 5)
    (hp : Enters level.strength pending) (count : Nat)
    (hop : ∀ pending s, s.Closed → s.tokens.length < count → Enters (level.strength + 1) pending →
      Follows short operand ⟨m.blocks, m.done, .operand head pending⟩ s
        (Grew (level.strength + 1) m head pending))
    (counter : List Token) (g : Grown) (ended : Ended) (s : Stream) (hs : s.Closed)
    (hc : s.tokens.length < counter.length) (hn : s.tokens.length ≤ count)
    (hst : Stops (level.strength + 1) ended s) :
    Follows short (chain level.operators operand counter g.node)
      ⟨m.blocks, m.done, .operator head pending g ended⟩ s
      (Grew level.strength m head pending) := by
  -- the counter has more entries than the stream has tokens, so it does not run out
  induction counter generalizing g ended s with
  | nil => simp at hc
  | cons _ more ih =>
    unfold chain
    refine .peek hs fun t rest failure h => ?_
    subst h
    cases ho : operator? level.operators t with
    | none =>
      exact .pure hs ⟨g, ended, rfl, rfl, stops_of_operator?_eq_none level hl hst ho⟩
    | some op =>
      obtain ⟨ht, hm⟩ := operator?_eq_some_iff.1 ho
      obtain ⟨k, hk', hb⟩ := (mem_operators_iff hl).1 hm
      have hb' : k.strength? = some level.strength := by
        have hc : k ≠ .caret := by
          rintro rfl
          simp [Terminal.binding?] at hb
          omega
        simpa [Terminal.binding?, hc] using hb
      have hr : Machine.read ⟨m.blocks, m.done, .operator head pending g ended⟩ t =
          .ok ⟨m.blocks, m.done, .operand head (.binary op level.strength g :: pending)⟩ := by
        refine Machine.read_mark _ ht hk' ?_ ?_
        · rintro rfl
          cases hb
        · simp only [Machine.step]
          rw [Machine.stepOperator_binary (o := ⟨k, op, t.position, none⟩) hb',
            reduce_of_enters hp hk]
      refine .bind (.advance hs (isFinish_of_mark ht) hr) ?_
      rintro _ _ _ hc' _ ⟨rfl, rfl⟩
      simp only [List.length_cons] at hc hn
      refine .bind (hop (.binary op level.strength g :: pending) _ hc' (by simp only; omega) ?_) ?_
      · exact Nat.lt_succ_self _
      · rintro right _ rest' hc'' hl' ⟨g', ended', rfl, rfl, hst'⟩
        simp only at hl'
        refine .of_verdict (ih (.chained op level.strength g g') .closed rest' hc'' (by omega)
          (by omega) ?_) ?_
        · exact fun t ht => ⟨(hst' t ht).1, trivial⟩
        · refine Machine.verdict_cons_pending hc'' (by simp) fun t ht => ⟨⟨?_, ?_⟩, (hst' t ht).2⟩
          · exact ne_caret_of_stops (hst' t ht).1 (by omega)
          · intro k hk
            exact Nat.le_of_lt_succ ((hst' t ht).1 k (Terminal.binding?_of_strength? hk))

/-- A chain of operands follows the machine if the operands do. -/
theorem leftGrouped_follows (hl : level.operators ≠ []) (hk : level.strength ≤ 5)
    (hp : Enters level.strength pending) {s : Stream} (hs : s.Closed)
    (hop : ∀ pending s', s'.Closed → s'.tokens.length ≤ s.tokens.length →
      Enters (level.strength + 1) pending →
      Follows short operand ⟨m.blocks, m.done, .operand head pending⟩ s'
        (Grew (level.strength + 1) m head pending)) :
    Follows short (leftGrouped level.operators operand)
      ⟨m.blocks, m.done, .operand head pending⟩ s (Grew level.strength m head pending) := by
  refine .bind (hop pending s hs (Nat.le_refl _) (hp.mono (Nat.le_succ _))) ?_
  rintro first _ rest hc hn ⟨g, ended, rfl, rfl, hst⟩
  refine .look (a := rest) rfl ?_
  exact chain_follows level hl hk hp s.tokens.length
    (fun pending s' hs' hn' => hop pending s' hs' (Nat.le_of_lt hn')) _ g ended rest hc
    (by simp) hn hst

end Chain

/-- Where an expression of a level may begin: signs, and assignments to a name,
are read by looser levels. -/
def Begins : Level → Stream → Prop
  | .power, s | .assignment, s => s.Next fun t => t.sign? = none
  | .primary, s => (s.Next fun t => t.sign? = none) ∧
      ∀ t u rest x, s.tokens = t :: u :: rest → t.symbol = .ident x → updateOperator? u = none
  | _, _ => True

/-- The expressions within a budget follow the machine. The budget is short if
the tokens of the stream could be nested more deeply. -/
def ExpressionFollows (budget : Nat) : Prop :=
  ∀ (level : Level) (m : Machine) (head : Head) (pending : List Pending) (s : Stream), s.Closed →
    Enters level.strength pending → Begins level s →
    Follows (budget < 12 * s.tokens.length + level.depth) (expression budget level)
      ⟨m.blocks, m.done, .operand head pending⟩ s (Grew level.strength m head pending)

theorem ne_of_ofMark?_eq_none {text op : String} {k : Terminal} (h : Terminal.ofMark? text = none)
    (ho : Terminal.ofMark? op = some k) : text ≠ op := by
  rintro rfl
  cases h.symm.trans ho

theorem updateOperator?_eq (t : Token) :
    updateOperator? t = t.terminal?.bind Terminal.updateOperator? := by
  cases hs : t.symbol with
  | mark text =>
    rw [Token.terminal?_of_mark hs]
    simp only [updateOperator?, hs]
    cases hk : Terminal.ofMark? text with
    | some k =>
      have ht := (Terminal.ofMark?_eq_some_iff.1 hk).1
      cases k <;> cases ht <;> rfl
    | none =>
      have h₁ := ne_of_ofMark?_eq_none hk (by decide : Terminal.ofMark? "+=" = some .plusEq)
      have h₂ := ne_of_ofMark?_eq_none hk (by decide : Terminal.ofMark? "-=" = some .minusEq)
      have h₃ := ne_of_ofMark?_eq_none hk (by decide : Terminal.ofMark? "*=" = some .starEq)
      have h₄ := ne_of_ofMark?_eq_none hk (by decide : Terminal.ofMark? "/=" = some .slashEq)
      have h₅ := ne_of_ofMark?_eq_none hk (by decide : Terminal.ofMark? "%=" = some .percentEq)
      simp [h₁, h₂, h₃, h₄, h₅]
  | bool b =>
    cases b <;> simp [updateOperator?, Token.terminal?, Occurrence.ofToken?, hs,
      Terminal.updateOperator?]
  | _ =>
    simp [updateOperator?, Token.terminal?, Occurrence.ofToken?, hs, Terminal.updateOperator?]

theorem operator?_sign (t : Token) :
    operator? ["-", "!"] t = t.terminal?.bind Terminal.sign? := by
  cases hs : t.symbol with
  | mark text =>
    rw [Token.terminal?_of_mark hs]
    simp only [operator?, hs]
    cases hk : Terminal.ofMark? text with
    | some k =>
      have ht := (Terminal.ofMark?_eq_some_iff.1 hk).1
      cases k <;> cases ht <;> rfl
    | none =>
      have h₁ := ne_of_ofMark?_eq_none hk (by decide : Terminal.ofMark? "-" = some .minus)
      have h₂ := ne_of_ofMark?_eq_none hk (by decide : Terminal.ofMark? "!" = some .bang)
      simp [h₁, h₂]
  | bool b => cases b <;> simp [operator?, Token.terminal?, Occurrence.ofToken?, hs, Terminal.sign?]
  | _ => simp [operator?, Token.terminal?, Occurrence.ofToken?, hs, Terminal.sign?]

theorem read_ident {m : Machine} {head : Head} {pending : List Pending} {t : Token} {x : String}
    (ht : t.symbol = .ident x) :
    Machine.read ⟨m.blocks, m.done, .operand head pending⟩ t =
      .ok ⟨m.blocks, m.done, .operator head pending
        (.leaf (.ident (.str x) (.of t.position))) (.name x t.position)⟩ := by
  refine Machine.read_of_move ?_ ?_
  · simp only [Machine.move, Occurrence.ofToken?, ht]
    rfl
  · simp [Token.terminal?, Occurrence.ofToken?, ht]

theorem read_rightParen {m : Machine} {head : Head} {pending : List Pending} {g : Grown}
    {ended : Ended} {t : Token} (ht : t.symbol = .mark ")") :
    Machine.read ⟨m.blocks, m.done, .operator head (.paren :: pending) g ended⟩ t =
      .ok ⟨m.blocks, m.done, .operator head pending g.enclosed .closed⟩ := by
  refine Machine.read_mark .rightParen ht (by decide) (by decide) ?_
  simp only [Machine.step]
  have he : ended.Final .rightParen := by
    cases ended <;> simp [Ended.Final, Terminal.updateOperator?]
  rw [Machine.stepOperator_of_final rfl (by simp) he]
  rfl

theorem stops_closed {s : Stream} : Stops 7 .closed s :=
  fun _ _ => ⟨fun _ hi => (Terminal.binding?_bounds hi).2, trivial⟩

theorem binding?_eq_none_of_stops {ended : Ended} {s : Stream} (h : Stops 1 ended s) :
    s.Next fun t => t.binding? = none := by
  intro t ht
  cases hb : t.binding? with
  | none => rfl
  | some k =>
    have := (h t ht).1 k hb
    have := (Terminal.binding?_bounds hb).1
    omega

/-- The tree of a symbol that is a literal. -/
def literal? : Symbol → Option Node
  | .number x => some (.number x)
  | .string s => some (.string s)
  | .bool b => some (.bool b)
  | _ => none

theorem read_literal {m : Machine} {head : Head} {pending : List Pending} {t : Token} {n : Node}
    (h : literal? t.symbol = some n) :
    Machine.read ⟨m.blocks, m.done, .operand head pending⟩ t =
      .ok ⟨m.blocks, m.done, .operator head pending (.leaf n) .closed⟩ := by
  unfold literal? at h
  split at h
  case h_3 b hb =>
    cases h
    refine Machine.read_of_move ?_ ?_
    · cases b <;> simp only [Machine.move, Occurrence.ofToken?, hb] <;> rfl
    · cases b <;> simp [Token.terminal?, Occurrence.ofToken?, hb]
  case h_4 => cases h
  all_goals
    rename_i hs
    cases h
    refine Machine.read_of_move ?_ ?_
    · simp only [Machine.move, Occurrence.ofToken?, hs]
      rfl
    · simp [Token.terminal?, Occurrence.ofToken?, hs]

/-- A literal is read in one step. -/
theorem literal_follows {short : Prop} {m : Machine} {head : Head} {pending : List Pending}
    {t : Token} {rest : List Token} {failure : Option Error} {n : Node}
    (hs : Stream.Closed ⟨t :: rest, failure⟩) (hl : literal? t.symbol = some n) :
    Follows short (do advance; return n) ⟨m.blocks, m.done, .operand head pending⟩
      ⟨t :: rest, failure⟩ (Grew 7 m head pending) := by
  have hf : t.symbol.isFinish = false := by
    cases ht : t.symbol <;> simp_all [literal?, Symbol.isFinish]
  refine .bind (.advance hs hf (read_literal hl)) ?_
  rintro _ _ _ hc _ ⟨rfl, rfl⟩
  exact .pure hc ⟨.leaf n, .closed, rfl, rfl, stops_closed⟩

theorem consume_follows {short : Prop} {m : Machine} {s : Stream} {text : String} (hs : s.Closed)
    (hok : ∀ t, t.symbol = .mark text → ∃ next, m.read t = .ok next)
    (hno : ∀ t rest failure, s = ⟨t :: rest, failure⟩ → t.symbol ≠ .mark text →
      m.verdict ⟨t :: rest, failure⟩ = .error (unexpected (quote text) t)) :
    Follows short (consume text) m s fun t next rest =>
      t.symbol = .mark text ∧ m.read t = .ok next ∧ rest.tokens.length < s.tokens.length := by
  unfold consume
  refine .peek hs fun t rest failure h => ?_
  subst h
  by_cases ht : t.symbol = .mark text
  · obtain ⟨next, hr⟩ := hok t ht
    rw [if_pos (Symbol.isMark_iff.2 ht)]
    refine .bind (.advance hs (isFinish_of_mark ht) hr) ?_
    rintro _ _ _ hc _ ⟨rfl, rfl⟩
    exact .pure hc ⟨ht, hr, by simp⟩
  · rw [if_neg (by rwa [Symbol.isMark_iff])]
    exact .throw (hno t rest failure rfl ht)

section Levels

variable {budget : Nat} (ih : ExpressionFollows budget) {m : Machine} {head : Head}
  {pending : List Pending} {s : Stream}

include ih

theorem signed_follows (hs : s.Closed) (hp : Enters 6 pending) :
    Follows (budget + 1 < 12 * s.tokens.length + 4) (expression (budget + 1) .signed)
      ⟨m.blocks, m.done, .operand head pending⟩ s (Grew 6 m head pending) := by
  unfold expression
  refine .peek hs fun t rest failure h => ?_
  subst h
  cases ho : operator? ["-", "!"] t with
  | none =>
    refine (ih .power m head pending _ hs hp ?_).weaken ?_
    · rw [operator?_sign] at ho
      exact Stream.next_cons.2 fun k hk => by simpa [hk] using ho
    · simp only [Level.depth]
      omega
  | some op =>
    obtain ⟨ht, hm⟩ := operator?_eq_some_iff.1 ho
    have hr : Machine.read ⟨m.blocks, m.done, .operand head pending⟩ t =
        .ok ⟨m.blocks, m.done, .operand head (.signed op :: pending)⟩ := by
      simp only [List.mem_cons, List.not_mem_nil, or_false] at hm
      rcases hm with rfl | rfl
      · exact Machine.read_mark .minus ht (by decide) (by decide) rfl
      · exact Machine.read_mark .bang ht (by decide) (by decide) rfl
    refine .bind (.advance hs (isFinish_of_mark ht) hr) ?_
    rintro _ _ _ hc _ ⟨rfl, rfl⟩
    refine .bind ((ih .signed m head (.signed op :: pending) _ hc (by simp [Enters, Level.strength])
      trivial).weaken ?_) ?_
    · simp only [Level.depth, List.length_cons]
      omega
    · rintro n _ rest' hc' hl' ⟨g, ended, rfl, rfl, hst⟩
      refine .of_verdict (.pure hc' ⟨Pending.combine (.signed op) g, .closed, rfl, rfl, ?_⟩) ?_
      · exact fun t ht => ⟨(hst t ht).1, trivial⟩
      · refine Machine.verdict_cons_pending hc' (by simp) fun t ht => ⟨⟨?_, trivial⟩, (hst t ht).2⟩
        exact ne_caret_of_stops (hst t ht).1 (by simp [Level.strength])

theorem power_follows (hs : s.Closed) (hp : Enters 6 pending) (hb : Begins .power s) :
    Follows (budget + 1 < 12 * s.tokens.length + 3) (expression (budget + 1) .power)
      ⟨m.blocks, m.done, .operand head pending⟩ s (Grew 6 m head pending) := by
  unfold expression
  refine .bind ((ih .assignment m head pending s hs (hp.mono (by decide)) hb).weaken ?_) ?_
  · simp only [Level.depth]
    omega
  rintro base _ rest hc hl ⟨g, ended, rfl, rfl, hst⟩
  refine .peek hc fun t rest' failure h => ?_
  subst h
  cases ho : operator? ["^"] t with
  | none =>
    exact .pure hc ⟨g, ended, rfl, rfl,
      stops_of_operator?_eq_none .power (by decide) hst ho⟩
  | some op =>
    obtain ⟨ht, hm⟩ := operator?_eq_some_iff.1 ho
    obtain rfl : op = "^" := by simpa using hm
    have hr : Machine.read ⟨m.blocks, m.done, .operator head pending g ended⟩ t =
        .ok ⟨m.blocks, m.done, .operand head (.power g :: pending)⟩ :=
      Machine.read_mark .caret ht (by decide) (by decide) rfl
    refine .bind (.advance hc (isFinish_of_mark ht) hr) ?_
    rintro _ _ _ hc' _ ⟨rfl, rfl⟩
    refine .bind ((ih .signed m head (.power g :: pending) _ hc' (by simp [Enters, Level.strength])
      trivial).weaken ?_) ?_
    · simp only [Level.depth, List.length_cons] at hl ⊢
      omega
    · rintro n _ rest'' hc'' hl' ⟨g', ended', rfl, rfl, hst'⟩
      refine .of_verdict (.pure hc'' ⟨Pending.combine (.power g) g', .closed, rfl, rfl, ?_⟩) ?_
      · exact fun t ht => ⟨(hst' t ht).1, trivial⟩
      · refine Machine.verdict_cons_pending hc'' (by simp)
          fun t ht => ⟨⟨?_, trivial⟩, (hst' t ht).2⟩
        exact ne_caret_of_stops (hst' t ht).1 (by simp [Level.strength])

theorem assignment_follows (hs : s.Closed) (hp : Enters 7 pending) (hb : Begins .assignment s) :
    Follows (budget + 1 < 12 * s.tokens.length + 2) (expression (budget + 1) .assignment)
      ⟨m.blocks, m.done, .operand head pending⟩ s (Grew 7 m head pending) := by
  unfold expression
  refine .peek hs fun t rest failure h => ?_
  subst h
  have hprim : (∀ u rest' x, rest = u :: rest' → t.symbol = .ident x → updateOperator? u = none) →
      Follows (budget + 1 < 12 * (t :: rest).length + 2) (expression budget .primary)
        ⟨m.blocks, m.done, .operand head pending⟩ ⟨t :: rest, failure⟩ (Grew 7 m head pending) := by
    intro hu
    refine (ih .primary m head pending _ hs hp ⟨hb, ?_⟩).weaken ?_
    · intro t' u rest' x h
      cases h
      exact hu u rest' x rfl
    · simp only [Level.depth]
      omega
  dsimp only
  split
  · rename_i name ht
    have hr : Machine.read ⟨m.blocks, m.done, .operand head pending⟩ t =
        .ok ⟨m.blocks, m.done, .operator head pending
          (.leaf (.ident (.str name) (.of t.position))) (.name name t.position)⟩ :=
      read_ident ht
    have hf : t.symbol.isFinish = false := by rw [ht]; rfl
    refine .peekSecond hs hf hr fun u rest' h => ?_
    subst h
    cases hu : updateOperator? u with
    | none =>
      refine hprim fun u' rest'' x h _ => ?_
      cases h
      exact hu
    | some op =>
      rw [updateOperator?_eq, Option.bind_eq_some_iff] at hu
      obtain ⟨k, hk, hop⟩ := hu
      obtain ⟨text, ht', hm⟩ := Token.exists_mark hk (Terminal.isOperand_of_updateOperator? hop)
      have hr' : Machine.read ⟨m.blocks, m.done, .operator head pending
            (.leaf (.ident (.str name) (.of t.position))) (.name name t.position)⟩ u =
          .ok ⟨m.blocks, m.done, .operand head (.update name op t.position :: pending)⟩ := by
        refine Machine.read_mark _ ht' hm ?_ (Machine.stepOperator_update hop (.inl rfl))
        rintro rfl
        cases hop
      refine .bind (.advance hs hf hr) ?_
      rintro _ _ _ hc _ ⟨rfl, rfl⟩
      refine .bind (.advance hc (isFinish_of_mark ht') hr') ?_
      rintro _ _ _ hc' _ ⟨rfl, rfl⟩
      refine .bind ((ih .expression m head (.update name op t.position :: pending) _ hc' trivial
        trivial).weaken ?_) ?_
      · simp only [Level.depth, List.length_cons]
        omega
      · rintro n _ rest'' hc'' hl' ⟨g, ended, rfl, rfl, hst⟩
        refine .of_verdict (.pure hc''
          ⟨Pending.combine (.update name op t.position) g, .closed, rfl, rfl, ?_⟩) ?_
        · exact fun t ht => ⟨fun i hi => Nat.lt_trans ((hst t ht).1 i hi) (by decide), trivial⟩
        · refine Machine.verdict_cons_pending hc'' (by simp) fun t ht => ⟨⟨?_, ?_⟩, (hst t ht).2⟩
          · exact ne_caret_of_stops (hst t ht).1 (by decide)
          · exact (Terminal.strength?_of_binding?_eq_none (binding?_eq_none_of_stops hst t ht)).1
  · rename_i hx
    exact hprim fun u rest' x _ h => (hx x h).elim

omit ih in
theorem stops_of_ident {t : Token} {rest : List Token} {failure : Option Error} {x : String}
    (h : ∀ u rest', rest = u :: rest' → updateOperator? u = none) :
    Stops 7 (.name x t.position) ⟨rest, failure⟩ := by
  intro k hk
  refine ⟨fun i hi => (Terminal.binding?_bounds hi).2, ?_⟩
  cases rest with
  | nil => cases hk
  | cons u rest' =>
    have hu := h u rest' rfl
    have hk : u.terminal? = some k := hk
    rwa [updateOperator?_eq, hk] at hu

theorem primary_follows (hs : s.Closed) (hb : Begins .primary s) :
    Follows (budget + 1 < 12 * s.tokens.length + 1) (expression (budget + 1) .primary)
      ⟨m.blocks, m.done, .operand head pending⟩ s (Grew 7 m head pending) := by
  obtain ⟨hb, hu⟩ := hb
  unfold expression
  refine .peek hs fun t rest failure h => ?_
  subst h
  dsimp only
  split
  · rename_i x ht
    exact literal_follows hs (by rw [ht]; rfl)
  · rename_i x ht
    exact literal_follows hs (by rw [ht]; rfl)
  · rename_i x ht
    exact literal_follows hs (by rw [ht]; rfl)
  · rename_i x ht
    have hf : t.symbol.isFinish = false := by rw [ht]; rfl
    refine .bind (.advance hs hf (read_ident ht)) ?_
    rintro _ _ _ hc _ ⟨rfl, rfl⟩
    refine .pure hc ⟨_, _, rfl, rfl, stops_of_ident fun u rest' h => ?_⟩
    exact hu t u rest' x (by rw [h]) ht
  · rename_i ht
    have hr : Machine.read ⟨m.blocks, m.done, .operand head pending⟩ t =
        .ok ⟨m.blocks, m.done, .operand head (.paren :: pending)⟩ :=
      Machine.read_mark .leftParen ht (by decide) (by decide) rfl
    refine .bind (.advance hs (isFinish_of_mark ht) hr) ?_
    rintro _ _ _ hc _ ⟨rfl, rfl⟩
    refine .bind ((ih .expression m head (.paren :: pending) _ hc trivial
      trivial).weaken ?_) ?_
    · simp only [Level.depth, List.length_cons]
      omega
    rintro n _ rest' hc' hl ⟨g, ended, rfl, rfl, hst⟩
    refine .bind (consume_follows hc' (fun u hu => ⟨_, read_rightParen hu⟩)
      fun u rest'' failure' h hu => ?_) ?_
    · subst h
      refine Machine.verdict_inParen (by simp [Machine.inParen]) ?_ ?_
      · exact fun hk => hu ((Token.terminal?_eq_iff (by decide)).1 hk)
      · exact fun k hk => ⟨binding?_eq_none_of_stops hst k hk, (hst k hk).2⟩
    · rintro u _ rest'' hc'' hl' ⟨hu, hr', -⟩
      cases (read_rightParen hu).symm.trans hr'
      exact .pure hc'' ⟨g.enclosed, .closed, rfl, rfl, stops_closed⟩
  · rename_i h₁ h₂ h₃ h₄ h₅
    refine .throw (Machine.verdict_operand fun k hk => ⟨?_, Stream.next_cons.1 hb k hk, ?_⟩)
    · cases ht : t.symbol with
      | mark text =>
        rw [Token.terminal?_of_mark ht] at hk
        exact Terminal.isOperand_of_ofMark? hk
      | finish => simp [Token.terminal?, Occurrence.ofToken?, ht] at hk
      | number x => exact (h₁ x ht).elim
      | string x => exact (h₂ x ht).elim
      | bool x => exact (h₃ x ht).elim
      | ident x => exact (h₄ x ht).elim
    · rintro rfl
      exact h₅ ((Token.terminal?_eq_iff (by decide)).1 hk)

end Levels

/-- Expressions follow the machine, whatever their level and the budget. -/
theorem expression_follows (budget : Nat) : ExpressionFollows budget := by
  induction budget with
  | zero =>
    intro level m head pending s hs hp hb
    constructor
    · intro n rest hr
      cases hr
    · intro e hr
      cases hr
      refine .inl ⟨rfl, ?_⟩
      cases level <;> simp [Level.depth]
  | succ budget ih =>
    intro level m head pending s hs hp hb
    -- an operand of a chain is one level tighter, on the same tokens or fewer
    have hop : ∀ level' : Level, Begins level' = Begins .expression →
        ∀ pending s', s'.Closed → s'.tokens.length ≤ s.tokens.length →
        Enters level'.strength pending →
        Follows (budget + 1 < 12 * s.tokens.length + (level'.depth + 1)) (expression budget level')
          ⟨m.blocks, m.done, .operand head pending⟩ s' (Grew level'.strength m head pending) := by
      intro level' hb' pending s' hs' hl hp'
      refine (ih level' m head pending s' hs' hp' (by rw [hb']; trivial)).weaken ?_
      omega
    cases level with
    | expression => exact hop .disjunction rfl pending s hs (Nat.le_refl _) hp
    | disjunction =>
      exact leftGrouped_follows .disjunction (by decide) (by decide) hp hs (hop .conjunction rfl)
    | conjunction =>
      exact leftGrouped_follows .conjunction (by decide) (by decide) hp hs (hop .comparison rfl)
    | comparison =>
      exact leftGrouped_follows .comparison (by decide) (by decide) hp hs (hop .sum rfl)
    | sum =>
      exact leftGrouped_follows .sum (by decide) (by decide) hp hs (hop .product rfl)
    | product =>
      exact leftGrouped_follows .product (by decide) (by decide) hp hs (hop .signed rfl)
    | signed => exact signed_follows ih hs hp
    | power => exact power_follows ih hs hp hb
    | assignment => exact assignment_follows ih hs hp hb
    | primary => exact primary_follows ih hs hb

end Scriptling.Descent
