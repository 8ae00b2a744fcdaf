import Scriptling.Proofs.Soundness

/-!
# Readings depend on the tokens that they look at

A stream that fails behind some tokens can be exchanged for one that goes on there.
A reading does the same on both, up to the point where it meets the failure. What
a reading says about tokens that it has got is thus not changed by what follows
them.
-/
namespace Scriptling.Descent

open Grammar

/-- The tokens that a stream may go on with instead of failing. -/
structure Continuation where
  failure : Error
  more : List Token
  failure' : Option Error

namespace Continuation

/-- The stream that fails behind the given tokens. -/
def cutOff (c : Continuation) (ts : List Token) : Stream := ⟨ts, some c.failure⟩

/-- The stream that goes on. -/
def goOn (c : Continuation) (ts : List Token) : Stream := ⟨ts ++ c.more, c.failure'⟩

theorem closed_cutOff (c : Continuation) (ts : List Token) : (c.cutOff ts).Closed :=
  .inl rfl

end Continuation

/-- The second reading does on a stream that goes on what the first one does on the
stream that is cut off. -/
structure Extends {α : Type} (c : Continuation) (r r' : Reading α) (ts : List Token) : Prop where
  ok : ∀ a rest, r.run (c.cutOff ts) = .ok (a, rest) →
    ∃ us, rest = c.cutOff us ∧ us.length ≤ ts.length ∧ r'.run (c.goOn ts) = .ok (a, c.goOn us)
  error : ∀ e, r.run (c.cutOff ts) = .error e → e = c.failure ∨ r'.run (c.goOn ts) = .error e

namespace Extends

variable {α β : Type} {c : Continuation} {r r' : Reading α} {ts : List Token}

theorem pure {a : α} : Extends c (pure a) (pure a) ts where
  ok _ _ h := by
    cases h
    exact ⟨ts, rfl, Nat.le_refl _, rfl⟩
  error _ h := by cases h

theorem throw {e : Error} : Extends c (throw e : Reading α) (throw e) ts where
  ok _ _ h := by cases h
  error _ h := by
    cases h
    exact .inr rfl

theorem bind {k k' : α → Reading β} (h : Extends c r r' ts)
    (hk : ∀ a us, us.length ≤ ts.length → r.run (c.cutOff ts) = .ok (a, c.cutOff us) →
      Extends c (k a) (k' a) us) :
    Extends c (r >>= k) (r' >>= k') ts where
  ok b rest hr := by
    obtain ⟨a, s, ha, hb⟩ := run_bind_eq_ok_iff.1 hr
    obtain ⟨us, rfl, hl, ha'⟩ := h.ok a s ha
    obtain ⟨vs, rfl, hl', hb'⟩ := (hk a us hl ha).ok b rest hb
    exact ⟨vs, rfl, Nat.le_trans hl' hl, run_bind_eq_ok_iff.2 ⟨a, _, ha', hb'⟩⟩
  error e hr := by
    rcases run_bind_eq_error_iff.1 hr with he | ⟨a, s, ha, he⟩
    · exact (h.error e he).imp_right fun he' => run_bind_eq_error_iff.2 (.inl he')
    · obtain ⟨us, rfl, hl, ha'⟩ := h.ok a s ha
      exact ((hk a us hl ha).error e he).imp_right fun he' =>
        run_bind_eq_error_iff.2 (.inr ⟨a, _, ha', he'⟩)

/-- A look at tokens that both streams have. -/
theorem look {look : Reading α} {a z : α} {k k' : α → Reading β}
    (hl : look.run (c.cutOff ts) = .ok (a, c.cutOff ts))
    (hl' : look.run (c.goOn ts) = .ok (z, c.goOn ts)) (h : Extends c (k a) (k' z) ts) :
    Extends c (look >>= k) (look >>= k') ts where
  ok b rest hr := by
    obtain ⟨x, s, hx, hb⟩ := run_bind_eq_ok_iff.1 hr
    cases hl.symm.trans hx
    obtain ⟨us, hs, hle, hb'⟩ := h.ok b rest hb
    exact ⟨us, hs, hle, run_bind_eq_ok_iff.2 ⟨z, _, hl', hb'⟩⟩
  error e hr := by
    rcases run_bind_eq_error_iff.1 hr with he | ⟨x, s, hx, he⟩
    · cases hl.symm.trans he
    · cases hl.symm.trans hx
      exact (h.error e he).imp_right fun he' => run_bind_eq_error_iff.2 (.inr ⟨z, _, hl', he'⟩)

/-- A look that meets the failure. -/
theorem fail {look : Reading α} {k k' : α → Reading β}
    (hl : look.run (c.cutOff ts) = .error c.failure) : Extends c (look >>= k) (look >>= k') ts where
  ok b rest hr := by
    obtain ⟨x, s, hx, -⟩ := run_bind_eq_ok_iff.1 hr
    cases hl.symm.trans hx
  error e hr := by
    rcases run_bind_eq_error_iff.1 hr with he | ⟨x, s, hx, -⟩
    · cases hl.symm.trans he
      exact .inl rfl
    · cases hl.symm.trans hx

theorem peek {k k' : Token → Reading β} (h : ∀ t us, ts = t :: us → Extends c (k t) (k' t) ts) :
    Extends c (Descent.peek >>= k) (Descent.peek >>= k') ts := by
  cases ts with
  | nil => exact .fail run_peek_nil
  | cons t us => exact .look run_peek_cons run_peek_cons (h t us rfl)

theorem peekSecond {t : Token} {us : List Token} (ht : t.symbol.isFinish = false)
    {k k' : Token → Reading β}
    (h : ∀ u vs, us = u :: vs → Extends c (k u) (k' u) (t :: us)) :
    Extends c (Descent.peekSecond >>= k) (Descent.peekSecond >>= k') (t :: us) := by
  cases us with
  | nil => exact .fail run_peekSecond_single
  | cons u vs => exact .look (run_peekSecond_cons ht) (run_peekSecond_cons ht) (h u vs rfl)

theorem advance {t : Token} {us : List Token} (ht : t.symbol.isFinish = false)
    {k k' : Reading β} (h : Extends c k k' us) :
    Extends c (Descent.advance >>= fun _ => k) (Descent.advance >>= fun _ => k') (t :: us) where
  ok b rest hr := by
    obtain ⟨_, s, ha, hb⟩ := run_bind_eq_ok_iff.1 hr
    cases (run_advance_cons ht).symm.trans ha
    obtain ⟨vs, hs, hl, hb'⟩ := h.ok b rest hb
    exact ⟨vs, hs, Nat.le_succ_of_le hl,
      run_bind_eq_ok_iff.2 ⟨(), _, run_advance_cons ht, hb'⟩⟩
  error e hr := by
    rcases run_bind_eq_error_iff.1 hr with he | ⟨_, s, ha, he⟩
    · cases (run_advance_cons ht).symm.trans he
    · cases (run_advance_cons ht).symm.trans ha
      exact (h.error e he).imp_right fun he' =>
        run_bind_eq_error_iff.2 (.inr ⟨(), _, run_advance_cons ht, he'⟩)

end Extends

/-- Whether a reading does the same on every stream that goes on. -/
def Local {α : Type} (r : Reading α) : Prop :=
  ∀ (c : Continuation) (ts : List Token), Extends c r r ts

theorem consume_local (text : String) : Local (consume text) := by
  intro c ts
  unfold consume
  refine .peek fun t us h => ?_
  subst h
  by_cases ht : t.symbol.isMark text = true
  · rw [if_pos ht]
    exact .advance (isFinish_of_mark (Symbol.isMark_iff.1 ht)) .pure
  · rw [if_neg ht]
    exact .throw

/-- The counters of a chain do not matter, as long as they exceed the tokens. -/
theorem chain_extends {ops : List String} {operand : Reading Node} (hop : Local operand)
    {c : Continuation} {counter counter' : List Token} {left : Node} {ts : List Token}
    (hc : ts.length < counter.length) (hc' : ts.length < counter'.length) :
    Extends c (chain ops operand counter left) (chain ops operand counter' left) ts := by
  induction counter generalizing counter' left ts with
  | nil => simp at hc
  | cons _ counter ih =>
    cases counter' with
    | nil => simp at hc'
    | cons _ counter' =>
      unfold chain
      refine .peek fun t us h => ?_
      subst h
      simp only [List.length_cons] at hc hc'
      cases ho : operator? ops t with
      | none => exact .pure
      | some op =>
        have hf := isFinish_of_mark (operator?_eq_some_iff.1 ho).1
        exact .advance hf (.bind (hop c us) fun right vs hl _ => ih (by omega) (by omega))

theorem leftGrouped_local {ops : List String} {operand : Reading Node} (hop : Local operand) :
    Local (leftGrouped ops operand) := by
  intro c ts
  refine .bind (hop c ts) fun first us _ _ => ?_
  refine .look (a := c.cutOff us) (z := c.goOn us) rfl rfl (chain_extends hop ?_ ?_)
  · simp [Continuation.cutOff]
  · simp only [Continuation.goOn, List.length_cons, List.length_append]
    omega

theorem primary_local {budget : Nat} (ih : ∀ level, Local (expression budget level)) :
    Local (expression (budget + 1) .primary) := by
  intro c ts
  unfold expression
  refine .peek fun t us h => ?_
  subst h
  split
  · rename_i x ht
    exact .advance (by rw [ht]; rfl) .pure
  · rename_i x ht
    exact .advance (by rw [ht]; rfl) .pure
  · rename_i x ht
    exact .advance (by rw [ht]; rfl) .pure
  · rename_i x ht
    exact .advance (by rw [ht]; rfl) .pure
  · rename_i ht
    refine .advance (isFinish_of_mark ht) (.bind (ih .expression c us) fun n vs _ _ => ?_)
    exact .bind (consume_local ")" c vs) fun _ _ _ _ => .pure
  · exact .throw

theorem assignment_local {budget : Nat} (ih : ∀ level, Local (expression budget level)) :
    Local (expression (budget + 1) .assignment) := by
  intro c ts
  unfold expression
  refine .peek fun t us h => ?_
  subst h
  split
  · rename_i x ht
    have hf : t.symbol.isFinish = false := by rw [ht]; rfl
    refine .peekSecond hf fun u vs h => ?_
    subst h
    cases hu : updateOperator? u with
    | none => exact ih .primary c _
    | some op =>
      have hf' := isFinish_of_mark (updateOperator?_eq_some hu).2
      exact .advance hf (.advance hf' (.bind (ih .expression c vs) fun _ _ _ _ => .pure))
  · exact ih .primary c _

/-- Expressions do not look further than they have to. -/
theorem expression_local (budget : Nat) (level : Level) : Local (expression budget level) := by
  induction budget generalizing level with
  | zero => exact fun c ts => .throw
  | succ budget ih =>
    cases level with
    | expression => exact ih .disjunction
    | disjunction => exact leftGrouped_local (ih .conjunction)
    | conjunction => exact leftGrouped_local (ih .comparison)
    | comparison => exact leftGrouped_local (ih .sum)
    | sum => exact leftGrouped_local (ih .product)
    | product => exact leftGrouped_local (ih .signed)
    | signed =>
      intro c ts
      unfold expression
      refine .peek fun t us h => ?_
      subst h
      cases ho : operator? ["-", "!"] t with
      | none => exact ih .power c _
      | some op =>
        have hf := isFinish_of_mark (operator?_eq_some_iff.1 ho).1
        exact .advance hf (.bind (ih .signed c us) fun _ _ _ _ => .pure)
    | power =>
      intro c ts
      unfold expression
      refine .bind (ih .assignment c ts) fun base us _ _ => .peek fun t vs h => ?_
      subst h
      cases ho : operator? ["^"] t with
      | none => exact .pure
      | some op =>
        have hf := isFinish_of_mark (operator?_eq_some_iff.1 ho).1
        exact .advance hf (.bind (ih .signed c vs) fun _ _ _ _ => .pure)
    | assignment => exact assignment_local ih
    | primary => exact primary_local ih

theorem condition_local (budget : Nat) : Local (condition budget) := by
  intro c ts
  refine .bind (consume_local "(" c ts) fun _ us _ _ => ?_
  refine .bind (expression_local budget .expression c us) fun _ vs _ _ => ?_
  exact .bind (consume_local ")" c vs) fun _ _ _ _ => .pure

theorem printStatement_local (budget : Nat) : Local (printStatement budget) := by
  intro c ts
  refine .bind (consume_local "print" c ts) fun _ us _ _ => ?_
  exact .bind (condition_local budget c us) fun _ _ _ _ => .pure

theorem inputStatement_local : Local inputStatement := by
  intro c ts
  refine .bind (consume_local "input" c ts) fun _ us _ _ => .peek fun t vs h => ?_
  subst h
  split
  · rename_i x ht
    exact .advance (by rw [ht]; rfl) .pure
  · exact .throw

theorem breakStatement_local (inLoop : Bool) : Local (breakStatement inLoop) := by
  intro c ts
  refine .bind (consume_local "break" c ts) fun _ us _ _ => ?_
  cases inLoop with
  | true => exact .pure
  | false => exact .throw

theorem plainStatement_extends (budget : Nat) (c : Continuation) (t : Token) (us : List Token) :
    Extends c (plainStatement budget t) (plainStatement budget t) (t :: us) := by
  unfold plainStatement
  split
  · rename_i x ht
    have hf : t.symbol.isFinish = false := by rw [ht]; rfl
    refine .peekSecond hf fun u vs h => ?_
    subst h
    split
    · rename_i hu
      have hf' := isFinish_of_mark (Symbol.isMark_iff.1 hu)
      refine .advance hf (.advance hf' ?_)
      exact .bind (expression_local budget .expression c vs) fun _ _ _ _ => .pure
    · exact .bind (expression_local budget .expression c _) fun _ _ _ _ => .pure
  · exact .bind (expression_local budget .expression c _) fun _ _ _ _ => .pure

/-- The counters of a sequence do not matter, as long as they exceed the tokens. -/
theorem sequence_extends {closes : Symbol → Bool} {statement : Reading Node}
    (hst : Local statement)
    (htake : ∀ s : Stream, s.Closed → Takes statement s fun _ ts => ts ≠ [])
    {c : Continuation} {counter counter' : List Token} {done : List Node} {ts : List Token}
    (hc : ts.length < counter.length) (hc' : ts.length < counter'.length) :
    Extends c (sequence closes statement counter done) (sequence closes statement counter' done)
      ts := by
  induction counter generalizing counter' done ts with
  | nil => simp at hc
  | cons _ counter ih =>
    cases counter' with
    | nil => simp at hc'
    | cons _ counter' =>
      unfold sequence
      refine .peek fun t us h => ?_
      simp only [List.length_cons] at hc hc'
      split
      · exact .pure
      · split
        · rename_i ht
          subst h
          simp only [List.length_cons] at hc hc'
          exact .advance (isFinish_of_mark (Symbol.isMark_iff.1 ht))
            (ih (by omega) (by omega))
        · refine .bind (hst c ts) fun n vs _ hr => ?_
          obtain ⟨taken, htk, -, -, hne⟩ := htake _ (c.closed_cutOff ts) n _ hr
          have hl : vs.length < ts.length := length_lt_of_taken htk hne
          exact ih (by omega) (by omega)

/-- Statements do not look further than they have to. -/
theorem statement_local (budget : Nat) (rule : Rule) (inLoop : Bool) :
    Local (statement budget rule inLoop) := by
  induction budget generalizing rule inLoop with
  | zero => exact fun c ts => .throw
  | succ budget ih =>
    intro c ts
    cases rule with
    | statement =>
      unfold statement
      refine .peek fun t us h => ?_
      split
      · exact printStatement_local budget c ts
      · exact inputStatement_local c ts
      · exact ih .branch inLoop c ts
      · exact ih .loop inLoop c ts
      · exact breakStatement_local inLoop c ts
      · exact ih .block inLoop c ts
      · subst h
        exact plainStatement_extends budget c t us
    | branch =>
      unfold statement
      refine .bind (consume_local "if" c ts) fun _ us _ _ => ?_
      refine .bind (condition_local budget c us) fun _ vs _ _ => ?_
      refine .bind (ih .block inLoop c vs) fun _ ws _ _ => .peek fun t xs h => ?_
      subst h
      split
      · rename_i ht
        refine .advance (isFinish_of_mark (Symbol.isMark_iff.1 ht)) ?_
        exact .bind (ih .block inLoop c xs) fun _ _ _ _ => .pure
      · exact .pure
    | loop =>
      unfold statement
      refine .bind (consume_local "while" c ts) fun _ us _ _ => ?_
      refine .bind (condition_local budget c us) fun _ vs _ _ => ?_
      exact .bind (ih .block true c vs) fun _ _ _ _ => .pure
    | block =>
      unfold statement
      refine .bind (consume_local "\x7b" c ts) fun _ us _ _ => ?_
      refine .look (a := c.cutOff us) (z := c.goOn us) rfl rfl ?_
      refine .bind (sequence_extends (ih .statement inLoop) (statement_takes_some budget inLoop)
        ?_ ?_) fun _ vs _ _ => .bind (consume_local "\x7d" c vs) fun _ _ _ _ => .pure
      · simp [Continuation.cutOff]
      · simp only [Continuation.goOn, List.length_cons, List.length_append]
        omega

/-- A program is refused for what stands at the place of its first error or before. -/
theorem program_local (budget : Nat) : Local (program budget) := by
  intro c ts
  refine .look (a := c.cutOff ts) (z := c.goOn ts) rfl rfl ?_
  refine .bind (sequence_extends (statement_local budget .statement false)
    (statement_takes_some budget false) ?_ ?_) fun _ _ _ _ => .pure
  · simp [Continuation.cutOff]
  · simp only [Continuation.goOn, List.length_cons, List.length_append]
    omega

end Scriptling.Descent
