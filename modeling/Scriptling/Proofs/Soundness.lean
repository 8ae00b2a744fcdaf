import Scriptling.Proofs.Grammar
import Scriptling.Proofs.Reading

/-!
# What is read is derived

Every reading takes some tokens off the front of a stream and leaves the rest.
The tokens that a rule takes form a phrase of the grammar, and what it yields is
the tree of that phrase.
-/
namespace Scriptling.Descent

open Grammar

/-- The tokens that a reading takes, together with what it yields, are as given. -/
def Takes {α : Type} (r : Reading α) (s : Stream) (post : α → List Token → Prop) : Prop :=
  ∀ a rest, r.run s = .ok (a, rest) →
    ∃ taken, s.tokens = taken ++ rest.tokens ∧ rest.failure = s.failure ∧ rest.Closed ∧
      post a taken

/-- What is left is shorter than before if something has been taken. -/
theorem length_lt_of_taken {ts taken rest : List Token} (h : ts = taken ++ rest)
    (hne : taken ≠ []) : rest.length < ts.length := by
  have hpos := List.length_pos_iff.2 hne
  rw [h, List.length_append]
  omega

namespace Takes

variable {α β : Type} {r : Reading α} {s : Stream} {post : α → List Token → Prop}

theorem mono {post' : α → List Token → Prop} (h : Takes r s post)
    (hp : ∀ a taken, post a taken → post' a taken) : Takes r s post' := by
  intro a rest hr
  obtain ⟨taken, ht, hf, hc, ha⟩ := h a rest hr
  exact ⟨taken, ht, hf, hc, hp a taken ha⟩

theorem pure {a : α} (hs : s.Closed) (h : post a []) : Takes (pure a) s post := by
  intro _ _ hr
  cases hr
  exact ⟨[], rfl, rfl, hs, h⟩

theorem throw {e : Error} : Takes (throw e : Reading α) s post := by
  intro _ _ hr
  cases hr

theorem bind {k : α → Reading β} {post' : β → List Token → Prop} (h : Takes r s post)
    (hk : ∀ a taken rest, rest.Closed → post a taken →
      Takes (k a) rest fun b more => post' b (taken ++ more)) :
    Takes (r >>= k) s post' := by
  intro b rest' hr
  obtain ⟨a, rest, ha, hb⟩ := run_bind_eq_ok_iff.1 hr
  obtain ⟨taken, ht, hf, hc, hp⟩ := h a rest ha
  obtain ⟨more, ht', hf', hc', hp'⟩ := hk a taken rest hc hp b rest' hb
  refine ⟨taken ++ more, ?_, hf'.trans hf, hc', hp'⟩
  rw [ht, ht', List.append_assoc]

/-- Looking at a stream takes nothing. -/
theorem look {look : Reading α} {a : α} {k : α → Reading β} {post' : β → List Token → Prop}
    (hl : look.run s = .ok (a, s)) (h : Takes (k a) s post') :
    Takes (look >>= k) s post' := by
  intro b rest hr
  obtain ⟨a', s', ha, hb⟩ := run_bind_eq_ok_iff.1 hr
  cases hl.symm.trans ha
  exact h b rest hb

theorem peek (hs : s.Closed) {k : Token → Reading α}
    (hk : ∀ t rest failure, s = ⟨t :: rest, failure⟩ → Takes (k t) s post) :
    Takes (Descent.peek >>= k) s post := by
  rcases hs.cases with ⟨e, rfl⟩ | ⟨t, rest, failure, rfl⟩
  · intro b rest hr
    obtain ⟨a, s', ha, -⟩ := run_bind_eq_ok_iff.1 hr
    cases ha
  · exact look run_peek_cons (hk t rest failure rfl)

theorem peekSecond {t : Token} {rest : List Token} {failure : Option Error}
    (hs : Stream.Closed ⟨t :: rest, failure⟩) (ht : t.symbol.isFinish = false)
    {k : Token → Reading α}
    (hk : ∀ u rest', rest = u :: rest' → Takes (k u) ⟨t :: u :: rest', failure⟩ post) :
    Takes (Descent.peekSecond >>= k) ⟨t :: rest, failure⟩ post := by
  rcases (hs.tail ht).cases with ⟨e, h⟩ | ⟨u, rest', failure', h⟩
  · cases h
    intro b rest hr
    obtain ⟨a, s', ha, -⟩ := run_bind_eq_ok_iff.1 hr
    cases ha
  · cases h
    exact look (run_peekSecond_cons ht) (hk u rest' rfl)

theorem advance {t : Token} {rest : List Token} {failure : Option Error} {k : Reading α}
    (ht : t.symbol.isFinish = false)
    (hk : Takes k ⟨rest, failure⟩ fun a taken => post a (t :: taken)) :
    Takes (Descent.advance >>= fun _ => k) ⟨t :: rest, failure⟩ post := by
  intro a rest' hr
  obtain ⟨_, s', ha, hb⟩ := run_bind_eq_ok_iff.1 hr
  rw [run_advance_cons ht] at ha
  cases ha
  obtain ⟨taken, htk, hf, hc, hp⟩ := hk a rest' hb
  exact ⟨t :: taken, by simpa using htk, hf, hc, hp⟩

end Takes

theorem consume_takes {text : String} {s : Stream} (hs : s.Closed) :
    Takes (consume text) s fun t taken => t.symbol = .mark text ∧ taken = [t] := by
  unfold consume
  refine .peek hs fun t rest failure h => ?_
  subst h
  by_cases ht : t.symbol = .mark text
  · have hf := isFinish_of_mark ht
    rw [if_pos (Symbol.isMark_iff.2 ht)]
    exact .advance hf (.pure (hs.tail hf) ⟨ht, rfl⟩)
  · rw [if_neg (by rwa [Symbol.isMark_iff])]
    exact .throw

section Chain

variable (level : Level) {tighter : Level} {operand : Reading Node}

/-- The rest of a chain extends the expression before it. -/
theorem chain_takes (hl : level.operands? = some (level, tighter))
    (hop : ∀ s : Stream, s.Closed → Takes operand s fun n ts => Expression tighter ts n)
    {counter : List Token} {ts : List Token} {left : Node} (h : Expression level ts left)
    {s : Stream} (hs : s.Closed) :
    Takes (chain level.operators operand counter left) s
      fun n more => Expression level (ts ++ more) n := by
  induction counter generalizing ts left s with
  | nil => exact .throw
  | cons _ counter ih =>
    unfold chain
    refine .peek hs fun t rest failure hst => ?_
    subst hst
    cases ho : operator? level.operators t with
    | none =>
      refine .pure hs ?_
      rwa [List.append_nil]
    | some op =>
      obtain ⟨ht, hm⟩ := operator?_eq_some_iff.1 ho
      have hf := isFinish_of_mark ht
      refine .advance hf (.bind (hop _ (hs.tail hf)) fun right rs rest' hc hr => ?_)
      refine (ih (.binary hl hm ht h hr) hc).mono fun n more hn => ?_
      rwa [List.append_assoc, List.cons_append] at hn

theorem leftGrouped_takes (hl : level.operands? = some (level, tighter))
    (ht : level.tighter? = some tighter)
    (hop : ∀ s : Stream, s.Closed → Takes operand s fun n ts => Expression tighter ts n)
    {s : Stream} (hs : s.Closed) :
    Takes (leftGrouped level.operators operand) s fun n ts => Expression level ts n := by
  refine .bind (hop s hs) fun first ts rest hc hf => ?_
  exact .look (a := rest) rfl (chain_takes level hl hop (.tighter ht hf) hc)

end Chain

theorem updateOperator?_eq_some {t : Token} {op : String} (h : updateOperator? t = some op) :
    op ∈ ["+", "-", "*", "/", "%"] ∧ t.symbol = .mark (op ++ "=") := by
  unfold updateOperator? at h
  split at h
  · rename_i text ht
    rw [ht]
    repeat' split at h
    all_goals cases h
    all_goals
      subst text
      exact ⟨by simp, congrArg Symbol.mark (by decide)⟩
  · cases h

section Levels

variable {budget : Nat}
  (ih : ∀ (level : Level) (s : Stream), s.Closed →
    Takes (expression budget level) s fun n ts => Expression level ts n) {s : Stream}

include ih

theorem signed_takes (hs : s.Closed) :
    Takes (expression (budget + 1) .signed) s fun n ts => Expression .signed ts n := by
  unfold expression
  refine .peek hs fun t rest failure hst => ?_
  subst hst
  cases ho : operator? ["-", "!"] t with
  | none => exact (ih .power _ hs).mono fun n ts h => .tighter rfl h
  | some op =>
    obtain ⟨ht, hm⟩ := operator?_eq_some_iff.1 ho
    have hf := isFinish_of_mark ht
    refine .advance hf (.bind (ih .signed _ (hs.tail hf)) fun n ts rest' hc hn => .pure hc ?_)
    rw [List.append_nil]
    exact .sign hm ht hn

theorem power_takes (hs : s.Closed) :
    Takes (expression (budget + 1) .power) s fun n ts => Expression .power ts n := by
  unfold expression
  refine .bind (ih .assignment s hs) fun base bs rest hc hb => ?_
  refine .peek hc fun t rest' failure hst => ?_
  subst hst
  cases ho : operator? ["^"] t with
  | none =>
    refine .pure hc ?_
    rw [List.append_nil]
    exact .tighter rfl hb
  | some op =>
    obtain ⟨ht, hm⟩ := operator?_eq_some_iff.1 ho
    have hf := isFinish_of_mark ht
    refine .advance hf (.bind (ih .signed _ (hc.tail hf)) fun n ts rest'' hc' hn => .pure hc' ?_)
    rw [List.append_nil]
    exact .binary rfl hm ht hb hn

theorem assignment_takes (hs : s.Closed) :
    Takes (expression (budget + 1) .assignment) s fun n ts => Expression .assignment ts n := by
  have hprim : Takes (expression budget .primary) s fun n ts => Expression .assignment ts n :=
    (ih .primary s hs).mono fun n ts h => .tighter rfl h
  unfold expression
  refine .peek hs fun t rest failure hst => ?_
  subst hst
  split
  · rename_i x ht
    have hf : t.symbol.isFinish = false := by rw [ht]; rfl
    refine .peekSecond hs hf fun u rest' hr => ?_
    subst hr
    cases hu : updateOperator? u with
    | none => exact hprim
    | some op =>
      obtain ⟨hm, ho⟩ := updateOperator?_eq_some hu
      have hf' := isFinish_of_mark ho
      refine .advance hf (.advance hf' (.bind (ih .expression _ ((hs.tail hf).tail hf'))
        fun n ts rest'' hc hn => .pure hc ?_))
      rw [List.append_nil]
      exact .update hm ht ho hn
  · exact hprim

theorem primary_takes (hs : s.Closed) :
    Takes (expression (budget + 1) .primary) s fun n ts => Expression .primary ts n := by
  unfold expression
  refine .peek hs fun t rest failure hst => ?_
  subst hst
  have hleaf : ∀ {n : Node}, t.symbol.isFinish = false → Expression .primary [t] n →
      Takes (do advance; return n) ⟨t :: rest, failure⟩ fun n ts => Expression .primary ts n :=
    fun hf h => .advance hf (.pure (hs.tail hf) h)
  split
  · rename_i x ht
    exact hleaf (by rw [ht]; rfl) (.number ht)
  · rename_i x ht
    exact hleaf (by rw [ht]; rfl) (.string ht)
  · rename_i x ht
    exact hleaf (by rw [ht]; rfl) (.bool ht)
  · rename_i x ht
    exact hleaf (by rw [ht]; rfl) (.ident ht)
  · rename_i ht
    have hf := isFinish_of_mark ht
    refine .advance hf (.bind (ih .expression _ (hs.tail hf)) fun n ts rest' hc hn => ?_)
    refine .bind (consume_takes hc) fun u us rest'' hc' hu => ?_
    obtain ⟨hu, rfl⟩ := hu
    refine .pure hc' ?_
    rw [List.append_nil]
    exact .paren ht hn hu
  · exact .throw

end Levels

/-- An expression that is read is derived, whatever its level and the budget. -/
theorem expression_takes (budget : Nat) (level : Level) (s : Stream) (hs : s.Closed) :
    Takes (expression budget level) s fun n ts => Expression level ts n := by
  induction budget generalizing level s with
  | zero => exact .throw
  | succ budget ih =>
    cases level with
    | expression => exact (ih .disjunction s hs).mono fun n ts h => .tighter rfl h
    | disjunction => exact leftGrouped_takes .disjunction rfl rfl (ih .conjunction) hs
    | conjunction => exact leftGrouped_takes .conjunction rfl rfl (ih .comparison) hs
    | comparison => exact leftGrouped_takes .comparison rfl rfl (ih .sum) hs
    | sum => exact leftGrouped_takes .sum rfl rfl (ih .product) hs
    | product => exact leftGrouped_takes .product rfl rfl (ih .signed) hs
    | signed => exact signed_takes ih hs
    | power => exact power_takes ih hs
    | assignment => exact assignment_takes ih hs
    | primary => exact primary_takes ih hs

theorem condition_takes {budget : Nat} {s : Stream} (hs : s.Closed) :
    Takes (condition budget) s fun n ts => Condition ts n := by
  refine .bind (consume_takes hs) fun t _ rest hc ht => ?_
  obtain ⟨ht, rfl⟩ := ht
  refine .bind (expression_takes budget .expression rest hc) fun n ts rest' hc' hn => ?_
  refine .bind (consume_takes hc') fun u _ rest'' hc'' hu => ?_
  obtain ⟨hu, rfl⟩ := hu
  exact .pure hc'' (.intro ht hn hu)

theorem sequence_takes {closes : Symbol → Bool} {statement : Reading Node} {inLoop : Bool}
    (hst : ∀ s : Stream, s.Closed → Takes statement s fun n ts => Derives inLoop .statement ts n)
    {counter : List Token} {done : List Node} {s : Stream} (hs : s.Closed) :
    Takes (sequence closes statement counter done) s fun ns ts =>
      ∃ ms, ns = done.reverse ++ ms ∧ Derives inLoop .items ts (.block ms) := by
  induction counter generalizing done s with
  | nil => exact .throw
  | cons _ counter ih =>
    unfold sequence
    refine .peek hs fun t rest failure h => ?_
    split
    · exact .pure hs ⟨[], by simp, .nil⟩
    · split
      · rename_i ht
        have ht := Symbol.isMark_iff.1 ht
        have hf := isFinish_of_mark ht
        subst h
        refine .advance hf ((ih (hs.tail hf)).mono fun ns ts hns => ?_)
        obtain ⟨ms, rfl, hms⟩ := hns
        exact ⟨ms, rfl, .semicolon ht hms⟩
      · refine .bind (hst s hs) fun n ts rest' hc hn => (ih hc).mono fun ns us hns => ?_
        obtain ⟨ms, rfl, hms⟩ := hns
        exact ⟨n :: ms, by simp, .cons hn hms⟩

theorem printStatement_takes {budget : Nat} {inLoop : Bool} {s : Stream} (hs : s.Closed) :
    Takes (printStatement budget) s fun n ts => Derives inLoop .statement ts n := by
  refine .bind (consume_takes hs) fun t _ rest hc ht => ?_
  obtain ⟨ht, rfl⟩ := ht
  refine .bind (condition_takes hc) fun n ts rest' hc' hn => .pure hc' ?_
  rw [List.append_nil]
  exact .print ht hn

theorem inputStatement_takes {inLoop : Bool} {s : Stream} (hs : s.Closed) :
    Takes inputStatement s fun n ts => Derives inLoop .statement ts n := by
  refine .bind (consume_takes hs) fun t _ rest hc ht => ?_
  obtain ⟨ht, rfl⟩ := ht
  refine .peek hc fun u rest' failure h => ?_
  subst h
  split
  · rename_i x hx
    have hf : u.symbol.isFinish = false := by rw [hx]; rfl
    exact .advance hf (.pure (hc.tail hf) (.input ht hx))
  · exact .throw

theorem breakStatement_takes {inLoop : Bool} {s : Stream} (hs : s.Closed) :
    Takes (breakStatement inLoop) s fun n ts => Derives inLoop .statement ts n := by
  refine .bind (consume_takes hs) fun t _ rest hc ht => ?_
  obtain ⟨ht, rfl⟩ := ht
  cases inLoop with
  | true => exact .pure hc (.leave ht)
  | false => exact .throw

theorem plainStatement_takes {budget : Nat} {inLoop : Bool} {t : Token} {rest : List Token}
    {failure : Option Error} (hs : Stream.Closed ⟨t :: rest, failure⟩) :
    Takes (plainStatement budget t) ⟨t :: rest, failure⟩ fun n ts =>
      Derives inLoop .statement ts n := by
  have heval : Takes (do return .evaluate (← expression budget .expression) (.of t.position))
      ⟨t :: rest, failure⟩ fun n ts => Derives inLoop .statement ts n := by
    intro n rest' hr
    obtain ⟨v, s', hv, hn⟩ := run_bind_eq_ok_iff.1 hr
    cases hn
    obtain ⟨ts, hts, hf, hc, hd⟩ := expression_takes budget .expression _ hs v rest' hv
    cases ts with
    | nil => exact (hd.ne_nil rfl).elim
    | cons t' ts =>
      have ht : t = t' := by simpa using congrArg List.head? hts
      subst ht
      exact ⟨t :: ts, hts, hf, hc, .evaluate hd⟩
  unfold plainStatement
  split
  · rename_i x hx
    have hf : t.symbol.isFinish = false := by rw [hx]; rfl
    refine .peekSecond hs hf fun u rest' h => ?_
    subst h
    split
    · rename_i hu
      have hu := Symbol.isMark_iff.1 hu
      have hf' := isFinish_of_mark hu
      refine .advance hf (.advance hf' (.bind
        (expression_takes budget .expression _ ((hs.tail hf).tail hf'))
        fun n ts rest'' hc hn => .pure hc ?_))
      rw [List.append_nil]
      exact .assign hx hu hn
    · exact heval
  · exact heval

/-- What a rule reads. -/
def Rule.phrase : Rule → Phrase
  | .block => .block
  | _ => .statement

section Rules

variable {budget : Nat}
  (ih : ∀ (rule : Rule) (inLoop : Bool) (s : Stream), s.Closed →
    Takes (statement budget rule inLoop) s fun n ts => Derives inLoop rule.phrase ts n)
  {inLoop : Bool} {s : Stream}

include ih

theorem branch_takes (hs : s.Closed) :
    Takes (statement (budget + 1) .branch inLoop) s fun n ts =>
      Derives inLoop .statement ts n := by
  unfold statement
  refine .bind (consume_takes hs) fun t _ rest hc ht => ?_
  obtain ⟨ht, rfl⟩ := ht
  refine .bind (condition_takes hc) fun c cs rest₁ hc₁ hcs => ?_
  refine .bind (ih .block inLoop rest₁ hc₁) fun thenBlock ts rest₂ hc₂ hts => ?_
  refine .peek hc₂ fun u rest₃ failure h => ?_
  subst h
  split
  · rename_i hu
    have hu := Symbol.isMark_iff.1 hu
    have hf := isFinish_of_mark hu
    refine .advance hf (.bind (ih .block inLoop _ (hc₂.tail hf)) fun elseBlock es rest₄ hc₄ hes =>
      .pure hc₄ ?_)
    have := Derives.branchElse ht hcs hts hu hes
    simpa using this
  · refine .pure hc₂ ?_
    have := Derives.branch ht hcs hts
    simpa using this

theorem loop_takes (hs : s.Closed) :
    Takes (statement (budget + 1) .loop inLoop) s fun n ts =>
      Derives inLoop .statement ts n := by
  unfold statement
  refine .bind (consume_takes hs) fun t _ rest hc ht => ?_
  obtain ⟨ht, rfl⟩ := ht
  refine .bind (condition_takes hc) fun c cs rest₁ hc₁ hcs => ?_
  refine .bind (ih .block true rest₁ hc₁) fun body ts rest₂ hc₂ hts => .pure hc₂ ?_
  have hd : Derives inLoop .statement (t :: cs ++ ts) _ := .loop ht hcs hts
  simpa using hd

theorem block_takes (hs : s.Closed) :
    Takes (statement (budget + 1) .block inLoop) s fun n ts => Derives inLoop .block ts n := by
  unfold statement
  refine .bind (consume_takes hs) fun t _ rest hc ht => ?_
  obtain ⟨ht, rfl⟩ := ht
  refine .look (a := rest) rfl ?_
  refine .bind (sequence_takes (ih .statement inLoop) hc) fun ns ts rest₁ hc₁ hns => ?_
  obtain ⟨ms, rfl, hms⟩ := hns
  refine .bind (consume_takes hc₁) fun u _ rest₂ hc₂ hu => .pure hc₂ ?_
  obtain ⟨hu, rfl⟩ := hu
  have := Derives.block ht hms hu
  simpa using this

theorem statementRule_takes (hs : s.Closed) :
    Takes (statement (budget + 1) .statement inLoop) s fun n ts =>
      Derives inLoop .statement ts n := by
  unfold statement
  refine .peek hs fun t rest failure h => ?_
  split
  · exact printStatement_takes hs
  · exact inputStatement_takes hs
  · exact ih .branch inLoop s hs
  · exact ih .loop inLoop s hs
  · exact breakStatement_takes hs
  · exact (ih .block inLoop s hs).mono fun n ts h => .nested h
  · subst h
    exact plainStatement_takes hs

end Rules

/-- What a rule reads is derived, whatever the budget. -/
theorem statement_takes (budget : Nat) (rule : Rule) (inLoop : Bool) (s : Stream)
    (hs : s.Closed) :
    Takes (statement budget rule inLoop) s fun n ts => Derives inLoop rule.phrase ts n := by
  induction budget generalizing rule inLoop s with
  | zero => exact .throw
  | succ budget ih =>
    cases rule with
    | statement => exact statementRule_takes ih hs
    | branch => exact branch_takes ih hs
    | loop => exact loop_takes ih hs
    | block => exact block_takes ih hs

theorem statement_takes_some (budget : Nat) (inLoop : Bool) (s : Stream) (hs : s.Closed) :
    Takes (statement budget .statement inLoop) s fun _ ts => ts ≠ [] :=
  (statement_takes budget .statement inLoop s hs).mono fun _ _ h => h.ne_nil (.inl rfl)

/-- A program that is read is derived. -/
theorem program_takes (budget : Nat) {s : Stream} (hs : s.Closed) :
    Takes (program budget) s fun n ts => Derives false .program ts n := by
  refine .look (a := s) rfl ?_
  refine .bind (sequence_takes (statement_takes budget .statement false) hs)
    fun ns ts rest hc hns => .pure hc ?_
  obtain ⟨ms, rfl, hms⟩ := hns
  rw [List.append_nil]
  exact .program hms

end Scriptling.Descent
