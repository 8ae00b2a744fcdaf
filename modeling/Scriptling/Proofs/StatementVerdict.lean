import Scriptling.Proofs.ExpressionVerdict
import Scriptling.Proofs.Soundness

/-!
# Statements and the machine

Reading a statement takes the machine from one place where a statement may begin
to the next, with the tree of the statement put on top of those before it. So a
whole program is read with the same outcome as the machine's verdict on it.
-/
namespace Scriptling.Descent

open ShiftReduce

/-- What is known of the tokens that a reading takes is known where it follows the
machine. -/
theorem Follows.and_takes {α : Type} {short : Prop} {r : Reading α} {m : Machine} {s : Stream}
    {post : α → Machine → Stream → Prop} {post' : α → List Token → Prop}
    (h : Follows short r m s post) (ht : Takes r s post') :
    Follows short r m s fun a next rest =>
      post a next rest ∧ ∃ ts, s.tokens = ts ++ rest.tokens ∧ post' a ts where
  ok a rest hr := by
    obtain ⟨next, hv, hc, hl, ha⟩ := h.ok a rest hr
    obtain ⟨ts, hts, -, -, hp⟩ := ht a rest hr
    exact ⟨next, hv, hc, hl, ha, ts, hts, hp⟩
  error := h.error

section Pieces

variable {bs : List (Opening × List Grown)} {ds : List Grown} {b : Boundary} {budget : Nat}
  {s : Stream}

theorem condition_follows {head : Head} (hh : head.isParen = true) (hs : s.Closed) :
    Follows (budget + 2 < 12 * s.tokens.length) (condition budget)
      ⟨bs, ds, .beforeParen head⟩ s fun n next rest =>
        (∃ g, g.node = n ∧ next = Machine.endStatement ⟨bs, ds, .boundary .start⟩ head g) ∧
          rest.tokens.length < s.tokens.length := by
  have hopen : ∀ t, t.symbol = .mark "(" →
      Machine.read ⟨bs, ds, .beforeParen head⟩ t = .ok ⟨bs, ds, .operand head []⟩ :=
    fun t ht => Machine.read_mark .leftParen ht (by decide) (by decide) rfl
  refine .bind (consume_follows hs (fun t ht => ⟨_, hopen t ht⟩) fun t rest failure h ht => ?_) ?_
  · subst h
    refine Machine.verdict_of_ne (k := .leftParen) ?_ rfl fun o ho => ?_
    · exact fun hk => ht ((Token.terminal?_eq_iff (by decide)).1 hk)
    · simp [Machine.step, ho, Except.toOption]
  rintro t _ rest hc _ ⟨ht, hr, hl⟩
  cases (hopen t ht).symm.trans hr
  refine .bind ((expression_follows budget .expression ⟨bs, ds, .boundary .start⟩ head [] rest hc
    trivial trivial).weaken ?_) ?_
  · simp only [Level.depth]
    omega
  rintro n _ rest' hc' hl' ⟨g, ended, rfl, rfl, hst⟩
  have hclose : ∀ u, u.symbol = .mark ")" →
      Machine.read ⟨bs, ds, .operator head [] g ended⟩ u =
        .ok (Machine.endStatement ⟨bs, ds, .boundary .start⟩ head g) := by
    intro u hu
    refine Machine.read_mark .rightParen hu (by decide) (by decide) ?_
    have he : ended.Final .rightParen := by
      cases ended <;> simp [Ended.Final, Terminal.updateOperator?]
    simp only [Machine.step]
    rw [Machine.stepOperator_of_final rfl (by simp) he]
    cases head <;> first | rfl | cases hh
  refine .bind (consume_follows hc' (fun u hu => ⟨_, hclose u hu⟩)
    fun u rest'' failure h hu => ?_) ?_
  · subst h
    refine Machine.verdict_inParen (by simp [Machine.inParen, hh]) ?_ ?_
    · exact fun hk => hu ((Token.terminal?_eq_iff (by decide)).1 hk)
    · exact fun k hk => ⟨binding?_eq_none_of_stops hst k hk, (hst k hk).2⟩
  · rintro u _ rest'' hc'' hl'' ⟨hu, hr', -⟩
    cases (hclose u hu).symm.trans hr'
    exact .pure hc'' ⟨⟨g, rfl, rfl⟩, by omega⟩

/-- A statement has been read and its tree put on top of those before it. -/
def Done (bs : List (Opening × List Grown)) (ds : List Grown) (n : Node) (next : Machine)
    (_ : Stream) : Prop :=
  ∃ g b, g.node = n ∧ next = ⟨bs, g :: ds, .boundary b⟩

theorem printStatement_follows {t : Token} {rest : List Token} {failure : Option Error}
    (hs : Stream.Closed ⟨t :: rest, failure⟩) (ht : t.symbol = .mark "print") :
    Follows (budget < 12 * (t :: rest).length) (printStatement budget) ⟨bs, ds, .boundary b⟩
      ⟨t :: rest, failure⟩ (Done bs ds) := by
  have hr : Machine.read ⟨bs, ds, .boundary b⟩ t =
      .ok ⟨bs, ds, .beforeParen (.print t.position)⟩ :=
    Machine.read_mark .print ht (by decide) (by decide) rfl
  refine .bind (.consume hs ht hr) ?_
  rintro t _ _ hc _ ⟨rfl, rfl, rfl⟩
  refine .bind ((condition_follows rfl hc).weaken ?_) ?_
  · simp only [List.length_cons]
    omega
  · rintro n _ rest'' hc' _ ⟨⟨g, rfl, rfl⟩, -⟩
    exact .pure hc' ⟨_, _, rfl, rfl⟩

theorem inputStatement_follows {short : Prop} {t : Token} {rest : List Token}
    {failure : Option Error} (hs : Stream.Closed ⟨t :: rest, failure⟩)
    (ht : t.symbol = .mark "input") :
    Follows short inputStatement ⟨bs, ds, .boundary b⟩ ⟨t :: rest, failure⟩ (Done bs ds) := by
  have hr : Machine.read ⟨bs, ds, .boundary b⟩ t = .ok ⟨bs, ds, .beforeName t.position⟩ :=
    Machine.read_mark .input ht (by decide) (by decide) rfl
  refine .bind (.consume hs ht hr) ?_
  rintro t _ _ hc _ ⟨rfl, rfl, rfl⟩
  refine .peek hc fun u rest' failure' h => ?_
  cases h
  split
  · rename_i x hx
    have hf : u.symbol.isFinish = false := by rw [hx]; rfl
    have hm : Machine.read ⟨bs, ds, .beforeName t.position⟩ u = .ok ⟨bs,
        .leaf (.input (.str x) (.of t.position)) :: ds, .boundary .separator⟩ := by
      refine Machine.read_of_move ?_ (by simp [Token.terminal?, Occurrence.ofToken?, hx])
      simp only [Machine.move, Occurrence.ofToken?, hx]
      rfl
    refine .bind (.advance hc hf hm) ?_
    rintro _ _ _ hc' _ ⟨rfl, rfl⟩
    exact .pure hc' ⟨_, _, rfl, rfl⟩
  · rename_i hx
    refine .throw (Machine.verdict_of_ne (k := .ident) (fun hk => ?_) rfl fun o ho => ?_)
    · obtain ⟨o, ho, hi⟩ := Option.map_eq_some_iff.1 hk
      obtain ⟨x, hv⟩ := Occurrence.exists_ident ho hi
      exact hx x hv
    · simp [Machine.step, ho, Except.toOption]

theorem breakStatement_follows {short : Prop} {t : Token} {rest : List Token}
    {failure : Option Error} (hs : Stream.Closed ⟨t :: rest, failure⟩)
    (ht : t.symbol = .mark "break") :
    Follows short (breakStatement (looped bs)) ⟨bs, ds, .boundary b⟩ ⟨t :: rest, failure⟩
      (Done bs ds) := by
  have hf := isFinish_of_mark ht
  have hr : Machine.read ⟨bs, ds, .boundary b⟩ t =
      if looped bs then .ok ⟨bs, .leaf (.leave (.of t.position)) :: ds, .boundary .separator⟩
      else .error (.located .breakOutsideLoop t.position) := by
    have hm : Machine.move ⟨bs, ds, .boundary b⟩ t =
        some ⟨bs, .leaf (.leave (.of t.position)) :: ds, .boundary .separator⟩ := by
      simp only [Machine.move, Occurrence.ofToken?, ht]
      rfl
    have hl : Machine.inLoop ⟨bs, ds, .boundary b⟩ = looped bs := rfl
    simp only [Machine.read, hm, Symbol.isMark_iff.2 ht, hl, Bool.true_and]
    cases looped bs <;> rfl
  cases hl : looped bs with
  | true =>
    simp only [hl, if_true] at hr
    refine .bind (.consume hs ht hr) ?_
    rintro t _ _ hc _ ⟨rfl, rfl, rfl⟩
    exact .pure hc ⟨_, _, rfl, rfl⟩
  | false =>
    simp only [hl, Bool.false_eq_true, if_false] at hr
    -- the reading takes the token first and the machine refuses it, with one error
    have hrun : (breakStatement false).run ⟨t :: rest, failure⟩ =
        .error (.located .breakOutsideLoop t.position) :=
      run_bind_eq_error_iff.2 (.inr ⟨t, _, run_consume_cons ht, rfl⟩)
    constructor
    · intro n rest' h
      cases hrun.symm.trans h
    · intro e h
      cases hrun.symm.trans h
      rw [Machine.verdict_cons hf, hr]
      exact .inr rfl

/-- The expression at the end of a statement. -/
theorem value_follows {head : Head} {f : Node → Node} (hh : head.isParen = false)
    (hf : ∀ g, Done bs ds (f g.node) (Machine.endStatement ⟨bs, ds, .boundary .start⟩ head g) s)
    (hs : s.Closed) :
    Follows (budget < 12 * s.tokens.length + 10)
      (do return f (← expression budget .expression)) ⟨bs, ds, .operand head []⟩ s
      (Done bs ds) := by
  refine .bind (expression_follows budget .expression ⟨bs, ds, .boundary .start⟩ head [] s hs
    trivial trivial) ?_
  rintro n _ rest hc _ ⟨g, ended, rfl, rfl, hst⟩
  refine .of_verdict (.pure hc (hf g)) (Machine.verdict_endStatement hc hh fun k hk => ?_)
  exact ⟨binding?_eq_none_of_stops hst k hk, (hst k hk).2⟩

theorem plainStatement_follows {t : Token} {rest : List Token} {failure : Option Error}
    (hs : Stream.Closed ⟨t :: rest, failure⟩) (hf : t.symbol.isFinish = false)
    (hk : ∀ k, t.terminal? = some k →
      k ∉ [.print, .branch, .loop, .input, .leave, .leftBrace, .semicolon])
    (hb : t.symbol = .mark "\x7d" → bs = []) :
    Follows (budget < 12 * (t :: rest).length + 10) (plainStatement budget t)
      ⟨bs, ds, .boundary b⟩ ⟨t :: rest, failure⟩ (Done bs ds) := by
  have heval : Follows (budget < 12 * (t :: rest).length + 10)
      (do return .evaluate (← expression budget .expression) (.of t.position))
      ⟨bs, ds, .operand (.evaluate t.position) []⟩ ⟨t :: rest, failure⟩ (Done bs ds) :=
    value_follows rfl (fun g => ⟨_, _, rfl, rfl⟩) hs
  unfold plainStatement
  split
  · rename_i x hx
    have hr : Machine.read ⟨bs, ds, .boundary b⟩ t = .ok ⟨bs, ds,
        .operator (.evaluate t.position) [] (.leaf (.ident (.str x) (.of t.position)))
          (.firstName x t.position)⟩ := by
      refine Machine.read_of_move ?_ (by simp [Token.terminal?, Occurrence.ofToken?, hx])
      simp only [Machine.move, Occurrence.ofToken?, hx]
      rfl
    refine .peekSecond hs hf hr fun u rest' h => ?_
    subst h
    by_cases hu : u.symbol = .mark "="
    · rw [if_pos (Symbol.isMark_iff.2 hu)]
      have hr' : Machine.read ⟨bs, ds,
          .operator (.evaluate t.position) [] (.leaf (.ident (.str x) (.of t.position)))
            (.firstName x t.position)⟩ u = .ok ⟨bs, ds, .operand (.assign x t.position) []⟩ :=
        Machine.read_mark .equal hu (by decide) (by decide) rfl
      refine .bind (.advance hs hf hr) ?_
      rintro _ _ _ hc _ ⟨rfl, rfl⟩
      refine .bind (.advance hc (isFinish_of_mark hu) hr') ?_
      rintro _ _ _ hc' _ ⟨rfl, rfl⟩
      refine (value_follows rfl (fun g => ⟨_, _, rfl, rfl⟩) hc').weaken ?_
      simp only [List.length_cons]
      omega
    · rw [if_neg (by rwa [Symbol.isMark_iff])]
      refine heval.of_verdict (Machine.verdict_evaluate_ident hs hx (Stream.next_cons.2 ?_))
      rintro k hk rfl
      exact hu ((Token.terminal?_eq_iff (by decide)).1 hk)
  · rename_i hx
    by_cases ht : t.symbol = .mark "\x7d"
    · obtain rfl := hb ht
      exact heval.of_verdict (Machine.verdict_rightBrace ht)
    · refine heval.of_verdict (Machine.verdict_evaluate hf hx fun k hk' => ?_)
      have hne : k ≠ .rightBrace := by
        rintro rfl
        exact ht ((Token.terminal?_eq_iff (by decide)).1 hk')
      simpa [hne] using hk k hk'

/-- Statements have been read up to a closing symbol. -/
def AllDone (closes : Symbol → Bool) (bs : List (Opening × List Grown)) (ns : List Node)
    (next : Machine) (rest : Stream) : Prop :=
  ∃ ds b t more failure, next = ⟨bs, ds, .boundary b⟩ ∧ ns = ds.reverse.map (·.node) ∧
    rest = ⟨t :: more, failure⟩ ∧ closes t.symbol = true

variable (ds) in
/-- A sequence follows the machine if its statements do, each of which takes a token. -/
theorem sequence_follows {closes : Symbol → Bool} {statement : Reading Node} {short : Prop}
    (count : Nat)
    (htake : ∀ s : Stream, s.Closed → Takes statement s fun _ ts => ts ≠ [])
    (hst : ∀ ds b t rest failure, Stream.Closed ⟨t :: rest, failure⟩ → (t :: rest).length ≤ count →
      closes t.symbol = false → t.symbol ≠ .mark ";" →
      Follows short statement ⟨bs, ds, .boundary b⟩ ⟨t :: rest, failure⟩ (Done bs ds))
    (counter : List Token) (hs : s.Closed) (hc : s.tokens.length < counter.length)
    (hn : s.tokens.length ≤ count) :
    Follows short (sequence closes statement counter (ds.map (·.node))) ⟨bs, ds, .boundary b⟩ s
      (AllDone closes bs) := by
  induction counter generalizing ds b s with
  | nil => simp at hc
  | cons _ counter ih =>
    unfold sequence
    refine .peek hs fun t rest failure h => ?_
    subst h
    simp only [List.length_cons] at hc hn
    cases hcl : closes t.symbol with
    | true =>
      refine .pure hs ⟨ds, b, t, rest, failure, rfl, ?_, rfl, hcl⟩
      rw [List.map_reverse]
    | false =>
      rw [if_neg (by simp)]
      by_cases ht : t.symbol = .mark ";"
      · rw [if_pos (Symbol.isMark_iff.2 ht)]
        have hr : Machine.read ⟨bs, ds, .boundary b⟩ t = .ok ⟨bs, ds, .boundary .separator⟩ :=
          Machine.read_mark .semicolon ht (by decide) (by decide) rfl
        refine .bind (.advance hs (isFinish_of_mark ht) hr) ?_
        rintro _ _ _ hc' _ ⟨rfl, rfl⟩
        exact ih ds hc' (by simp only; omega) (by simp only; omega)
      · rw [if_neg (by rwa [Symbol.isMark_iff])]
        have hstep := (hst ds b t rest failure hs hn hcl ht).and_takes (htake _ hs)
        refine .bind hstep ?_
        rintro n _ rest' hc' hl ⟨⟨g, b', rfl, rfl⟩, ts, hts, hne⟩
        have hl' : rest'.tokens.length < (t :: rest).length := length_lt_of_taken hts hne
        simp only [List.length_cons] at hl'
        rw [← List.map_cons (f := fun g : Grown => g.node)]
        exact ih _ hc' (by omega) (by omega)

end Pieces

/-- The rules within a budget follow the machine. The budget is short if the tokens
of the stream could be nested more deeply. -/
structure StatementFollows (budget : Nat) : Prop where
  statement : ∀ bs ds b t rest failure, Stream.Closed ⟨t :: rest, failure⟩ →
    t.symbol.isFinish = false → t.symbol ≠ .mark ";" → (t.symbol = .mark "\x7d" → bs = []) →
    Follows (budget < 12 * (t :: rest).length + 11)
      (Descent.statement budget .statement (looped bs)) ⟨bs, ds, .boundary b⟩
      ⟨t :: rest, failure⟩ (Done bs ds)
  branch : ∀ bs ds b t rest failure, Stream.Closed ⟨t :: rest, failure⟩ → t.symbol = .mark "if" →
    Follows (budget < 12 * (t :: rest).length + 10) (Descent.statement budget .branch (looped bs))
      ⟨bs, ds, .boundary b⟩ ⟨t :: rest, failure⟩ (Done bs ds)
  loop : ∀ bs ds b inLoop t rest failure, Stream.Closed ⟨t :: rest, failure⟩ →
    t.symbol = .mark "while" →
    Follows (budget < 12 * (t :: rest).length + 10) (Descent.statement budget .loop inLoop)
      ⟨bs, ds, .boundary b⟩ ⟨t :: rest, failure⟩ (Done bs ds)
  block : ∀ bs ds opening s, Stream.Closed s →
    Follows (budget < 12 * s.tokens.length + 10)
      (Descent.statement budget .block (opening.isBody || looped bs))
      ⟨bs, ds, .beforeBrace opening⟩ s
      fun n next _ => ∃ block, block.node = n ∧ next = Machine.afterBlock bs ds block opening

section Rules

variable {budget : Nat} (ih : StatementFollows budget) {bs : List (Opening × List Grown)}
  {ds : List Grown} {b : Boundary} {t : Token} {rest : List Token} {failure : Option Error}

include ih

theorem block_follows {opening : Opening} {s : Stream} (hs : s.Closed) :
    Follows (budget + 1 < 12 * s.tokens.length + 10)
      (statement (budget + 1) .block (opening.isBody || looped bs))
      ⟨bs, ds, .beforeBrace opening⟩ s
      fun n next _ => ∃ block, block.node = n ∧
        next = Machine.afterBlock bs ds block opening := by
  have hopen : ∀ t, t.symbol = .mark "\x7b" → Machine.read ⟨bs, ds, .beforeBrace opening⟩ t =
      .ok ⟨(opening, ds) :: bs, [], .boundary .start⟩ := fun t ht =>
    Machine.read_mark .leftBrace ht (by decide) (by decide) rfl
  unfold statement
  refine .bind (consume_follows hs (fun t ht => ⟨_, hopen t ht⟩) fun t rest failure h ht => ?_) ?_
  · subst h
    refine Machine.verdict_of_ne (k := .leftBrace) ?_ rfl fun o ho => ?_
    · exact fun hk => ht ((Token.terminal?_eq_iff (by decide)).1 hk)
    · simp [Machine.step, ho, Except.toOption]
  rintro t _ rest hc _ ⟨ht, hr, hl⟩
  cases (hopen t ht).symm.trans hr
  refine .look (a := rest) rfl ?_
  refine .bind (sequence_follows [] rest.tokens.length ?_ ?_ _ hc (by simp)
    (Nat.le_refl _)) ?_
  · exact statement_takes_some budget _
  · intro ds b t rest' failure hs hn hcl ht'
    have hcl : t.symbol.isMark "\x7d" = false ∧ t.symbol.isFinish = false := by
      simpa [closesBlock] using hcl
    refine (ih.statement ((opening, _) :: bs) ds b t rest' failure hs hcl.2 ht' ?_).weaken ?_
    · intro hb
      rw [Symbol.isMark_iff.2 hb] at hcl
      cases hcl.1
    · omega
  · rintro ns _ _ hc' _ ⟨ds', b', u, more, failure, rfl, rfl, rfl, hcl⟩
    have hclose : ∀ u, u.symbol = .mark "\x7d" →
        Machine.read ⟨(opening, ds) :: bs, ds', .boundary b'⟩ u = .ok (Machine.afterBlock bs ds
          (.above (.block (ds'.reverse.map (·.node))) ds'.reverse) opening) := by
      intro u hu
      refine Machine.read_mark .rightBrace hu (by decide) (by decide) ?_
      simp only [Machine.step, Machine.stepBoundary, Machine.closeBlock_cons]
    refine .bind (consume_follows hc' (fun u hu => ⟨_, hclose u hu⟩) fun v _ _ h hv => ?_) ?_
    · cases h
      have hf : u.symbol.isFinish = true := by
        have hv : u.symbol.isMark "\x7d" = false := by
          rw [Bool.eq_false_iff, ne_eq, Symbol.isMark_iff]
          exact hv
        simpa [closesBlock, hv] using hcl
      rw [Machine.verdict_finish hf]
      simp [Machine.close, Machine.toOption_finish_boundary, Machine.wanted, hf, Machine.inBlock]
    · rintro v _ _ hc'' _ ⟨hv, hr', -⟩
      cases (hclose v hv).symm.trans hr'
      exact .pure hc'' ⟨_, rfl, rfl⟩

theorem branch_follows (hs : Stream.Closed ⟨t :: rest, failure⟩) (ht : t.symbol = .mark "if") :
    Follows (budget + 1 < 12 * (t :: rest).length + 10)
      (statement (budget + 1) .branch (looped bs)) ⟨bs, ds, .boundary b⟩ ⟨t :: rest, failure⟩
      (Done bs ds) := by
  have hr : Machine.read ⟨bs, ds, .boundary b⟩ t =
      .ok ⟨bs, ds, .beforeParen (.branch t.position)⟩ :=
    Machine.read_mark .branch ht (by decide) (by decide) rfl
  simp only [List.length_cons]
  unfold statement
  refine .bind (.consume hs ht hr) ?_
  rintro t _ _ hc _ ⟨rfl, rfl, rfl⟩
  refine .bind ((condition_follows rfl hc).weaken (fun h => by simp only at h; omega)) ?_
  rintro c _ rest₁ hc₁ _ ⟨⟨g, rfl, rfl⟩, hl₁⟩
  simp only at hl₁
  refine .bind ((ih.block bs ds (.thenBlock g t.position) rest₁ hc₁).weaken (fun h => by omega)) ?_
  rintro thenBlock _ rest₂ hc₂ hl₂ ⟨g₁, rfl, rfl⟩
  refine .peek hc₂ fun u rest₃ failure' h => ?_
  subst h
  by_cases hu : u.symbol = .mark "else"
  · rw [if_pos (Symbol.isMark_iff.2 hu)]
    have hr' : Machine.read ⟨bs, ds, .afterThen g g₁ t.position⟩ u =
        .ok ⟨bs, ds, .beforeBrace (.elseBlock g g₁ t.position)⟩ :=
      Machine.read_mark .otherwise hu (by decide) (by decide) rfl
    refine .bind (.advance hc₂ (isFinish_of_mark hu) hr') ?_
    rintro _ _ _ hc₃ _ ⟨rfl, rfl⟩
    simp only [List.length_cons] at hl₂
    refine .bind ((ih.block bs ds (.elseBlock g g₁ t.position) _ hc₃).weaken
      (fun h => by simp only at h; omega)) ?_
    rintro elseBlock _ rest₄ hc₄ _ ⟨g₂, rfl, rfl⟩
    exact .pure hc₄ ⟨_, _, rfl, rfl⟩
  · rw [if_neg (by rwa [Symbol.isMark_iff])]
    refine .of_verdict (.pure hc₂ ⟨_, _, rfl, rfl⟩)
      (Machine.verdict_afterThen hc₂ (Stream.next_cons.2 ?_))
    rintro k hk rfl
    exact hu ((Token.terminal?_eq_iff (by decide)).1 hk)

theorem loop_follows {inLoop : Bool} (hs : Stream.Closed ⟨t :: rest, failure⟩)
    (ht : t.symbol = .mark "while") :
    Follows (budget + 1 < 12 * (t :: rest).length + 10) (statement (budget + 1) .loop inLoop)
      ⟨bs, ds, .boundary b⟩ ⟨t :: rest, failure⟩ (Done bs ds) := by
  have hr : Machine.read ⟨bs, ds, .boundary b⟩ t =
      .ok ⟨bs, ds, .beforeParen (.loop t.position)⟩ :=
    Machine.read_mark .loop ht (by decide) (by decide) rfl
  simp only [List.length_cons]
  unfold statement
  refine .bind (.consume hs ht hr) ?_
  rintro t _ _ hc _ ⟨rfl, rfl, rfl⟩
  refine .bind ((condition_follows rfl hc).weaken (fun h => by simp only at h; omega)) ?_
  rintro c _ rest₁ hc₁ _ ⟨⟨g, rfl, rfl⟩, hl₁⟩
  simp only at hl₁
  refine .bind ((ih.block bs ds (.body g t.position) rest₁ hc₁).weaken (fun h => by omega)) ?_
  rintro body _ rest₂ hc₂ _ ⟨g₁, rfl, rfl⟩
  exact .pure hc₂ ⟨_, _, rfl, rfl⟩

theorem statementRule_follows (hs : Stream.Closed ⟨t :: rest, failure⟩)
    (hf : t.symbol.isFinish = false) (hsemi : t.symbol ≠ .mark ";")
    (hb : t.symbol = .mark "\x7d" → bs = []) :
    Follows (budget + 1 < 12 * (t :: rest).length + 11)
      (statement (budget + 1) .statement (looped bs)) ⟨bs, ds, .boundary b⟩ ⟨t :: rest, failure⟩
      (Done bs ds) := by
  unfold statement
  refine .look run_peek_cons ?_
  split
  · rename_i ht
    exact (printStatement_follows hs ht).weaken (fun h => by omega)
  · rename_i ht
    exact inputStatement_follows hs ht
  · rename_i ht
    exact (ih.branch bs ds b t rest failure hs ht).weaken (fun h => by omega)
  · rename_i ht
    exact (ih.loop bs ds b _ t rest failure hs ht).weaken (fun h => by omega)
  · rename_i ht
    exact breakStatement_follows hs ht
  · rename_i ht
    refine .of_verdict ((ih.block bs ds .bare ⟨t :: rest, failure⟩ hs).mono
      (fun h => by simp only at h; omega) ?_) ?_
    · rintro n _ rest' _ ⟨block, rfl, rfl⟩
      exact ⟨_, _, rfl, rfl⟩
    · rw [Machine.verdict_cons hf, Machine.verdict_cons hf,
        Machine.read_mark .leftBrace ht (by decide) (by decide) rfl,
        Machine.read_mark .leftBrace ht (by decide) (by decide) rfl]
      rfl
  · rename_i h₁ h₂ h₃ h₄ h₅ h₆
    refine (plainStatement_follows hs hf ?_ hb).weaken (fun h => by omega)
    intro k hk
    simp only [List.mem_cons, List.not_mem_nil, or_false, not_or]
    refine ⟨?_, ?_, ?_, ?_, ?_, ?_, ?_⟩ <;> rintro rfl
    · exact h₁ ((Token.terminal?_eq_iff (by decide)).1 hk)
    · exact h₃ ((Token.terminal?_eq_iff (by decide)).1 hk)
    · exact h₄ ((Token.terminal?_eq_iff (by decide)).1 hk)
    · exact h₂ ((Token.terminal?_eq_iff (by decide)).1 hk)
    · exact h₅ ((Token.terminal?_eq_iff (by decide)).1 hk)
    · exact h₆ ((Token.terminal?_eq_iff (by decide)).1 hk)
    · exact hsemi ((Token.terminal?_eq_iff (by decide)).1 hk)

end Rules

/-- Statements follow the machine, whatever the rule and the budget. -/
theorem statement_follows (budget : Nat) : StatementFollows budget := by
  induction budget with
  | zero =>
    have hshort : ∀ {inLoop rule m s post} (short : Prop), short →
        Follows short (statement 0 rule inLoop) m s post := by
      intro inLoop rule m s post short h
      constructor
      · intro n rest hr
        cases hr
      · intro e hr
        cases hr
        exact .inl ⟨rfl, h⟩
    constructor
    · intros
      exact hshort _ (by omega)
    · intros
      exact hshort _ (by omega)
    · intros
      exact hshort _ (by omega)
    · intros
      exact hshort _ (by omega)
  | succ budget ih =>
    constructor
    · intro bs ds b t rest failure hs hf hsemi hb
      exact statementRule_follows ih hs hf hsemi hb
    · intro bs ds b t rest failure hs ht
      exact branch_follows ih hs ht
    · intro bs ds b inLoop t rest failure hs ht
      exact loop_follows ih hs ht
    · intro bs ds opening s hs
      exact block_follows ih hs

/-- A program follows the machine from its start, and ends where it can end. -/
theorem program_follows (budget : Nat) {s : Stream} (hs : s.Closed) :
    Follows (budget < 12 * s.tokens.length + 11) (program budget) Machine.start s
      fun n next rest => (∃ g, g.node = n ∧ next.verdict rest = .ok g) ∧
        ∃ t more, rest.tokens = t :: more ∧ t.symbol.isFinish = true := by
  refine .look (a := s) rfl ?_
  refine .bind (sequence_follows [] s.tokens.length ?_ ?_ _ hs (by simp)
    (Nat.le_refl _)) ?_
  · exact statement_takes_some budget _
  · intro ds b t rest failure hs hn hcl ht
    refine ((statement_follows budget).statement [] ds b t rest failure hs hcl ht
      fun _ => rfl).weaken ?_
    omega
  · rintro ns _ _ hc _ ⟨ds, b, t, more, failure, rfl, rfl, rfl, hcl⟩
    refine .pure hc ⟨⟨.above (.program (ds.reverse.map (·.node))) ds.reverse, rfl, ?_⟩,
      t, more, rfl, hcl⟩
    rw [Machine.verdict_finish hcl, Machine.close, Machine.toOption_finish_boundary]
    rfl

end Scriptling.Descent
