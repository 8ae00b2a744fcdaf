import Scriptling.Proofs.Soundness
import Scriptling.Proofs.Writing

/-!
# Written programs read back

A written expression is read as the expression, at its own level and from there at every
looser one, as long as what follows it is no operator that would take it as an operand.
On the levels that group to the left, an operand on the left is a shorter chain: reading
the whole comes down to going on with the chain where that operand ends.
-/
namespace Scriptling.Descent

open Writing

section Yields

variable {α β : Type} {r : Reading α} {s s' s'' : Stream} {P : α → Prop} {Q : β → Prop}

/-- Whether reading ends in the given stream with a result as described, unless the text
is nested too deeply. -/
def Yields (r : Reading α) (s : Stream) (P : α → Prop) (s' : Stream) : Prop :=
  r.run s = .error tooDeep ∨ ∃ a, r.run s = .ok (a, s') ∧ P a

namespace Yields

theorem of_ok {a : α} (h : r.run s = .ok (a, s')) (ha : P a) : Yields r s P s' :=
  .inr ⟨a, h, ha⟩

theorem pure {a : α} (ha : P a) : Yields (pure a) s P s :=
  of_ok rfl ha

theorem tooDeep : Yields (throw Descent.tooDeep : Reading α) s P s' :=
  .inl rfl

theorem bind {k : α → Reading β} (h : Yields r s P s') (hk : ∀ a, P a → Yields (k a) s' Q s'') :
    Yields (r >>= k) s Q s'' := by
  rcases h with h | ⟨a, h, ha⟩
  · exact .inl (run_bind_eq_error_iff.2 (.inl h))
  · rcases hk a ha with hk | ⟨b, hk, hb⟩
    · exact .inl (run_bind_eq_error_iff.2 (.inr ⟨a, s', h, hk⟩))
    · exact .inr ⟨b, run_bind_eq_ok_iff.2 ⟨a, s', h, hk⟩, hb⟩

/-- A step whose outcome is known. -/
theorem step {a : α} {k : α → Reading β} (h : r.run s = .ok (a, s')) (hk : Yields (k a) s' Q s'') :
    Yields (r >>= k) s Q s'' :=
  bind (of_ok h rfl) fun _ ha => ha ▸ hk

end Yields
end Yields

section Expressions

variable {level tighter : Level} {n l r : Node} {ss ls rs : List Symbol} {t : Token}

/-- Whether a token behind an expression of a level is not taken for a part of it. -/
structure Ends (level : Level) (t : Token) : Prop where
  operator : ∀ l : Level, level.rank ≤ l.rank → operator? l.operators t = none
  update : updateOperator? t = none

theorem Ends.mono (h : Ends level t) {level' : Level} (hle : level.rank ≤ level'.rank) :
    Ends level' t :=
  ⟨fun l hl => h.operator l (Nat.le_trans hle hl), h.update⟩

theorem operator?_mark_eq_none {ops : List String} {text : String} (ht : t.symbol = .mark text)
    (h : text ∉ ops) : operator? ops t = none := by
  simp [operator?, ht, h]

/-- The bracket and the semicolon that may follow a whole expression. -/
theorem ends_of_mark {text : String} (ht : t.symbol = .mark text) (h : text ∈ [")", ";"])
    (level : Level) : Ends level t := by
  have hops : ∀ text ∈ [")", ";"], text ∉ Node.binaryOperators := by decide
  refine ⟨fun l _ => operator?_mark_eq_none ht fun hop => hops text h (mem_binaryOperators hop), ?_⟩
  rw [updateOperator?, ht]
  simp only [List.mem_cons, List.not_mem_nil, or_false] at h
  rcases h with rfl | rfl <;> rfl

theorem updateOperator?_operator {op : String} (h : op ∈ Node.binaryOperators)
    (ht : t.symbol = .mark op) : updateOperator? t = none := by
  have hne : ∀ op ∈ Node.binaryOperators, op ≠ "+=" ∧ op ≠ "-=" ∧ op ≠ "*=" ∧ op ≠ "/=" ∧
      op ≠ "%=" := by decide
  obtain ⟨h₁, h₂, h₃, h₄, h₅⟩ := hne op h
  simp [updateOperator?, ht, h₁, h₂, h₃, h₄, h₅]

theorem not_mem_operators {own l : Level} {op : String} (h : op ∈ own.operators)
    (hlt : own.rank < l.rank) : op ∉ l.operators := by
  revert op
  cases own <;> cases l <;> first | decide | exact absurd hlt (by decide)

/-- An operator ends an expression of a tighter level. -/
theorem ends_of_operator {own : Level} {op : String} (hop : op ∈ own.operators)
    (ht : t.symbol = .mark op) (hl : own.rank < level.rank) : Ends level t :=
  ⟨fun _ hle => operator?_mark_eq_none ht (not_mem_operators hop (Nat.lt_of_lt_of_le hl hle)),
    updateOperator?_operator (mem_binaryOperators hop) ht⟩

/-- Whether the symbols are read as an expression of a level in front of a token. -/
def ReadsBefore (t : Token) (level : Level) (n : Node) (ss : List Symbol) : Prop :=
  ∀ budget ts rest failure, ts.map (·.symbol) = ss →
    Yields (expression budget level) ⟨ts ++ t :: rest, failure⟩ (·.bare = n.bare)
      ⟨t :: rest, failure⟩

/-- Whether a level that groups to the left has, at the end of the symbols, made a tree
of them with which it goes on. -/
def ChainsBefore (t : Token) (level tighter : Level) (n : Node) (ss : List Symbol) : Prop :=
  ∀ budget ts rest failure, ts.map (·.symbol) = ss →
    (expression (budget + 1) level).run ⟨ts ++ t :: rest, failure⟩ = .error tooDeep ∨
      ∃ n' more, n'.bare = n.bare ∧
        (expression (budget + 1) level).run ⟨ts ++ t :: rest, failure⟩ =
          (chain level.operators (expression budget tighter) more n').run ⟨t :: rest, failure⟩

theorem expression_leftGrouped (h : level.operands? = some (level, tighter)) (budget : Nat) :
    expression (budget + 1) level =
      leftGrouped level.operators (expression budget tighter) := by
  cases level <;> cases h <;> rfl

/-- A chain may begin with whatever the operands may be. -/
theorem ChainsBefore.of_reads (hl : level.operands? = some (level, tighter))
    (h : ReadsBefore t tighter n ss) : ChainsBefore t level tighter n ss := by
  intro budget ts rest failure hts
  rw [expression_leftGrouped hl, leftGrouped]
  rcases h budget ts rest failure hts with h | ⟨n', h, hn⟩
  · exact .inl (run_bind_eq_error_iff.2 (.inl h))
  · refine .inr ⟨n', Token.missing :: t :: rest, hn, ?_⟩
    rw [run_bind_of_ok h]
    rfl

theorem run_chain_of_operator {ops : List String} {operand : Reading Node} {x u : Token}
    {more rest : List Token} {failure : Option Error} {op : String}
    (hop : op ∈ ops) (hu : u.symbol = .mark op) :
    (chain ops operand (x :: more) l).run ⟨u :: rest, failure⟩ =
      (operand >>= fun r => chain ops operand more (.binary (.str op) l r)).run
        ⟨rest, failure⟩ := by
  have hread : operator? ops u = some op := operator?_eq_some_iff.2 ⟨hu, hop⟩
  rw [chain, run_bind_of_ok run_peek_cons]
  simp only [hread]
  rw [run_bind_of_ok (run_advance_cons (isFinish_of_mark hu))]

theorem split_symbols {ts : List Token} {s : Symbol} (h : ts.map (·.symbol) = ls ++ s :: rs) :
    ∃ as u bs, ts = as ++ u :: bs ∧ as.map (·.symbol) = ls ∧ u.symbol = s ∧
      bs.map (·.symbol) = rs := by
  obtain ⟨as, us, rfl, has, hus⟩ := List.map_eq_append_iff.1 h
  obtain ⟨u, bs, rfl, hu, hbs⟩ := List.map_eq_cons_iff.1 hus
  exact ⟨as, u, bs, rfl, has, hu, hbs⟩

/-- A chain goes on with an operator and an operand. -/
theorem ChainsBefore.binary {op : String} (hop : op ∈ level.operators)
    (hleft : ∀ u : Token, u.symbol = .mark op → ChainsBefore u level tighter l ls)
    (hright : ReadsBefore t tighter r rs) :
    ChainsBefore t level tighter (.binary (.str op) l r) (ls ++ .mark op :: rs) := by
  intro budget ts rest failure hts
  obtain ⟨as, u, bs, rfl, has, hu, hbs⟩ := split_symbols hts
  rw [List.append_assoc, List.cons_append]
  rcases hleft u hu budget as (bs ++ t :: rest) failure has with h | ⟨l', more, hl', h⟩
  · exact .inl h
  rw [h]
  cases more with
  | nil => exact .inl rfl
  | cons x more =>
    rw [run_chain_of_operator hop hu]
    rcases hright budget bs rest failure hbs with h | ⟨r', h, hr'⟩
    · exact .inl (run_bind_eq_error_iff.2 (.inl h))
    · refine .inr ⟨.binary (.str op) l' r', more, ?_, ?_⟩
      · rw [Node.bare, Node.bare, hl', hr']
      · exact run_bind_of_ok h

/-- A chain ends where no operator of its level follows. -/
theorem ReadsBefore.of_chains (ht : Ends level t)
    (h : ChainsBefore t level tighter n ss) : ReadsBefore t level n ss := by
  intro budget ts rest failure hts
  cases budget with
  | zero => exact .inl rfl
  | succ budget =>
    rcases h budget ts rest failure hts with h | ⟨n', more, hn, h⟩
    · exact .inl h
    cases more with
    | nil => exact .inl h
    | cons x more =>
      refine .of_ok (h.trans ?_) hn
      rw [chain, run_bind_of_ok run_peek_cons]
      simp only [ht.operator level (Nat.le_refl _)]
      rfl

/-- Whether an expression does not begin with a sign. -/
def Unsigned (ss : List Symbol) : Prop :=
  ∃ s rest, ss = s :: rest ∧ ∀ op ∈ Node.signOperators, s ≠ .mark op

theorem unsigned_paren (ss : List Symbol) : Unsigned (.mark "(" :: ss) :=
  ⟨_, _, rfl, by simp [Node.signOperators]⟩

/-- Whether symbols are one operand, which may stand in parentheses. -/
def Single (ss : List Symbol) : Prop :=
  ∃ s rest, ss = s :: rest ∧ ((∃ x, s = .ident x) → rest = [])

/-- An expression is read at the next looser level, too. -/
theorem ReadsBefore.loosen (hl : level.tighter? = some tighter) (ht : Ends level t)
    (hsign : level = .signed → Unsigned ss) (hsingle : level = .assignment → Single ss)
    (h : ReadsBefore t tighter n ss) : ReadsBefore t level n ss := by
  have leftGrouped : level.operands? = some (level, tighter) → ReadsBefore t level n ss :=
    fun ho => .of_chains ht (.of_reads ho h)
  cases level <;> cases hl
  case disjunction | conjunction | comparison | sum | product => exact leftGrouped rfl
  all_goals
    intro budget ts rest failure hts
    cases budget with
    | zero => exact .inl rfl
    | succ budget => ?_
  case expression => exact h budget ts rest failure hts
  case signed =>
    obtain ⟨s, rest', rfl, hs⟩ := hsign rfl
    obtain ⟨u, us, rfl, hu, hus⟩ := List.map_eq_cons_iff.1 hts
    refine .step run_peek_cons ?_
    have hread : operator? ["-", "!"] u = none := by
      cases ho : operator? ["-", "!"] u with
      | none => rfl
      | some op =>
        obtain ⟨hop, hmem⟩ := operator?_eq_some_iff.1 ho
        exact (hs op hmem (hu.symm.trans hop)).elim
    rw [hread]
    exact h budget (u :: us) rest failure hts
  case power =>
    refine .bind (h budget ts rest failure hts) fun base hbase => .step run_peek_cons ?_
    have hread : operator? ["^"] t = none := ht.operator .power (Nat.le_refl _)
    rw [hread]
    exact .pure hbase
  case assignment =>
    obtain ⟨s, rest', rfl, hs⟩ := hsingle rfl
    obtain ⟨u, us, rfl, hu, hus⟩ := List.map_eq_cons_iff.1 hts
    refine .step run_peek_cons ?_
    split
    · rename_i x hx
      have hnil : us = [] := by
        rw [hs ⟨x, hu.symm.trans hx⟩] at hus
        exact List.map_eq_nil_iff.1 hus
      subst hnil
      refine .step (run_peekSecond_cons (by rw [hx]; rfl)) ?_
      rw [ht.update]
      exact h budget [u] rest failure hts
    · exact h budget (u :: us) rest failure hts

theorem rank_of_tighter? (h : level.tighter? = some tighter) : tighter.rank = level.rank + 1 := by
  cases level <;> cases h <;> rfl

theorem exists_tighter? {own : Level} (h : level.rank < own.rank) :
    ∃ tighter, level.tighter? = some tighter := by
  cases level with
  | primary => cases own <;> exact absurd h (by decide)
  | _ => exact ⟨_, rfl⟩

/-- An expression is read at every level that is not tighter than its own. -/
theorem ReadsBefore.lift {own : Level} (hle : level.rank ≤ own.rank) (ht : Ends level t)
    (hsign : Level.signed.rank < own.rank → Unsigned ss)
    (hsingle : Level.assignment.rank < own.rank → Single ss)
    (h : ReadsBefore t own n ss) : ReadsBefore t level n ss := by
  obtain ⟨k, hk⟩ := Nat.exists_eq_add_of_le hle
  induction k generalizing level with
  | zero =>
    have heq : level = own := by
      revert hk
      cases level <;> cases own <;> decide
    exact heq ▸ h
  | succ k ih =>
    obtain ⟨tighter, hl⟩ := exists_tighter? (show level.rank < own.rank by omega)
    have hr := rank_of_tighter? hl
    refine .loosen hl ht ?_ ?_ (ih (by omega) (ht.mono (by omega)) (by omega))
    · rintro rfl
      exact hsign (by omega)
    · rintro rfl
      exact hsingle (by omega)

/-- What is said of the symbols of an expression in a place of a level. -/
structure Reads (level : Level) (n : Node) (ss : List Symbol) : Prop where
  reads : ∀ t, Ends level t → ReadsBefore t level n ss
  chains : ∀ tighter, level.operands? = some (level, tighter) → ∀ t, Ends tighter t →
    ChainsBefore t level tighter n ss

theorem rank_of_operands? (h : level.operands? = some (level, tighter)) :
    tighter.rank = level.rank + 1 := by
  cases level <;> cases h <;> rfl

/-- An expression may stand in every place that is not tighter than itself. -/
theorem Reads.of_own {own : Level} (hle : level.rank ≤ own.rank)
    (hsign : Level.signed.rank < own.rank → Unsigned ss)
    (hsingle : Level.assignment.rank < own.rank → Single ss) (h : Reads own n ss) :
    Reads level n ss where
  reads t ht := (h.reads t (ht.mono hle)).lift hle ht hsign hsingle
  chains tighter hl t ht := by
    have hr := rank_of_operands? hl
    by_cases heq : level = own
    · subst heq
      exact h.chains tighter hl t ht
    · have hlt : tighter.rank ≤ own.rank := by
        rw [hr]
        refine Nat.lt_of_le_of_ne hle fun hr => heq ?_
        revert hr
        cases level <;> cases own <;> decide
      exact .of_reads hl ((h.reads t (ht.mono hlt)).lift hlt ht hsign hsingle)

/-- A level without chains of its own. -/
theorem Reads.of_unchained (h : ∀ t, Ends level t → ReadsBefore t level n ss)
    (hl : Level.signed.rank ≤ level.rank) : Reads level n ss := by
  refine ⟨h, fun tighter ho => ?_⟩
  cases level <;> cases ho <;> exact absurd hl (by decide)

theorem Reads.of_chains (hl : level.operands? = some (level, tighter))
    (h : ∀ t, Ends tighter t → ChainsBefore t level tighter n ss) : Reads level n ss where
  reads t ht := .of_chains ht (h t (ht.mono (by rw [rank_of_operands? hl]; exact Nat.le_succ _)))
  chains tighter' hl' t ht := by
    cases hl.symm.trans hl'
    exact h t ht

theorem Reads.binary {op : String} (hl : level.operands? = some (level, tighter))
    (hop : op ∈ level.operators) (hleft : Reads level l ls) (hright : Reads tighter r rs) :
    Reads level (.binary (.str op) l r) (ls ++ .mark op :: rs) := by
  refine .of_chains hl fun t ht => .binary hop (fun u hu => ?_) (hright.reads t ht)
  have hlt : level.rank < tighter.rank := by
    rw [rank_of_operands? hl]
    exact Nat.lt_succ_self _
  exact hleft.chains tighter hl u (ends_of_operator hop hu hlt)

theorem Reads.power (hleft : Reads .assignment l ls) (hright : Reads .signed r rs) :
    Reads .power (.binary (.str "^") l r) (ls ++ .mark "^" :: rs) := by
  refine .of_unchained (fun t ht budget ts rest failure hts => ?_) (by decide)
  obtain ⟨as, u, bs, rfl, has, hu, hbs⟩ := split_symbols hts
  cases budget with
  | zero => exact .inl rfl
  | succ budget =>
    have hop : "^" ∈ Level.power.operators := by decide
    have hu' : Ends .assignment u := ends_of_operator hop hu (by decide)
    have ht' : Ends .signed t := by
      refine ⟨fun l hle => ?_, ht.update⟩
      by_cases hl : l = .signed
      · subst hl
        cases hs : t.symbol <;> simp [operator?, hs, Level.operators]
      · refine ht.operator l ?_
        revert hle hl
        cases l <;> decide
    rw [List.append_assoc, List.cons_append]
    refine .bind (hleft.reads u hu' budget as (bs ++ t :: rest) failure has) fun l' hl' => ?_
    have hread : operator? ["^"] u = some "^" := operator?_eq_some_iff.2 ⟨hu, by decide⟩
    refine .step run_peek_cons ?_
    rw [hread]
    refine .step (run_advance_cons (isFinish_of_mark hu)) ?_
    refine .bind (hright.reads t ht' budget bs rest failure hbs) fun r' hr' => .pure ?_
    rw [Node.bare, Node.bare, hl', hr']

theorem Reads.sign {op : String} (hop : op ∈ Node.signOperators) (h : Reads .signed n ss) :
    Reads .signed (.unary (.str op) n) (.mark op :: ss) := by
  refine .of_unchained (fun t ht budget ts rest failure hts => ?_) (by decide)
  obtain ⟨u, us, rfl, hu, hus⟩ := List.map_eq_cons_iff.1 hts
  cases budget with
  | zero => exact .inl rfl
  | succ budget =>
    have hread : operator? ["-", "!"] u = some op := operator?_eq_some_iff.2 ⟨hu, hop⟩
    refine .step run_peek_cons ?_
    rw [hread]
    refine .step (run_advance_cons (isFinish_of_mark hu)) ?_
    refine .bind (h.reads t ht budget us rest failure hus) fun n' hn' => .pure ?_
    rw [Node.bare, Node.bare, hn']

theorem updateOperator?_of_mark {op : String} (hop : op ∈ Node.updateOperators)
    (ht : t.symbol = .mark (op ++ "=")) : updateOperator? t = some op := by
  simp only [Node.updateOperators, List.mem_cons, List.not_mem_nil, or_false] at hop
  rw [updateOperator?, ht]
  rcases hop with rfl | rfl | rfl | rfl | rfl <;> rfl

theorem Reads.update {x op : String} {m : Mark} (hop : op ∈ Node.updateOperators)
    (h : Reads .expression n ss) :
    Reads .expression (.update (.str x) (.str op) n m) (.ident x :: .mark (op ++ "=") :: ss) := by
  refine ⟨fun t ht => ?_, nofun⟩
  have own : ReadsBefore t .assignment (.update (.str x) (.str op) n m)
      (.ident x :: .mark (op ++ "=") :: ss) := by
    intro budget ts rest failure hts
    obtain ⟨u, us, rfl, hu, hus⟩ := List.map_eq_cons_iff.1 hts
    obtain ⟨v, vs, rfl, hv, hvs⟩ := List.map_eq_cons_iff.1 hus
    cases budget with
    | zero => exact .inl rfl
    | succ budget =>
      have hu' : u.symbol.isFinish = false := by rw [hu]; rfl
      refine .step run_peek_cons ?_
      simp only [hu]
      refine .step (run_peekSecond_cons hu') ?_
      rw [updateOperator?_of_mark hop hv]
      refine .step (run_advance_cons hu') (.step (run_advance_cons (isFinish_of_mark hv)) ?_)
      refine .bind (h.reads t ht budget vs rest failure hvs) fun n' hn' => .pure ?_
      rw [Node.bare, Node.bare, hn']
  refine own.lift (by decide) ht (fun _ => ⟨_, _, rfl, nofun⟩) fun hlt => ?_
  exact absurd hlt (by decide)

/-- What the tightest level reads may stand everywhere. -/
theorem Reads.of_primary (hsign : Unsigned ss) (hsingle : Single ss)
    (h : ∀ t, ReadsBefore t .primary n ss) : Reads level n ss := by
  have own : Reads .primary n ss := .of_unchained (fun t _ => h t) (by decide)
  refine own.of_own ?_ (fun _ => hsign) fun _ => hsingle
  cases level <;> decide

/-- One token that is an operand. -/
theorem Reads.literal {s : Symbol} (hs : ∀ op ∈ Node.signOperators, s ≠ .mark op)
    (h : ∀ budget u s', u.symbol = s → Yields (expression (budget + 1) .primary)
      ⟨u :: s'.tokens, s'.failure⟩ (·.bare = n.bare) s') : Reads level n [s] := by
  refine .of_primary ⟨s, [], rfl, hs⟩ ⟨s, [], rfl, fun _ => rfl⟩ ?_
  intro t budget ts rest failure hts
  obtain ⟨u, rfl, hu⟩ := List.map_eq_singleton_iff.1 hts
  cases budget with
  | zero => exact .inl rfl
  | succ budget => exact h budget u ⟨t :: rest, failure⟩ hu

theorem Reads.paren (h : Reads .expression n ss) :
    Reads level n (.mark "(" :: ss ++ [.mark ")"]) := by
  refine .of_primary (unsigned_paren _) ⟨_, _, rfl, nofun⟩ ?_
  intro t budget ts rest failure hts
  obtain ⟨u, us, rfl, hu, hus⟩ := List.map_eq_cons_iff.1 hts
  obtain ⟨as, v, bs, rfl, has, hv, hbs⟩ := split_symbols hus
  cases List.map_eq_nil_iff.1 hbs
  cases budget with
  | zero => exact .inl rfl
  | succ budget =>
    have htokens : (u :: (as ++ [v])) ++ t :: rest = u :: (as ++ v :: t :: rest) := by simp
    rw [htokens]
    refine .step run_peek_cons ?_
    simp only [hu]
    refine .step (run_advance_cons (isFinish_of_mark hu)) ?_
    refine .bind (h.reads v (ends_of_mark hv (by decide) _) budget as (t :: rest) failure has)
      fun n' hn' => ?_
    exact .step (run_consume_cons hv) (.pure hn')

/-- An expression without a sign in front where its place is too tight for one. -/
theorem unsigned_of_expression (h : Writing.Expression level n ss)
    (hl : Level.signed.rank < level.rank) : Unsigned ss := by
  induction h with
  | number => exact ⟨_, _, rfl, nofun⟩
  | string => exact ⟨_, _, rfl, nofun⟩
  | bool => exact ⟨_, _, rfl, nofun⟩
  | ident => exact ⟨_, _, rfl, nofun⟩
  | paren => exact unsigned_paren _
  | sign hle => exact absurd hl (Nat.not_lt.2 hle)
  | @binary own level left right op l r ls rs hle ho hop _ _ ihl _ =>
    have hleft : Level.signed.rank < left.rank := by
      have hown : Level.signed.rank < own.rank := Nat.lt_of_lt_of_le hl hle
      clear hle ihl hop
      cases own <;> cases ho <;> revert hown <;> decide
    obtain ⟨s, rest, rfl, hs⟩ := ihl hleft
    exact ⟨s, _, rfl, hs⟩
  | update => exact absurd hl (by decide)

/-- A written expression is read as the expression. -/
theorem reads_of_expression (h : Writing.Expression level n ss) : Reads level n ss := by
  have token : ∀ {s : Symbol}, s.isFinish = false → ∀ {u : Token}, u.symbol = s →
      u.symbol.isFinish = false := fun hs _ hu => hu ▸ hs
  induction h with
  | number =>
    refine .literal nofun fun budget u s' hu => .step run_peek_cons ?_
    simp only [hu]
    exact .step (run_advance_cons (token rfl hu)) (.pure rfl)
  | string =>
    refine .literal nofun fun budget u s' hu => .step run_peek_cons ?_
    simp only [hu]
    exact .step (run_advance_cons (token rfl hu)) (.pure rfl)
  | bool =>
    refine .literal nofun fun budget u s' hu => .step run_peek_cons ?_
    simp only [hu]
    exact .step (run_advance_cons (token rfl hu)) (.pure rfl)
  | ident =>
    refine .literal nofun fun budget u s' hu => .step run_peek_cons ?_
    simp only [hu]
    exact .step (run_advance_cons (token rfl hu)) (.pure rfl)
  | paren _ ih => exact ih.paren
  | sign hle hop _ ih =>
    exact (ih.sign hop).of_own hle (fun hlt => absurd hlt (by decide))
      (fun hlt => absurd hlt (by decide))
  | @binary own level left right op l r ls rs hle ho hop hl hr ihl ihr =>
    have hsingle : Level.assignment.rank < own.rank → Single (ls ++ .mark op :: rs) := by
      intro hlt
      cases own <;> cases ho <;> exact absurd hlt (by decide)
    by_cases hpower : own = .power
    · subst hpower
      cases ho
      cases List.mem_singleton.1 hop
      refine (ihl.power ihr).of_own hle (fun _ => ?_) hsingle
      obtain ⟨s, rest, rfl, hs⟩ := unsigned_of_expression hl (by decide)
      exact ⟨s, _, rfl, hs⟩
    · have hleft : left = own := by
        cases own <;> cases ho <;> first | rfl | exact absurd rfl hpower
      subst hleft
      refine (ihl.binary ho hop ihr).of_own hle (fun hlt => ?_) hsingle
      cases left <;> cases ho <;> exact absurd hlt (by decide)
  | update hop _ ih => exact ih.update hop

end Expressions

section Statements

open Grammar (Phrase)

variable {inLoop : Bool} {n : Node} {ss : List Symbol}

/-- The symbols that an expression can begin with. -/
def mayBegin : Symbol → Bool
  | .mark text => ["(", "-", "!"].contains text
  | .finish => false
  | _ => true

theorem mayBegin_of_expression {level : Level} (h : Writing.Expression level n ss) :
    ∃ s rest, ss = s :: rest ∧ mayBegin s = true := by
  induction h with
  | number => exact ⟨_, _, rfl, rfl⟩
  | string => exact ⟨_, _, rfl, rfl⟩
  | bool => exact ⟨_, _, rfl, rfl⟩
  | ident => exact ⟨_, _, rfl, rfl⟩
  | paren => exact ⟨_, _, rfl, rfl⟩
  | sign _ hop => exact ⟨_, _, rfl, List.contains_iff_mem.2 (List.mem_cons_of_mem _ hop)⟩
  | binary _ _ _ _ _ _ ihl =>
    obtain ⟨s, rest, rfl, hs⟩ := ihl
    exact ⟨s, _, rfl, hs⟩
  | update => exact ⟨_, _, rfl, rfl⟩

/-- No expression holds the sign of a plain assignment. -/
theorem ne_equal_of_expression {level : Level} (h : Writing.Expression level n ss) :
    ∀ s ∈ ss, s ≠ .mark "=" := by
  induction h with
  | number => simp
  | string => simp
  | bool => simp
  | ident => simp
  | paren _ ih => simpa [or_imp, forall_and] using ih
  | sign _ hop _ ih =>
    refine List.forall_mem_cons.2 ⟨?_, ih⟩
    rintro ⟨⟩
    exact absurd hop (by decide)
  | binary _ _ _ hop _ _ ihl ihr =>
    intro s hs
    rcases List.mem_append.1 hs with hs | hs
    · exact ihl s hs
    · refine List.forall_mem_cons.2 ⟨?_, ihr⟩ s hs
      rintro ⟨⟩
      exact absurd (mem_binaryOperators hop) (by decide)
  | @update x op _ _ _ hop _ ih =>
    refine List.forall_mem_cons.2 ⟨nofun, List.forall_mem_cons.2 ⟨?_, ih⟩⟩
    have key : ∀ op ∈ Node.updateOperators, op ++ "=" ≠ "=" := by decide
    intro heq
    exact key op hop (Symbol.mark.inj heq)

/-- The first symbol of a statement neither ends a sequence nor stands between statements. -/
theorem first_of_written {phrase : Phrase} (h : Written inLoop phrase n ss)
    (hp : phrase = .statement ∨ phrase = .block) :
    ∃ s rest, ss = s :: rest ∧ s ≠ .mark ";" ∧ s ≠ .mark "\x7d" ∧ s ≠ .finish := by
  induction h with
  | program | nil | cons => simp at hp
  | nested _ ih => exact ih (.inr rfl)
  | evaluate he =>
    obtain ⟨s, rest, rfl, hs⟩ := mayBegin_of_expression he
    refine ⟨s, rest, rfl, ?_, ?_, ?_⟩
    · rintro rfl
      exact absurd hs (by decide)
    · rintro rfl
      exact absurd hs (by decide)
    · rintro rfl
      cases hs
  | _ => exact ⟨_, _, rfl, by simp, by simp, by simp⟩

theorem yields_condition (h : Writing.Condition n ss) {ts : List Token}
    (hts : ts.map (·.symbol) = ss) (budget : Nat) (rest : List Token) (failure : Option Error) :
    Yields (condition budget) ⟨ts ++ rest, failure⟩ (·.bare = n.bare) ⟨rest, failure⟩ := by
  cases h with
  | intro he =>
    obtain ⟨u, us, rfl, hu, hus⟩ := List.map_eq_cons_iff.1 hts
    obtain ⟨as, v, bs, rfl, has, hv, hbs⟩ := split_symbols hus
    cases List.map_eq_nil_iff.1 hbs
    have htokens : (u :: (as ++ [v])) ++ rest = u :: (as ++ v :: rest) := by simp
    rw [htokens]
    refine .step (run_consume_cons hu) ?_
    refine .bind ((reads_of_expression he).reads v (ends_of_mark hv (by decide) _) budget as rest
      failure has) fun c hc => ?_
    exact .step (run_consume_cons hv) (.pure hc)

/-- Whether a sequence of statements ends at a brace or at the end of the text only. -/
def Closing (closes : Symbol → Bool) : Prop :=
  ∀ s, closes s = true → s = .mark "\x7d" ∨ s = .finish

/-- Whether the symbols of a phrase are read as the phrase. -/
def ReadsPhrase (inLoop : Bool) : Phrase → Node → List Symbol → Prop
  | .statement, n, ss => ∀ budget ts t rest failure, ts.map (·.symbol) = ss →
    t.symbol = .mark ";" →
    Yields (statement budget .statement inLoop) ⟨ts ++ t :: rest, failure⟩ (·.bare = n.bare)
      ⟨t :: rest, failure⟩
  | .block, n, ss => ∀ budget ts rest failure, ts.map (·.symbol) = ss →
    Yields (statement budget .block inLoop) ⟨ts ++ rest, failure⟩ (·.bare = n.bare)
      ⟨rest, failure⟩
  | .items, n, ss => ∀ closes budget more done ts t rest failure, Closing closes →
    ts.map (·.symbol) = ss → closes t.symbol = true →
    Yields (sequence closes (statement budget .statement inLoop) more done)
      ⟨ts ++ t :: rest, failure⟩
      (fun ns => ∃ ms, ns = done.reverse ++ ms ∧ (Node.block ms).bare = n.bare)
      ⟨t :: rest, failure⟩
  | .program, n, ss => ∀ budget ts p, ts.map (·.symbol) = ss →
    Yields (program budget) (.whole ts p) (·.bare = n.bare) ⟨[⟨.finish, p⟩], none⟩

theorem readsPhrase_cons {ns : List Node} {us : List Symbol}
    (hw : Written inLoop .statement n ss) (hn : ReadsPhrase inLoop .statement n ss)
    (hns : ReadsPhrase inLoop .items (.block ns) us) :
    ReadsPhrase inLoop .items (.block (n :: ns)) (ss ++ .mark ";" :: us) := by
  intro closes budget more done ts t rest failure hcl hts ht
  obtain ⟨as, u, bs, rfl, has, hu, hbs⟩ := split_symbols hts
  rw [List.append_assoc, List.cons_append]
  have hopen : ∀ {s : Symbol}, s ≠ .mark "\x7d" → s ≠ .finish → closes s = false := by
    intro s hb hf
    rw [Bool.eq_false_iff]
    exact fun hs => (hcl s hs).elim hb hf
  cases more with
  | nil => exact .inl rfl
  | cons x more =>
    have hfirst : ∃ v vs, as = v :: vs ∧ v.symbol ≠ .mark ";" ∧ closes v.symbol = false := by
      obtain ⟨s, rest', rfl, hsemi, hbrace, hfin⟩ := first_of_written hw (.inl rfl)
      obtain ⟨v, vs, rfl, hv, -⟩ := List.map_eq_cons_iff.1 has
      exact ⟨v, vs, rfl, hv ▸ hsemi, hopen (hv ▸ hbrace) (hv ▸ hfin)⟩
    obtain ⟨v, vs, rfl, hsemi, hv⟩ := hfirst
    have hsemi' : ¬ v.symbol.isMark ";" = true := fun h => hsemi (Symbol.isMark_iff.1 h)
    rw [sequence]
    refine .step run_peek_cons ?_
    rw [hv, if_neg nofun, if_neg hsemi']
    refine .bind (hn budget (v :: vs) u (bs ++ t :: rest) failure has hu) fun m hm => ?_
    cases more with
    | nil => exact .inl rfl
    | cons y more =>
      rw [sequence]
      refine .step run_peek_cons ?_
      rw [hopen (by rw [hu]; simp) (by rw [hu]; simp), if_neg nofun,
        if_pos (Symbol.isMark_iff.2 hu)]
      refine .step (run_advance_cons (isFinish_of_mark hu)) ?_
      rcases hns closes budget more (m :: done) bs t rest failure hcl hbs ht with
        h | ⟨_, h, ms, rfl, hms⟩
      · exact .inl h
      · refine .of_ok h ⟨m :: ms, by simp, ?_⟩
        rw [Node.bare, Node.bare] at hms ⊢
        rw [Node.bareAll, Node.bareAll, hm, Node.block.inj hms]

theorem readsPhrase_evaluate {m : Mark} (he : Writing.Expression .expression n ss) :
    ReadsPhrase inLoop .statement (.evaluate n m) ss := by
  intro budget ts t rest failure hts ht
  cases budget with
  | zero => exact .inl rfl
  | succ budget =>
    obtain ⟨s, rest', rfl, hs⟩ := mayBegin_of_expression he
    obtain ⟨u, us, rfl, hu, hus⟩ := List.map_eq_cons_iff.1 hts
    have hread := (reads_of_expression he).reads t (ends_of_mark ht (by decide) _) budget (u :: us)
      rest failure hts
    have hvalue : Yields
        (do return Node.evaluate (← expression budget .expression) (.of u.position))
        ⟨u :: us ++ t :: rest, failure⟩ (·.bare = (Node.evaluate n m).bare)
        ⟨t :: rest, failure⟩ := by
      refine .bind hread fun n' hn' => .pure ?_
      rw [Node.bare, Node.bare, hn']
    have hplain : Yields (plainStatement budget u) ⟨u :: us ++ t :: rest, failure⟩
        (·.bare = (Node.evaluate n m).bare) ⟨t :: rest, failure⟩ := by
      unfold plainStatement
      split
      · rename_i x hx
        -- the next token is one of the expression or the semicolon behind it
        obtain ⟨v, vs, hvs, hv⟩ : ∃ v vs, us ++ t :: rest = v :: vs ∧ v.symbol ≠ .mark "=" := by
          cases us with
          | nil => exact ⟨t, rest, rfl, by rw [ht]; simp⟩
          | cons v vs =>
            refine ⟨v, vs ++ t :: rest, rfl, ne_equal_of_expression he _ ?_⟩
            rw [← hus]
            simp
        rw [List.cons_append, hvs] at hvalue ⊢
        refine .step (run_peekSecond_cons (by rw [hx]; rfl)) ?_
        rw [if_neg fun h => hv (Symbol.isMark_iff.1 h)]
        exact hvalue
      · exact hvalue
    rw [statement]
    refine .step run_peek_cons ?_
    split
    all_goals first
      | exact hplain
      | (rename_i heq
         rw [hu] at heq
         subst heq
         exact absurd hs (by decide))

theorem readsPhrase_block (h : ReadsPhrase inLoop .items n ss) :
    ReadsPhrase inLoop .block n (.mark "\x7b" :: ss ++ [.mark "\x7d"]) := by
  intro budget ts rest failure hts
  obtain ⟨u, us, rfl, hu, hus⟩ := List.map_eq_cons_iff.1 hts
  obtain ⟨as, v, bs, rfl, has, hv, hbs⟩ := split_symbols hus
  cases List.map_eq_nil_iff.1 hbs
  cases budget with
  | zero => exact .inl rfl
  | succ budget =>
    have htokens : (u :: (as ++ [v])) ++ rest = u :: (as ++ v :: rest) := by simp
    have hcl : Closing closesBlock := by
      intro s hs
      cases s <;> simp_all [closesBlock, Symbol.isMark, Symbol.isFinish]
    have hclose : closesBlock v.symbol = true := by
      rw [hv]
      rfl
    rw [htokens, statement]
    refine .step (run_consume_cons hu) (.step rfl ?_)
    refine .bind (h closesBlock budget _ [] as v rest failure hcl has hclose) fun ns hns => ?_
    obtain ⟨ms, rfl, hms⟩ := hns
    exact .step (run_consume_cons hv) (.pure hms)

/-- The tokens of a condition and of a block behind a keyword. -/
theorem split_keyword {ts : List Token} {s : Symbol} {cs bs : List Symbol}
    (h : ts.map (·.symbol) = s :: cs ++ bs) :
    ∃ u as us, ts = u :: (as ++ us) ∧ u.symbol = s ∧ as.map (·.symbol) = cs ∧
      us.map (·.symbol) = bs := by
  obtain ⟨u, vs, rfl, hu, hvs⟩ := List.map_eq_cons_iff.1 h
  obtain ⟨as, us, rfl, has, hus⟩ := List.map_eq_append_iff.1 hvs
  exact ⟨u, as, us, rfl, hu, has, hus⟩

/-- The keyword or bracket at which statements are read by a rule of their own. -/
def Rule.opener? : Rule → Option String
  | .statement => none
  | .branch => some "if"
  | .loop => some "while"
  | .block => some "\x7b"

theorem Yields.of_rule (rule : Rule) {word : String} (hr : rule.opener? = some word) {u : Token}
    (hu : u.symbol = .mark word) {us : List Token} {failure : Option Error} {P : Node → Prop}
    {s' : Stream} (h : ∀ budget, Yields (statement budget rule inLoop) ⟨u :: us, failure⟩ P s')
    (budget : Nat) : Yields (statement budget .statement inLoop) ⟨u :: us, failure⟩ P s' := by
  cases budget with
  | zero => exact .inl rfl
  | succ budget =>
    rw [statement]
    refine .step run_peek_cons ?_
    cases rule <;> cases hr <;> simp only [hu] <;> exact h budget

theorem readsPhrase_branch {c thenBlock : Node} {m : Mark} {cs ts : List Symbol}
    (hc : Writing.Condition c cs) (ht : ReadsPhrase inLoop .block thenBlock ts) :
    ReadsPhrase inLoop .statement (.branch c thenBlock .absent m) (.mark "if" :: cs ++ ts) := by
  intro budget tokens t rest failure htokens hsemi
  obtain ⟨u, as, us, rfl, hu, has, hus⟩ := split_keyword htokens
  rw [List.cons_append, List.append_assoc]
  refine .of_rule .branch rfl hu (fun budget => ?_) budget
  cases budget with
  | zero => exact .inl rfl
  | succ budget =>
    rw [statement]
    refine .step (run_consume_cons hu) ?_
    refine .bind (yields_condition hc has budget _ failure) fun c' hc' => ?_
    refine .bind (ht budget us (t :: rest) failure hus) fun thenBlock' ht' => ?_
    refine .step run_peek_cons ?_
    rw [if_neg (by rw [hsemi]; decide)]
    refine .pure ?_
    simp only [Node.bare, hc', ht']

theorem readsPhrase_branchElse {c thenBlock elseBlock : Node} {m : Mark} {cs ts es : List Symbol}
    (hc : Writing.Condition c cs) (ht : ReadsPhrase inLoop .block thenBlock ts)
    (he : ReadsPhrase inLoop .block elseBlock es) :
    ReadsPhrase inLoop .statement (.branch c thenBlock elseBlock m)
      (.mark "if" :: cs ++ ts ++ .mark "else" :: es) := by
  intro budget tokens t rest failure htokens hsemi
  rw [List.append_assoc] at htokens
  obtain ⟨u, as, us, rfl, hu, has, hus⟩ := split_keyword htokens
  obtain ⟨bs, v, ds, rfl, hbs, hv, hds⟩ := split_symbols hus
  rw [List.cons_append, List.append_assoc, List.append_assoc, List.cons_append]
  refine .of_rule .branch rfl hu (fun budget => ?_) budget
  cases budget with
  | zero => exact .inl rfl
  | succ budget =>
    rw [statement]
    refine .step (run_consume_cons hu) ?_
    refine .bind (yields_condition hc has budget _ failure) fun c' hc' => ?_
    refine .bind (ht budget bs _ failure hbs) fun thenBlock' ht' => ?_
    refine .step run_peek_cons ?_
    rw [if_pos (Symbol.isMark_iff.2 hv)]
    refine .step (run_advance_cons (isFinish_of_mark hv)) ?_
    refine .bind (he budget ds (t :: rest) failure hds) fun elseBlock' he' => .pure ?_
    rw [Node.bare, Node.bare, hc', ht', he']

theorem readsPhrase_loop {c body : Node} {m : Mark} {cs bs : List Symbol}
    (hc : Writing.Condition c cs) (hb : ReadsPhrase true .block body bs) :
    ReadsPhrase inLoop .statement (.loop c body m) (.mark "while" :: cs ++ bs) := by
  intro budget tokens t rest failure htokens hsemi
  obtain ⟨u, as, us, rfl, hu, has, hus⟩ := split_keyword htokens
  rw [List.cons_append, List.append_assoc]
  refine .of_rule .loop rfl hu (fun budget => ?_) budget
  cases budget with
  | zero => exact .inl rfl
  | succ budget =>
    rw [statement]
    refine .step (run_consume_cons hu) ?_
    refine .bind (yields_condition hc has budget _ failure) fun c' hc' => ?_
    refine .bind (hb budget us (t :: rest) failure hus) fun body' hb' => .pure ?_
    rw [Node.bare, Node.bare, hc', hb']

/-- A written phrase is read as the phrase. -/
theorem readsPhrase_of_written {phrase : Phrase} (h : Written inLoop phrase n ss) :
    ReadsPhrase inLoop phrase n ss := by
  induction h with
  | program _ ih =>
    intro budget ts p hts
    have hcl : Closing Symbol.isFinish := by
      intro s hs
      cases s <;> simp_all [Symbol.isFinish]
    refine .step rfl ?_
    refine .bind (ih Symbol.isFinish budget _ [] ts ⟨.finish, p⟩ [] none hcl hts rfl)
      fun ns hns => .pure ?_
    obtain ⟨ms, rfl, hms⟩ := hns
    simp only [Node.bare, Node.block.injEq] at hms
    simp only [Node.bare]
    exact congrArg Node.program hms
  | nil =>
    intro closes budget more done ts t rest failure hcl hts ht
    cases List.map_eq_nil_iff.1 hts
    cases more with
    | nil => exact .inl rfl
    | cons x more =>
      rw [sequence]
      refine .step run_peek_cons ?_
      rw [ht, if_pos rfl]
      exact .pure ⟨[], by simp, rfl⟩
  | cons hw _ ihn ihns => exact readsPhrase_cons hw ihn ihns
  | block _ ih => exact readsPhrase_block ih
  | print hc =>
    intro budget ts t rest failure hts ht
    obtain ⟨u, us, rfl, hu, hus⟩ := List.map_eq_cons_iff.1 hts
    cases budget with
    | zero => exact .inl rfl
    | succ budget =>
      rw [statement]
      refine .step run_peek_cons ?_
      simp only [hu]
      refine .step (run_consume_cons hu) ?_
      refine .bind (yields_condition hc hus budget (t :: rest) failure) fun c hc => .pure ?_
      rw [Node.bare, Node.bare, hc]
  | input =>
    intro budget ts t rest failure hts ht
    obtain ⟨u, us, rfl, hu, hus⟩ := List.map_eq_cons_iff.1 hts
    obtain ⟨v, rfl, hv⟩ := List.map_eq_singleton_iff.1 hus
    cases budget with
    | zero => exact .inl rfl
    | succ budget =>
      rw [statement]
      refine .step run_peek_cons ?_
      simp only [hu]
      refine .step (run_consume_cons hu) (.step run_peek_cons ?_)
      simp only [hv]
      exact .step (run_advance_cons (by rw [hv]; rfl)) (.pure rfl)
  | branch hc _ iht => exact readsPhrase_branch hc iht
  | branchElse hc _ _ iht ihe => exact readsPhrase_branchElse hc iht ihe
  | loop hc _ ih => exact readsPhrase_loop hc ih
  | leave =>
    intro budget ts t rest failure hts ht
    obtain ⟨u, rfl, hu⟩ := List.map_eq_singleton_iff.1 hts
    cases budget with
    | zero => exact .inl rfl
    | succ budget =>
      rw [statement]
      refine .step run_peek_cons ?_
      simp only [hu]
      exact .step (run_consume_cons hu) (.pure rfl)
  | nested hw ih =>
    intro budget ts t rest failure hts ht
    have hread := fun budget => ih budget ts (t :: rest) failure hts
    cases hw with
    | block =>
      obtain ⟨u, us, rfl, hu, hus⟩ := List.map_eq_cons_iff.1 hts
      exact .of_rule .block rfl hu hread budget
  | assign he =>
    intro budget ts t rest failure hts ht
    obtain ⟨u, us, rfl, hu, hus⟩ := List.map_eq_cons_iff.1 hts
    obtain ⟨v, vs, rfl, hv, hvs⟩ := List.map_eq_cons_iff.1 hus
    cases budget with
    | zero => exact .inl rfl
    | succ budget =>
      have hu' : u.symbol.isFinish = false := by
        rw [hu]
        rfl
      rw [statement]
      refine .step run_peek_cons ?_
      simp only [hu, plainStatement]
      refine .step (run_peekSecond_cons hu') ?_
      rw [if_pos (Symbol.isMark_iff.2 hv)]
      refine .step (run_advance_cons hu') (.step (run_advance_cons (isFinish_of_mark hv)) ?_)
      refine .bind ((reads_of_expression he).reads t (ends_of_mark ht (by decide) _) budget vs rest
        failure hvs) fun n' hn' => .pure ?_
      rw [Node.bare, Node.bare, hn']
  | evaluate he => exact readsPhrase_evaluate he

end Statements

/-- A program that is written with blanks between its symbols is read as the program, up
to places, unless the text is nested too deeply. -/
theorem parse_of_written {p : Node} {ss : List Symbol} {text : String} (hp : p.IsProgram)
    (hw : Written false .program p ss) (ht : Spaced ss text.toList)
    (hdeep : parse text ≠ .error tooDeep) : ∃ n, parse text = .ok n ∧ n.bare = p.bare := by
  obtain ⟨ts, q, hts, hsym⟩ := ht.tokenize_eq (hw.legible hp)
  rw [parse, hts, parseStream] at hdeep ⊢
  rcases readsPhrase_of_written hw budget ts q hsym with h | ⟨n, h, hn⟩
  · exact (hdeep (run'_eq_error_iff.2 h)).elim
  · exact ⟨n, run'_eq_ok_iff.2 ⟨_, h⟩, hn⟩

/-- The tree of `x = - 2 ^ - y ^ z ; while ( ( x -= y ) - x - z ) { break ; } ;`. -/
def knottedTree : Node :=
  .program
    [.assign (.str "x") (.unary (.str "-") (.binary (.str "^") (.number 2)
      (.unary (.str "-") (.binary (.str "^") (.ident (.str "y") .unknown)
        (.ident (.str "z") .unknown))))) .unknown,
    .loop (.binary (.str "-") (.binary (.str "-")
      (.update (.str "x") (.str "-") (.ident (.str "y") .unknown) .unknown)
      (.ident (.str "x") .unknown)) (.ident (.str "z") .unknown))
      (.block [.leave .unknown]) .unknown]

def knottedText : String :=
  "x = - 2 ^ - y ^ z ; while ( ( x -= y ) - x - z ) \x7b break ; \x7d ;"

theorem parse_knottedText :
    knottedTree.IsProgram ∧ parse knottedText ≠ .error tooDeep ∧
      ∃ n, parse knottedText = .ok n ∧ n.bare = knottedTree.bare := by
  have name : ∀ x ∈ ["x", "y", "z"], (Symbol.ident x).Legible := by
    intro x hx
    simp only [List.mem_cons, List.not_mem_nil, or_false] at hx
    rcases hx with rfl | rfl | rfl <;> exact ⟨⟨_, _, rfl, rfl, nofun⟩, rfl⟩
  have hx := name "x" (by decide)
  have hy := name "y" (by decide)
  have hz := name "z" (by decide)
  have hp : knottedTree.IsProgram := by
    refine .intro (List.forall_mem_cons.2 ⟨.assign hx (.unary (by decide) ?_),
      List.forall_mem_cons.2 ⟨.loop ?_ (List.forall_mem_cons.2 ⟨.leave, nofun⟩), nofun⟩⟩)
    · exact .binary (by decide) (.number ⟨rfl, rfl⟩)
        (.unary (by decide) (.binary (by decide) (.ident hy) (.ident hz)))
    · exact .binary (by decide) (.binary (by decide) (.update hx (by decide) (.ident hy))
        (.ident hx)) (.ident hz)
  obtain ⟨ss, hw, ht⟩ : ∃ ss, Written false .program knottedTree ss ∧
      Spaced ss knottedText.toList := by
    refine ⟨_, .program (.cons (.assign (.sign (by decide) (by decide)
      (.binary .power (by decide) rfl (by decide) .number (.sign (by decide) (by decide)
        (.binary .power (by decide) rfl (by decide) .ident .ident)))))
      (.cons (.loop (.intro (.binary .sum (by decide) rfl (by decide)
        (.binary .sum (by decide) rfl (by decide) (.paren (.update (by decide) .ident))
          .ident) .ident)) (.block (.cons .leave .nil))) .nil)), ?_⟩
    exact spaced_intercalate _
  have hdeep : parse knottedText ≠ .error tooDeep := nofun
  exact ⟨hp, hdeep, parse_of_written hp hw ht hdeep⟩

end Scriptling.Descent
