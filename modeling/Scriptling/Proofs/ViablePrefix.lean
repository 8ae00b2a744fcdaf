import Scriptling.Proofs.Acceptance
import Scriptling.Proofs.Locality

/-!
# Errors at the first impossible token

Every outline can be completed: open parentheses and blocks are closed, and an
operand or a name is put where one is wanted. So the tokens that have been read
without an error are the beginning of some program, and a token that is refused
ends all hope. Where only the end is refused, the tokens are a beginning and no
program.
-/
namespace Scriptling

namespace ShiftReduce.Outline

/-- Whether some tokens lead from an outline to one where a program may end. -/
def Completes (o : Outline) : Prop :=
  ∃ ts final, o.run ts = some final ∧ final.isFinal = true

theorem Completes.of_read {o next : Outline} {t : Token} (hn : Completes next)
    (h : o.read t = some next) : Completes o := by
  obtain ⟨ts, final, hr, hf⟩ := hn
  exact ⟨t :: ts, final, by rw [run, h, Option.bind_some, hr], hf⟩

/-- A keyword, an operator or a bracket, wherever it stands. -/
def mark (text : String) : Token := ⟨.mark text, .start⟩

/-- Blocks are closed one by one. -/
theorem completes_of_isReady {o : Outline} (h : o.isReady = true) : Completes o := by
  obtain ⟨fs, stage⟩ := o
  induction fs generalizing stage with
  | nil => exact ⟨[], _, rfl, by rw [isFinal, h]; rfl⟩
  | cons frame fs ih =>
    obtain ⟨next, hn, hr, hf⟩ := Grammar.isReady_of_closeBlock frame fs
    obtain ⟨fs', stage'⟩ := next
    cases hf
    refine (ih stage' hr).of_read (t := mark "\x7d") ?_
    rw [read_mark .rightBrace rfl (by decide) (by decide), step_of_isReady h (by decide)]
    exact hn

theorem completes_beforeBrace (fs : List Frame) (frame : Frame) :
    Completes ⟨fs, .beforeBrace frame⟩ := by
  refine (completes_of_isReady (o := ⟨frame :: fs, .boundary⟩) rfl).of_read (t := mark "\x7b") ?_
  rw [read_mark .leftBrace rfl (by decide) (by decide)]
  rfl

/-- Parentheses are closed from the innermost, and then the clause itself. -/
theorem completes_operator (fs : List Frame) (clause : Clause) (parens : Nat)
    (ending : Ending) : Completes ⟨fs, .operator clause parens ending⟩ := by
  induction parens generalizing ending with
  | zero =>
    have hr : ∀ {stage}, afterClause clause = some stage → Completes ⟨fs, stage⟩ →
        Completes ⟨fs, .operator clause 0 ending⟩ := by
      intro stage hs hc
      refine hc.of_read (t := mark ")") ?_
      rw [read_rightParen rfl]
      simp [hs]
    cases clause with
    | plain => exact completes_of_isReady rfl
    | print => exact hr rfl (completes_of_isReady rfl)
    | branch => exact hr rfl (completes_beforeBrace fs .thenBlock)
    | loop => exact hr rfl (completes_beforeBrace fs .body)
  | succ n ih =>
    refine (ih .closed).of_read (t := mark ")") ?_
    rw [read_rightParen rfl]

theorem completes_operand (fs : List Frame) (clause : Clause) (parens : Nat) :
    Completes ⟨fs, .operand clause parens⟩ :=
  (completes_operator fs clause parens .closed).of_read (t := ⟨.bool true, .start⟩) rfl

/-- Whatever has been read can be completed. -/
theorem completes (o : Outline) : Completes o := by
  obtain ⟨fs, stage⟩ := o
  cases stage with
  | boundary => exact completes_of_isReady rfl
  | afterThen => exact completes_of_isReady rfl
  | beforeParen clause =>
    refine (completes_operand fs clause 0).of_read (t := mark "(") ?_
    rw [read_mark .leftParen rfl (by decide) (by decide)]
    rfl
  | beforeName =>
    exact (completes_of_isReady (o := ⟨fs, .boundary⟩) rfl).of_read (t := ⟨.ident "x", .start⟩) rfl
  | beforeBrace frame => exact completes_beforeBrace fs frame
  | operand clause parens => exact completes_operand fs clause parens
  | operator clause parens ending => exact completes_operator fs clause parens ending

/-- Tokens are read to the end or up to one that is refused. -/
theorem run_or_refuse (o : Outline) (ts : List Token) :
    (∃ final, o.run ts = some final) ∨
      ∃ us t vs next, ts = us ++ t :: vs ∧ o.run us = some next ∧ next.read t = none := by
  induction ts generalizing o with
  | nil => exact .inl ⟨o, rfl⟩
  | cons t ts ih =>
    cases hr : o.read t with
    | none => exact .inr ⟨[], t, ts, o, rfl, rfl, hr⟩
    | some next =>
      rcases ih next with ⟨final, hf⟩ | ⟨us, u, vs, next', rfl, hn, hu⟩
      · exact .inl ⟨final, by rw [run, hr, Option.bind_some, hf]⟩
      · exact .inr ⟨t :: us, u, vs, next', rfl, by rw [run, hr, Option.bind_some, hn], hu⟩

theorem isFinish_of_run {o final : Outline} {ts : List Token} (h : o.run ts = some final) :
    ∀ t ∈ ts, t.symbol.isFinish = false := by
  induction ts generalizing o with
  | nil => simp
  | cons t ts ih =>
    obtain ⟨next, hr, h⟩ := Option.bind_eq_some_iff.1 h
    intro u hu
    rcases List.mem_cons.1 hu with rfl | hu
    · exact isFinish_of_read hr
    · exact ih h u hu

end ShiftReduce.Outline

namespace Descent

open ShiftReduce

/-- Whether some tokens are a program, within a budget that is large enough. -/
def Accepted (ts : List Token) : Prop :=
  (∀ t ∈ ts, t.symbol.isFinish = false) ∧
    ∃ budget p n, (program budget).run' (.whole ts p) = .ok n

/-- Whether some tokens are the beginning of a program. -/
def Viable (ts : List Token) : Prop := ∃ more, Accepted (ts ++ more)

theorem accepted_iff {ts : List Token} : Accepted ts ↔ Outline.Accepts ts := by
  constructor
  · rintro ⟨hts, budget, p, n, hr⟩
    exact (derives_of_program_eq_ok hts hr).accepts
  · intro h
    obtain ⟨g, hg⟩ := Machine.verdict_of_accepts h .start
    obtain ⟨o, hr, -⟩ := h
    refine ⟨Outline.isFinish_of_run hr, 12 * (Stream.whole ts .start).tokens.length + 11, .start,
      g.node, program_eq_ok_of_verdict (Stream.closed_whole ts .start) (fun h => ?_) hg⟩
    omega

theorem viable_iff {ts : List Token} : Viable ts ↔ ∃ o, Outline.start.run ts = some o := by
  constructor
  · rintro ⟨more, h⟩
    obtain ⟨o, hr, -⟩ := accepted_iff.1 h
    rw [Outline.run_append, Option.bind_eq_some_iff] at hr
    obtain ⟨o', hr, -⟩ := hr
    exact ⟨o', hr⟩
  · rintro ⟨o, hr⟩
    obtain ⟨more, final, hm, hf⟩ := o.completes
    refine ⟨more, accepted_iff.2 ⟨final, ?_, hf⟩⟩
    rw [Outline.run_append, hr, Option.bind_some, hm]

/-- The errors of a machine that does not read a token. -/
theorem read_eq_error_cases {m : Machine} {t : Token} {e : Error} (h : m.read t = .error e) :
    e = unexpected (m.wanted t) t ∨ e = .located .breakOutsideLoop t.position := by
  unfold Machine.read at h
  split at h
  · cases h
    exact .inl rfl
  · split at h
    · cases h
      exact .inr rfl
    · cases h

theorem cause_unexpected {expected : String} {t : Token} (ht : t.symbol.isFinish = false) :
    (unexpected expected t).cause = .unexpectedToken expected t.symbol.describe := by
  simp [unexpected, ht, Error.located]

/-- A refused token is refused with one error, whatever follows it. -/
theorem exists_verdict_of_refused {us : List Token} {t : Token} {o : Outline}
    (ht : t.symbol.isFinish = false) (hr : Outline.start.run us = some o) (hn : o.read t = none) :
    ∃ e, (∀ vs failure, Machine.start.verdict ⟨us ++ t :: vs, failure⟩ = .error e) ∧
      ((∃ expected, e = unexpected expected t) ∨ e = .located .breakOutsideLoop t.position) := by
  obtain ⟨m, rfl, hv⟩ := Machine.verdict_of_run (m := .start) hr
  obtain ⟨e, he⟩ := Machine.read_eq_error_of_outline hn
  refine ⟨e, fun vs failure => ?_, (read_eq_error_cases he).imp_left fun h => ⟨_, h⟩⟩
  rw [hv, Machine.verdict_cons ht, he]

/-- The verdict on a program whose tokens can all be read. -/
theorem verdict_whole_of_run {ts : List Token} {o : Outline} (hr : Outline.start.run ts = some o)
    (p : Position) :
    (o.isFinal = true ∧ ∃ g, Machine.start.verdict (.whole ts p) = .ok g) ∨
      (o.isFinal = false ∧ ∃ expected,
        Machine.start.verdict (.whole ts p) = .error (.located (.unexpectedEnd expected) p)) := by
  obtain ⟨m, rfl, hv⟩ := Machine.verdict_of_run (m := .start) hr
  rw [Stream.whole, hv, Machine.verdict_finish rfl]
  cases ho : m.outline.isFinal with
  | true => exact .inl ⟨rfl, (Machine.isOk_close m _).2 ho⟩
  | false =>
    refine .inr ⟨rfl, m.wanted ⟨.finish, p⟩, ?_⟩
    have hf : m.finish.toOption = none := by
      rw [← Machine.isSome_finish] at ho
      simpa using ho
    rw [Machine.close, hf]
    rfl

/-- A stream that fails behind some tokens, with an error that no parser reports, or
goes on with others up to an end. -/
def continuation (vs : List Token) (p : Position) : Continuation :=
  ⟨.unplaced .unterminatedString, vs ++ [⟨.finish, p⟩], none⟩

theorem goOn_continuation (us vs : List Token) (t : Token) (p : Position) :
    (continuation vs p).goOn (us ++ [t]) = .whole (us ++ t :: vs) p := by
  simp [continuation, Continuation.goOn, Stream.whole]

/-- What a program is refused for at a token, every program with the same tokens up to
that one is refused for. -/
theorem program_eq_error_of_same_start {budget : Nat} {us vs : List Token} {t : Token}
    {p : Position} {expected : String} (ht : t.symbol.isFinish = false)
    (hv : ∀ failure, Machine.start.verdict ⟨us ++ [t], failure⟩ = .error (unexpected expected t))
    (hr : (program budget).run' (.whole (us ++ t :: vs) p) = .error (unexpected expected t))
    (vs' : List Token) (p' : Position) :
    (program budget).run' (.whole (us ++ t :: vs') p') = .error (unexpected expected t) := by
  have hext := fun vs p => program_local budget (continuation vs p) (us ++ [t])
  have hcut := program_follows budget ((continuation vs p).closed_cutOff (us ++ [t]))
  -- both programs do what is done on the tokens that they share
  have hshared : ∃ e, (program budget).run ((continuation vs p).cutOff (us ++ [t])) = .error e ∧
      e ≠ .unplaced .unterminatedString := by
    cases h : (program budget).run ((continuation vs p).cutOff (us ++ [t])) with
    | ok x =>
      obtain ⟨next, hn, -, -, ⟨g, -, hg⟩, -⟩ := hcut.ok x.1 x.2 h
      cases (hv _).symm.trans (hn.trans hg)
    | error e =>
      refine ⟨e, rfl, ?_⟩
      rcases hcut.error e h with ⟨rfl, -⟩ | he
      · nofun
      · cases (hv _).symm.trans he
        intro he
        have := congrArg Error.cause he
        rw [cause_unexpected ht] at this
        cases this
  obtain ⟨e, he, hne⟩ := hshared
  have hall : ∀ vs p, (program budget).run' (.whole (us ++ t :: vs) p) = .error e := by
    intro vs p
    rw [← goOn_continuation, run'_eq_error_iff]
    exact ((hext vs p).error e he).resolve_left hne
  cases (hall vs p).symm.trans hr
  exact hall vs' p'

theorem whole_append (us vs : List Token) (t : Token) (p : Position) :
    Stream.whole (us ++ t :: vs) p = ⟨us ++ t :: (vs ++ [⟨.finish, p⟩]), none⟩ := by
  simp [Stream.whole]

/-- An unexpected token is the first one that no program has in its place. -/
theorem first_impossible_of_unexpectedToken {budget : Nat} {ts : List Token} {p : Position}
    {e : Error} {expected found : String} (hts : ∀ t ∈ ts, t.symbol.isFinish = false)
    (hr : (program budget).run' (.whole ts p) = .error e)
    (hc : e.cause = .unexpectedToken expected found) :
    ∃ us t vs, ts = us ++ t :: vs ∧ e = unexpected expected t ∧ Viable us ∧
      ¬ Viable (us ++ [t]) ∧
      ∀ vs' p', (program budget).run' (.whole (us ++ t :: vs') p') = .error e := by
  have hdeep : e ≠ tooDeep := by
    rintro rfl
    cases hc
  have hv := verdict_of_program_eq_error (Stream.closed_whole ts p) hdeep hr
  rcases Outline.start.run_or_refuse ts with ⟨o, ho⟩ | ⟨us, t, vs, o, rfl, ho, hn⟩
  · rcases verdict_whole_of_run ho p with ⟨-, g, hg⟩ | ⟨-, expected', he⟩
    · cases hv.symm.trans hg
    · cases hv.symm.trans he
      cases hc
  · have ht : t.symbol.isFinish = false := hts t (by simp)
    obtain ⟨e', he', hcases⟩ := exists_verdict_of_refused ht ho hn
    rw [whole_append, he'] at hv
    cases hv
    obtain rfl : e = unexpected expected t := by
      rcases hcases with ⟨expected', rfl⟩ | rfl
      · rw [cause_unexpected ht] at hc
        cases hc
        rfl
      · cases hc
    refine ⟨us, t, vs, rfl, rfl, viable_iff.2 ⟨o, ho⟩, ?_,
      program_eq_error_of_same_start ht (he' []) hr⟩
    rw [viable_iff, Outline.run_append, ho, Option.bind_some, Outline.run, hn]
    simp

theorem unexpectedEnd_iff {budget : Nat} {ts : List Token} {p : Position}
    (hts : ∀ t ∈ ts, t.symbol.isFinish = false)
    (hdeep : (program budget).run' (.whole ts p) ≠ .error tooDeep) :
    (∃ e expected, (program budget).run' (.whole ts p) = .error e ∧
      e.cause = .unexpectedEnd expected) ↔ ¬ Accepted ts ∧ Viable ts := by
  have hs := Stream.closed_whole ts p
  have hverdict : ∀ {e}, (program budget).run' (.whole ts p) = .error e →
      Machine.start.verdict (.whole ts p) = .error e := fun he =>
    verdict_of_program_eq_error hs (fun h => hdeep (h ▸ he)) he
  rw [accepted_iff, viable_iff]
  constructor
  · rintro ⟨e, expected, hr, hc⟩
    rcases Outline.start.run_or_refuse ts with ⟨o, ho⟩ | ⟨us, t, vs, o, rfl, ho, hn⟩
    · refine ⟨?_, o, ho⟩
      rintro h
      obtain ⟨g, hg⟩ := Machine.verdict_of_accepts h p
      cases (hverdict hr).symm.trans hg
    · have ht : t.symbol.isFinish = false := hts t (by simp)
      obtain ⟨e', he', hcases⟩ := exists_verdict_of_refused ht ho hn
      have hv := hverdict hr
      rw [whole_append, he'] at hv
      cases hv
      rcases hcases with ⟨expected', rfl⟩ | rfl
      · rw [cause_unexpected ht] at hc
        cases hc
      · cases hc
  · rintro ⟨hno, o, ho⟩
    rcases verdict_whole_of_run ho p with ⟨hf, -⟩ | ⟨-, expected, he⟩
    · exact (hno ⟨o, ho, hf⟩).elim
    · cases hr : (program budget).run' (.whole ts p) with
      | ok n =>
        obtain ⟨g, hg, -⟩ := verdict_of_program_eq_ok hs hr
        cases he.symm.trans hg
      | error e =>
        cases he.symm.trans (hverdict hr)
        exact ⟨_, expected, rfl, rfl⟩

/-- Within the limit on nesting, a token is reported as unexpected only if it is the
first one that no program has in its place, and so it is in every program with the same
tokens up to it. The end is reported as unexpected if and only if the tokens are the
beginning of a program and no program themselves. -/
theorem syntax_errors_at_first_impossible_token (budget : Nat) (ts : List Token) (p : Position)
    (hts : ∀ t ∈ ts, t.symbol.isFinish = false)
    (hdeep : (program budget).run' (.whole ts p) ≠ .error tooDeep) :
    (∀ e expected found, (program budget).run' (.whole ts p) = .error e →
      e.cause = .unexpectedToken expected found →
      ∃ us t vs, ts = us ++ t :: vs ∧ e = unexpected expected t ∧ Viable us ∧
        ¬ Viable (us ++ [t]) ∧
        ∀ vs' p', (program budget).run' (.whole (us ++ t :: vs') p') = .error e) ∧
    ((∃ e expected, (program budget).run' (.whole ts p) = .error e ∧
      e.cause = .unexpectedEnd expected) ↔ ¬ Accepted ts ∧ Viable ts) :=
  ⟨fun _ _ _ hr hc => first_impossible_of_unexpectedToken hts hr hc, unexpectedEnd_iff hts hdeep⟩

/-- The tokens of `print(a +)`. -/
def danglingPlus : List Token :=
  [⟨.mark "print", ⟨1, 1⟩⟩, ⟨.mark "(", ⟨1, 6⟩⟩, ⟨.ident "a", ⟨1, 7⟩⟩, ⟨.mark "+", ⟨1, 9⟩⟩,
    ⟨.mark ")", ⟨1, 10⟩⟩]

theorem syntax_error_at_dangling_plus :
    (program 60).run' (.whole danglingPlus ⟨1, 11⟩) ≠ .error tooDeep ∧
      ∃ us t vs, danglingPlus = us ++ t :: vs ∧ Viable us ∧ ¬ Viable (us ++ [t]) ∧
        (program 60).run' (.whole danglingPlus ⟨1, 11⟩) = .error (unexpected "expression" t) := by
  have h := syntax_errors_at_first_impossible_token 60 danglingPlus ⟨1, 11⟩ (by decide) nofun
  obtain ⟨us, t, vs, hts, he, hv, hn, -⟩ := h.1 _ _ _ rfl rfl
  exact ⟨nofun, us, t, vs, hts, hv, hn, congrArg Except.error he⟩

end Descent
end Scriptling
