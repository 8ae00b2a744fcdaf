import Scriptling.Proofs.Lexemes
import Scriptling.ShiftReduce.Parse

/-!
# Offences

A number out of range and a `break` without a loop are offences that the machine
passes over and that a stream of tokens stops at. The verdict on the tokens of some
lexemes is settled at the first lexeme that is an offence or that the machine cannot
read; if there is none, by what follows the lexemes.
-/
namespace Scriptling.ShiftReduce

/-- Whether a lexeme may occur in a text. -/
def Fit (l : Lexeme) : Prop :=
  l.piece.Proper ∧ l.piece.isLexeme = true

/-- Whether no offence has been read. -/
structure Clean (m : Machine) : Prop where
  overflow : overflows.machine m = none
  stray : strayBreaks.machine m = none
  settled : overflows.Settled m
  settled' : strayBreaks.Settled m

theorem clean_start : Clean .start :=
  ⟨rfl, rfl, overflows.settled_of_control rfl, strayBreaks.settled_of_control rfl⟩

theorem overflow_of_symbol?_eq_some {l : Lexeme} (hl : Fit l) {s : Symbol}
    (hs : l.symbol? = some s) (b : Bool) : overflows.occurrence b (.ofLexeme l) = none := by
  have key : ∀ {t : Token} {o : Occurrence}, Occurrence.ofToken? t = some o →
      o.operand.bind (·.overflow) = none := by
    intro t o h
    unfold Occurrence.ofToken? at h
    split at h
    case h_6 =>
      obtain ⟨terminal, -, rfl⟩ := Option.map_eq_some_iff.1 h
      rfl
    all_goals
      cases h
      try rfl
  unfold Survey.occurrence
  split
  · rfl
  · exact key (Occurrence.ofToken?_of_symbol? hl.1 hs)

theorem overflow_of_symbol?_eq_none {l : Lexeme} (hl : Fit l) (hs : l.symbol? = none) (b : Bool) :
    overflows.occurrence b (.ofLexeme l) = some l.position := by
  rw [Occurrence.ofLexeme_of_symbol?_eq_none hl.2 hs]
  rfl

theorem position_of_overflow {l : Lexeme} (hl : Fit l) {b : Bool} {p : Position}
    (h : overflows.occurrence b (.ofLexeme l) = some p) : l.position = p := by
  cases hs : l.symbol? with
  | some s => simp [overflow_of_symbol?_eq_some hl hs] at h
  | none => simpa [overflow_of_symbol?_eq_none hl hs] using h

theorem stray_of_ne_leave {o : Occurrence} (h : o.terminal ≠ .leave) (b : Bool) :
    strayBreaks.occurrence b o = none := by
  rw [Survey.occurrence, if_neg h]
  cases o.operand <;> rfl

theorem stray_of_leave {o : Occurrence} (h : o.terminal = .leave) (b : Bool) :
    strayBreaks.occurrence b o =
      if b then none else some (.error (.located .breakOutsideLoop o.position)) := by
  rw [Survey.occurrence, if_pos h]
  rfl

/-- A lexeme that is no offence leaves no trace. -/
theorem Clean.step {m m' : Machine} {l : Lexeme} (hm : Clean m) (hl : Fit l) {s : Symbol}
    (hs : l.symbol? = some s)
    (hb : (Occurrence.ofLexeme l).terminal = .leave → m.inLoop = true)
    (h : m.step (.ofLexeme l) = .ok m') : Clean m' := by
  have hr := Occurrence.regular_ofLexeme hl.1 hl.2
  have h₁ := overflows.step_found hr hm.settled h
  have h₂ := strayBreaks.step_found hr hm.settled' h
  rw [hm.overflow, overflow_of_symbol?_eq_some hl hs] at h₁
  refine ⟨h₁.1, ?_, h₁.2, h₂.2⟩
  rw [h₂.1, hm.stray, Option.none_or]
  by_cases hk : (Occurrence.ofLexeme l).terminal = .leave
  · rw [stray_of_leave hk, hb hk]
    rfl
  · exact stray_of_ne_leave hk _

/-- Why the tokens of a text are not read beyond a lexeme. -/
inductive Stops (m : Machine) (l : Lexeme) : Cause → Prop where
  | overflow : l.symbol? = none → Stops m l .numberOutOfRange
  | stray {s : Symbol} {next : Machine} : l.symbol? = some s →
    (Occurrence.ofLexeme l).terminal = .leave → m.inLoop = false →
    m.step (.ofLexeme l) = .ok next → Stops m l .breakOutsideLoop
  | refused {s : Symbol} {expected : Expected} : l.symbol? = some s →
    m.step (.ofLexeme l) = .error expected →
    Stops m l (.unexpectedToken (m.wanted ⟨s, l.position⟩) s.describe)

theorem isFinish_of_symbol? {l : Lexeme} {s : Symbol} (hs : l.symbol? = some s) :
    s.isFinish = false := by
  unfold Lexeme.symbol? at hs
  split at hs
  · cases hs
    unfold Symbol.ofWord
    repeat' split
    all_goals rfl
  · obtain ⟨x, -, rfl⟩ := Option.map_eq_some_iff.1 hs
    rfl
  all_goals
    cases hs
    try rfl

theorem feed_cons {m next : Machine} {l : Lexeme} (h : m.step (.ofLexeme l) = .ok next)
    (rest : List Lexeme) : feed m (l :: rest) = feed next rest := by
  simp [feed, h]

theorem feed_append {m m' : Machine} {us : List Lexeme} (h : feed m us = .ok m')
    (vs : List Lexeme) : feed m (us ++ vs) = feed m' vs := by
  induction us generalizing m with
  | nil =>
    cases h
    rfl
  | cons l us ih =>
    cases hs : m.step (.ofLexeme l) with
    | error expected => simp [feed, hs] at h
    | ok next =>
      rw [feed_cons hs] at h
      rw [List.cons_append, feed_cons hs, ih h]

/-- Lexemes are fed to the end or up to one that cannot stand where it does. -/
theorem feed_eq_error {m : Machine} {ls : List Lexeme} {e : Error} (h : feed m ls = .error e) :
    ∃ us l vs m' expected, ls = us ++ l :: vs ∧ feed m us = .ok m' ∧
      m'.step (.ofLexeme l) = .error expected ∧ e = unexpectedLexeme expected l := by
  induction ls generalizing m with
  | nil => cases h
  | cons l rest ih =>
    cases hs : m.step (.ofLexeme l) with
    | error expected =>
      refine ⟨[], l, rest, m, expected, rfl, rfl, hs, ?_⟩
      simpa [feed, hs] using h.symm
    | ok next =>
      rw [feed_cons hs] at h
      obtain ⟨us, l', vs, m', expected, rfl, hu, hst, he⟩ := ih h
      exact ⟨l :: us, l', vs, m', expected, rfl, (feed_cons hs us).trans hu, hst, he⟩

/-- A token is read as the machine steps over its lexeme. -/
theorem read_of_lexeme {m : Machine} {l : Lexeme} {s : Symbol} (hl : Fit l)
    (hs : l.symbol? = some s) :
    m.read ⟨s, l.position⟩ =
      match m.step (.ofLexeme l) with
      | .error _ =>
        .error (.located (.unexpectedToken (m.wanted ⟨s, l.position⟩) s.describe) l.position)
      | .ok next =>
        if (Occurrence.ofLexeme l).terminal = .leave ∧ m.inLoop = false then
          .error (.located .breakOutsideLoop l.position)
        else .ok next := by
  have ho := Occurrence.ofToken?_of_symbol? hl.1 hs
  have hb : s.isMark "break" = true ↔ (Occurrence.ofLexeme l).terminal = .leave := by
    have hk : (⟨s, l.position⟩ : Token).terminal? = some .leave ↔ s = .mark "break" :=
      Token.terminal?_eq_iff (by decide)
    rw [Symbol.isMark_iff, ← hk, Token.terminal?, ho]
    simp
  unfold Machine.read Machine.move
  rw [ho, Option.bind_some]
  cases m.step (.ofLexeme l) with
  | error expected => simp [Except.toOption, unexpected, isFinish_of_symbol? hs]
  | ok next => simp [Except.toOption, hb]

/-- The verdict on the tokens of lexemes is settled at the first one that stops it. -/
theorem verdict_ofLexemes (finish : Stream) {m : Machine} {ls : List Lexeme} (hm : Clean m)
    (hls : ∀ l ∈ ls, Fit l) :
    (∃ m', feed m ls = .ok m' ∧ Clean m' ∧
      m.verdict (.ofLexemes finish ls) = m'.verdict finish) ∨
    ∃ us l vs m' c, ls = us ++ l :: vs ∧ feed m us = .ok m' ∧ Clean m' ∧ Stops m' l c ∧
      m.verdict (.ofLexemes finish ls) = .error (.located c l.position) := by
  -- as long as nothing stops it, the machine stays clean
  induction ls generalizing m with
  | nil => exact .inl ⟨m, rfl, hm, rfl⟩
  | cons l rest ih =>
    have hl := hls l List.mem_cons_self
    cases hs : l.symbol? with
    | none =>
      refine .inr ⟨[], l, rest, m, _, rfl, rfl, hm, .overflow hs, ?_⟩
      simp [Stream.ofLexemes, hs, Machine.verdict, Machine.judge]
    | some s =>
      have hstream : Stream.ofLexemes finish (l :: rest) =
          ⟨⟨s, l.position⟩ :: (Stream.ofLexemes finish rest).tokens,
            (Stream.ofLexemes finish rest).failure⟩ := by
        simp [Stream.ofLexemes, hs]
      have hf : (⟨s, l.position⟩ : Token).symbol.isFinish = false := isFinish_of_symbol? hs
      rw [hstream, Machine.verdict_cons hf, read_of_lexeme hl hs]
      cases hst : m.step (.ofLexeme l) with
      | error expected => exact .inr ⟨[], l, rest, m, _, rfl, rfl, hm, .refused hs hst, rfl⟩
      | ok next =>
        by_cases hb : (Occurrence.ofLexeme l).terminal = .leave ∧ m.inLoop = false
        · refine .inr ⟨[], l, rest, m, _, rfl, rfl, hm, .stray hs hb.1 hb.2 hst, ?_⟩
          simp [hb]
        · have hn : Clean next := hm.step hl hs (fun hk => by simpa [hk] using hb) hst
          simp only [if_neg hb]
          rcases ih hn fun l hl => hls l (List.mem_cons_of_mem _ hl) with
            ⟨m', hfeed, hc, hv⟩ | ⟨us, l', vs, m', c, rfl, hfeed, hc, hstop, hv⟩
          · exact .inl ⟨m', (feed_cons hst rest).trans hfeed, hc, hv⟩
          · exact .inr ⟨l :: us, l', vs, m', c, rfl, (feed_cons hst us).trans hfeed, hc, hstop, hv⟩

/-- What has been found stays, and what is found later belongs to a later lexeme. -/
theorem feed_found {ε : Type} (S : Survey ε) {m m' : Machine} {ls : List Lexeme}
    (hls : ∀ l ∈ ls, Fit l) (hm : S.Settled m) (h : feed m ls = .ok m') :
    ∃ later, S.machine m' = (S.machine m).or later ∧
      ∀ x, later = some x → ∃ l ∈ ls, ∃ b, S.occurrence b (.ofLexeme l) = some x := by
  induction ls generalizing m with
  | nil =>
    cases h
    exact ⟨none, (Option.or_none).symm, nofun⟩
  | cons l rest ih =>
    have hl := hls l List.mem_cons_self
    cases hs : m.step (.ofLexeme l) with
    | error expected => simp [feed, hs] at h
    | ok next =>
      rw [feed_cons hs] at h
      obtain ⟨hn, hset⟩ := S.step_found (Occurrence.regular_ofLexeme hl.1 hl.2) hm hs
      obtain ⟨later, hm', hlater⟩ := ih (fun l hl => hls l (List.mem_cons_of_mem _ hl)) hset h
      refine ⟨(S.occurrence m.inLoop (.ofLexeme l)).or later, ?_, ?_⟩
      · rw [hm', hn, Option.or_assoc]
      · intro x hx
        rcases Option.or_eq_some_iff.1 hx with hx | ⟨-, hx⟩
        · exact ⟨l, List.mem_cons_self, _, hx⟩
        · obtain ⟨l', hl', hb⟩ := hlater x hx
          exact ⟨l', List.mem_cons_of_mem _ hl', hb⟩

/-- An offence that the machine passes over is found in the end. -/
theorem Stops.found {m m' : Machine} {l : Lexeme} {vs : List Lexeme} {c : Cause}
    (h : Stops m l c) (hm : Clean m) (hls : ∀ l' ∈ l :: vs, Fit l')
    (hfeed : feed m (l :: vs) = .ok m') :
    (c = .numberOutOfRange ∧ overflows.machine m' = some l.position) ∨
    (c = .breakOutsideLoop ∧
      strayBreaks.machine m' = some (.error (.located .breakOutsideLoop l.position)) ∧
      ∀ p, overflows.machine m' = some p → ∃ l' ∈ vs, l'.position = p) := by
  have hl := hls l List.mem_cons_self
  have hvs : ∀ l' ∈ vs, Fit l' := fun l' h => hls l' (List.mem_cons_of_mem _ h)
  have hr := Occurrence.regular_ofLexeme hl.1 hl.2
  cases hst : m.step (.ofLexeme l) with
  | error expected => simp [feed, hst] at hfeed
  | ok next =>
    rw [feed_cons hst] at hfeed
    obtain ⟨ho, hset⟩ := overflows.step_found hr hm.settled hst
    obtain ⟨hb, hset'⟩ := strayBreaks.step_found hr hm.settled' hst
    obtain ⟨later, hlater, hmem⟩ := feed_found overflows hvs hset hfeed
    obtain ⟨later', hlater', -⟩ := feed_found strayBreaks hvs hset' hfeed
    rw [hm.overflow, Option.none_or] at ho
    rw [hm.stray, Option.none_or] at hb
    cases h with
    | overflow hs =>
      refine .inl ⟨rfl, ?_⟩
      rw [hlater, ho, overflow_of_symbol?_eq_none hl hs]
      rfl
    | stray hs hk hloop _ =>
      refine .inr ⟨rfl, ?_, fun p hp => ?_⟩
      · rw [hlater', hb, stray_of_leave hk, hloop]
        rfl
      · rw [hlater, ho, overflow_of_symbol?_eq_some hl hs, Option.none_or] at hp
        obtain ⟨l', hl', b, hx⟩ := hmem p hp
        exact ⟨l', hl', position_of_overflow (hvs l' hl') hx⟩
    | refused hs hst' => cases hst.symm.trans hst'

/-- The check of a program depends on its height and on what has been found. -/
theorem check_eq {m : Machine} {g : Grown} (h : m.finish = .ok g) :
    check g =
      if maxHeight < g.height then .error (.unplaced .nestedText)
      else
        match overflows.machine m, strayBreaks.machine m with
        | some p, _ => .error (.located .numberOutOfRange p)
        | none, some (.error e) => .error e
        | none, _ => .ok g.node := by
  obtain ⟨ds, hg, hds⟩ := overflows.finish_found h
  obtain ⟨ds', hg', hds'⟩ := strayBreaks.finish_found h
  have ho : g.overflow = overflows.machine m := by
    rw [← hds, hg, Grown.overflow_above]
    rfl
  have hn : g.node = .program (ds'.reverse.map (·.node)) := by rw [hg']; rfl
  have hb : failure? (Node.checkAllBreaks false (ds'.reverse.map (·.node))) =
      strayBreaks.machine m := by
    rw [← hds', failure?_checkAllBreaks]
    rfl
  unfold check
  rw [ho, hn, ← hb]
  split
  · rfl
  · cases overflows.machine m with
    | some p => rfl
    | none =>
      dsimp only
      cases Node.checkAllBreaks false (ds'.reverse.map (·.node)) with
      | ok _ => rfl
      | error f => cases f <;> rfl

end Scriptling.ShiftReduce
