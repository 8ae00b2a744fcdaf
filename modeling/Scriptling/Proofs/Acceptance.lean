import Scriptling.Proofs.Completeness

/-!
# Programs that are accepted

A program is returned if and only if its tokens are derived from the grammar with
every `break` in the body of a loop, and its tree is that of such a derivation.
Only the limit on nesting can come between.
-/
namespace Scriptling

/-- The given tokens and the end behind them. -/
def Stream.whole (ts : List Token) (p : Position) : Stream :=
  ⟨ts ++ [⟨.finish, p⟩], none⟩

theorem Stream.closed_whole (ts : List Token) (p : Position) : (Stream.whole ts p).Closed :=
  .inr ⟨⟨.finish, p⟩, by simp [whole], rfl⟩

namespace ShiftReduce

namespace Outline

/-- Whether a program consists of the given tokens, as far as outlines tell. -/
def Accepts (ts : List Token) : Prop :=
  ∃ o, start.run ts = some o ∧ o.isFinal = true

theorem isFinish_of_read {o next : Outline} {t : Token} (h : o.read t = some next) :
    t.symbol.isFinish = false := by
  cases hs : t.symbol with
  | finish => simp [read, Token.terminal?, Occurrence.ofToken?, hs] at h
  | _ => rfl

end Outline

namespace Machine

variable {m : Machine} {t : Token}

theorem exists_read_of_outline {o : Outline} (h : m.outline.read t = some o) :
    ∃ next : Machine, m.read t = .ok next ∧ next.outline = o := by
  rw [← outline_read] at h
  cases hr : m.read t with
  | error e => simp [hr, Except.toOption] at h
  | ok next => exact ⟨next, rfl, by simpa [hr, Except.toOption] using h⟩

theorem read_eq_error_of_outline (h : m.outline.read t = none) : ∃ e, m.read t = .error e := by
  rw [← outline_read] at h
  cases hr : m.read t with
  | error e => exact ⟨e, rfl⟩
  | ok next => simp [hr, Except.toOption] at h

/-- The machine reads the tokens that its outline reads. -/
theorem verdict_of_run {ts : List Token} {o : Outline} (h : m.outline.run ts = some o) :
    ∃ next : Machine, next.outline = o ∧ ∀ more failure,
      m.verdict ⟨ts ++ more, failure⟩ = next.verdict ⟨more, failure⟩ := by
  induction ts generalizing m with
  | nil =>
    cases h
    exact ⟨m, rfl, fun _ _ => rfl⟩
  | cons t ts ih =>
    obtain ⟨o', hr, h⟩ := Option.bind_eq_some_iff.1 h
    obtain ⟨m', hm, rfl⟩ := exists_read_of_outline hr
    obtain ⟨next, hn, hv⟩ := ih h
    refine ⟨next, hn, fun more failure => ?_⟩
    rw [List.cons_append, verdict_cons (Outline.isFinish_of_read hr), hm, ← hv]

theorem isOk_close (m : Machine) (t : Token) :
    (∃ g, m.close t = .ok g) ↔ m.outline.isFinal = true := by
  rw [← isSome_finish, close]
  cases m.finish.toOption <;> simp

/-- The verdict on a whole program is favourable if its outline is. -/
theorem verdict_of_accepts {ts : List Token} (h : Outline.Accepts ts) (p : Position) :
    ∃ g, start.verdict (.whole ts p) = .ok g := by
  obtain ⟨o, hr, ho⟩ := h
  obtain ⟨next, rfl, hv⟩ := verdict_of_run (m := start) hr
  rw [Stream.whole, hv, verdict_finish rfl]
  exact (isOk_close next _).2 ho

end Machine
end ShiftReduce

theorem Grammar.Derives.accepts {ts : List Token} {n : Node}
    (h : Derives false .program ts n) : ShiftReduce.Outline.Accepts ts := by
  obtain ⟨next, hn, hr, hf⟩ := h.runs .start rfl nofun
  refine ⟨next, hn, ?_⟩
  rw [ShiftReduce.Outline.isFinal, hr, hf]
  rfl

namespace Descent

open Grammar ShiftReduce

/-- The verdict of the machine decides how a program is read, unless it is nested too
deeply. -/
theorem program_eq_ok_of_verdict {budget : Nat} {s : Stream} (hs : s.Closed)
    (hdeep : budget < 12 * s.tokens.length + 11 → (program budget).run' s ≠ .error tooDeep)
    {g : Grown} (hv : Machine.start.verdict s = .ok g) :
    (program budget).run' s = .ok g.node := by
  cases hr : (program budget).run s with
  | error e =>
    rcases (program_follows budget hs).error e hr with ⟨rfl, hb⟩ | he
    · exact (hdeep hb (run'_eq_error_iff.2 hr)).elim
    · cases hv.symm.trans he
  | ok x =>
    obtain ⟨next, hv', -, -, ⟨g', hn, hg⟩, -⟩ := (program_follows budget hs).ok x.1 x.2 hr
    cases hv.symm.trans (hv'.trans hg)
    exact run'_eq_ok_iff.2 ⟨x.2, by rw [hn, hr]⟩

theorem verdict_of_program_eq_ok {budget : Nat} {s : Stream} (hs : s.Closed) {n : Node}
    (hr : (program budget).run' s = .ok n) :
    ∃ g, Machine.start.verdict s = .ok g ∧ g.node = n := by
  obtain ⟨rest, hr⟩ := run'_eq_ok_iff.1 hr
  obtain ⟨next, hv, -, -, ⟨g, hn, hg⟩, -⟩ := (program_follows budget hs).ok n rest hr
  exact ⟨g, hv.trans hg, hn⟩

theorem verdict_of_program_eq_error {budget : Nat} {s : Stream} (hs : s.Closed) {e : Error}
    (hdeep : e ≠ tooDeep) (hr : (program budget).run' s = .error e) :
    Machine.start.verdict s = .error e := by
  rcases (program_follows budget hs).error e (run'_eq_error_iff.1 hr) with ⟨he, -⟩ | he
  · exact (hdeep he).elim
  · exact he

/-- A program that is returned is the tree of a derivation of all its tokens. -/
theorem derives_of_program_eq_ok {budget : Nat} {ts : List Token} {p : Position} {n : Node}
    (hts : ∀ t ∈ ts, t.symbol.isFinish = false)
    (hr : (program budget).run' (.whole ts p) = .ok n) : Derives false .program ts n := by
  have hs := Stream.closed_whole ts p
  obtain ⟨rest, hr⟩ := run'_eq_ok_iff.1 hr
  obtain ⟨taken, htk, -, -, hd⟩ := program_takes budget hs n rest hr
  obtain ⟨-, -, -, -, -, t, more, hrest, hf⟩ := (program_follows budget hs).ok n rest hr
  have hall : ts ++ [⟨.finish, p⟩] = taken ++ t :: more := by rw [← hrest]; exact htk
  -- the end that was met is the only one, so nothing is left before it
  rcases List.append_eq_append_iff.1 hall with ⟨us, hus, hmore⟩ | ⟨us, hus, hmore⟩
  · cases us with
    | nil =>
      rw [List.append_nil] at hus
      rwa [← hus]
    | cons u us => simp at hmore
  · cases us with
    | nil =>
      rw [List.append_nil] at hus
      rwa [hus]
    | cons u us =>
      have hmem : t ∈ ts := by
        rw [List.cons_append, List.cons.injEq] at hmore
        rw [hus, hmore.1]
        simp
      rw [hts t hmem] at hf
      cases hf

end Descent

/-- The machine accepts tokens if and only if the grammar derives a program from them with every
`break` in a loop, and the tree that it builds is that of such a derivation. -/
theorem ShiftReduce.Machine.accepts_iff_derives {ts : List Token} (p : Position)
    (hts : ∀ t ∈ ts, t.symbol.isFinish = false) :
    ((∃ g, start.verdict (.whole ts p) = .ok g) ↔ ∃ n, Grammar.Derives false .program ts n) ∧
      ∀ g, start.verdict (.whole ts p) = .ok g → Grammar.Derives false .program ts g.node := by
  have hderives : ∀ g, start.verdict (.whole ts p) = .ok g →
      Grammar.Derives false .program ts g.node := by
    intro g hg
    -- With enough room for its nesting, the program that the machine accepts is returned.
    have hr := Descent.program_eq_ok_of_verdict (Stream.closed_whole ts p)
      (fun hlt => absurd hlt (Nat.lt_irrefl _)) hg
    exact Descent.derives_of_program_eq_ok hts hr
  refine ⟨⟨?_, ?_⟩, hderives⟩
  · rintro ⟨g, hg⟩
    exact ⟨g.node, hderives g hg⟩
  · rintro ⟨n, hd⟩
    exact verdict_of_accepts hd.accepts p

namespace Descent

open Grammar ShiftReduce

/-- Within the limit on nesting, a program is returned if and only if its tokens are
derived with every `break` in a loop, and what is returned is the tree of such a
derivation. -/
theorem program_returns_iff_derives (budget : Nat) (ts : List Token) (p : Position)
    (hts : ∀ t ∈ ts, t.symbol.isFinish = false)
    (hdeep : (program budget).run' (.whole ts p) ≠ .error tooDeep) :
    ((∃ n, (program budget).run' (.whole ts p) = .ok n) ↔ ∃ n, Derives false .program ts n) ∧
      ∀ n, (program budget).run' (.whole ts p) = .ok n → Derives false .program ts n := by
  refine ⟨⟨?_, ?_⟩, fun n hn => derives_of_program_eq_ok hts hn⟩
  · rintro ⟨n, hn⟩
    exact ⟨n, derives_of_program_eq_ok hts hn⟩
  · rintro ⟨n, hd⟩
    obtain ⟨g, hg⟩ := (Machine.accepts_iff_derives p hts).1.2 ⟨n, hd⟩
    exact ⟨g.node, program_eq_ok_of_verdict (Stream.closed_whole ts p) (fun _ => hdeep) hg⟩

/-- The tokens of `while (a) {a -= b - a break}`. -/
def loopTokens : List Token :=
  [⟨.mark "while", ⟨1, 1⟩⟩, ⟨.mark "(", ⟨1, 7⟩⟩, ⟨.ident "a", ⟨1, 8⟩⟩, ⟨.mark ")", ⟨1, 9⟩⟩,
    ⟨.mark "\x7b", ⟨1, 11⟩⟩, ⟨.ident "a", ⟨1, 12⟩⟩, ⟨.mark "-=", ⟨1, 14⟩⟩, ⟨.ident "b", ⟨1, 17⟩⟩,
    ⟨.mark "-", ⟨1, 19⟩⟩, ⟨.ident "a", ⟨1, 21⟩⟩, ⟨.mark "break", ⟨1, 23⟩⟩,
    ⟨.mark "\x7d", ⟨1, 28⟩⟩]

theorem program_returns_loop :
    (program 60).run' (.whole loopTokens ⟨1, 29⟩) ≠ .error tooDeep ∧
      ∃ n, (program 60).run' (.whole loopTokens ⟨1, 29⟩) = .ok n ∧
        Derives false .program loopTokens n := by
  have h := program_returns_iff_derives 60 loopTokens ⟨1, 29⟩ (by decide) nofun
  exact ⟨nofun, _, rfl, h.2 _ rfl⟩

end Descent
end Scriptling
