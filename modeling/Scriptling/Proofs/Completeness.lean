import Scriptling.Proofs.Outline
import Scriptling.Proofs.StatementVerdict

/-!
# What is derived is read

A derivation of the grammar cuts its tokens into phrases in one of several ways.
The outline is indifferent to that choice: wherever a phrase may begin by the
derivation, the outline reads the tokens of the phrase to their end, even if the
machine takes them for the continuation of what stands before.
-/
namespace Scriptling

open Descent (Level)

/-- An operator that combines a variable with a value makes an assignment with `=`. -/
theorem ShiftReduce.Terminal.exists_update {op : String} (h : op ∈ ["+", "-", "*", "/", "%"]) :
    ∃ k, ofMark? (op ++ "=") = some k ∧ k.updateOperator? = some op := by
  have key : ∀ op ∈ ["+", "-", "*", "/", "%"],
      ∃ k ∈ all, ofMark? (op ++ "=") = some k ∧ k.updateOperator? = some op := by decide
  obtain ⟨k, -, hk⟩ := key op h
  exact ⟨k, hk⟩

namespace ShiftReduce.Outline

/-- Whether an expression may begin, be it as a statement of its own. -/
def Expects (o : Outline) (clause : Clause) (parens : Nat) : Prop :=
  o.stage = .operand clause parens ∨ (o.isReady = true ∧ clause = .plain ∧ parens = 0)

variable {o : Outline} {clause : Clause} {parens : Nat} {ending : Ending} {fs : List Frame}
  {k : Terminal} {t : Token}

theorem read_eq_step (ht : t.terminal? = some k) (hk : k ≠ .leave) : o.read t = o.step k := by
  simp [read, ht, hk]

/-- A place where a statement may begin is like any other such place to a terminal
that cannot belong to the statement before it. -/
theorem step_of_isReady (ho : o.isReady = true)
    (hk : k ∈ [Terminal.print, .branch, .loop, .input, .leave, .leftBrace, .semicolon,
      .rightBrace]) : o.step k = begin o.frames k := by
  obtain ⟨fs, stage⟩ := o
  cases stage with
  | boundary => rfl
  | afterThen => cases k <;> first | rfl | simp at hk
  | operator clause parens ending =>
    obtain ⟨rfl, rfl⟩ : clause = .plain ∧ parens = 0 := by simpa [isReady] using ho
    cases k <;> first | rfl | simp at hk
  | _ => cases ho

/-- A place where a statement may begin takes an operand, even where a minus
continues the expression before it. -/
theorem step_operand_of_isReady (ho : o.isReady = true)
    (hk : Expected.operand.contains k = true) :
    o.step k = takeOperand o.frames .plain 0 .firstName k := by
  obtain ⟨fs, stage⟩ := o
  cases stage with
  | boundary => cases k <;> first | rfl | cases hk
  | afterThen => cases k <;> first | rfl | cases hk
  | operator clause parens ending =>
    obtain ⟨rfl, rfl⟩ : clause = .plain ∧ parens = 0 := by simpa [isReady] using ho
    cases k <;> first | rfl | cases hk
  | _ => cases ho

theorem step_of_expects (ho : o.Expects clause parens) (hk : Expected.operand.contains k = true) :
    ∃ ending, ending ≠ .closed ∧ o.step k = takeOperand o.frames clause parens ending k := by
  rcases ho with ho | ⟨ho, rfl, rfl⟩
  · exact ⟨.name, by decide, by simp [step, ho]⟩
  · exact ⟨.firstName, by decide, step_operand_of_isReady ho hk⟩

/-- A literal is read where an expression may begin. -/
theorem read_literal {n : Node} (ho : o.Expects clause parens)
    (ht : Descent.literal? t.symbol = some n) :
    o.read t = some ⟨o.frames, .operator clause parens .closed⟩ := by
  obtain ⟨k, hk, hop, hi⟩ : ∃ k, t.terminal? = some k ∧ k.isOperand = true ∧ k ≠ .ident := by
    unfold Token.terminal? Occurrence.ofToken?
    cases hs : t.symbol with
    | number x => exact ⟨.number, rfl, rfl, by decide⟩
    | string s => exact ⟨.string, rfl, rfl, by decide⟩
    | bool b =>
      cases b with
      | true => exact ⟨.truth, rfl, rfl, by decide⟩
      | false => exact ⟨.falsity, rfl, rfl, by decide⟩
    | _ => simp [hs, Descent.literal?] at ht
  have hc : Expected.operand.contains k = true := by cases k <;> first | rfl | cases hop
  obtain ⟨ending, -, hs⟩ := step_of_expects ho hc
  rw [read_eq_step hk (by rintro rfl; cases hop), hs]
  simp [takeOperand, hop, hi]

theorem read_ident (ho : o.Expects clause parens) {x : String} (ht : t.symbol = .ident x) :
    ∃ ending, ending ≠ .closed ∧
      o.read t = some ⟨o.frames, .operator clause parens ending⟩ := by
  have hk : t.terminal? = some .ident := by simp [Token.terminal?, Occurrence.ofToken?, ht]
  obtain ⟨ending, he, hs⟩ := step_of_expects (k := .ident) ho rfl
  exact ⟨ending, he, by rw [read_eq_step hk (by decide), hs]; rfl⟩

theorem read_sign (ho : o.Expects clause parens) {op : String} (hop : op ∈ ["-", "!"])
    (ht : t.symbol = .mark op) : o.read t = some ⟨o.frames, .operand clause parens⟩ := by
  have hm := Token.terminal?_of_mark ht
  simp only [List.mem_cons, List.not_mem_nil, or_false] at hop
  rcases hop with rfl | rfl
  · obtain ⟨ending, -, hs⟩ := step_of_expects (k := .minus) ho rfl
    rw [read_eq_step (k := .minus) (hm.trans (by decide)) (by decide), hs]
    rfl
  · obtain ⟨ending, -, hs⟩ := step_of_expects (k := .bang) ho rfl
    rw [read_eq_step (k := .bang) (hm.trans (by decide)) (by decide), hs]
    rfl

theorem read_leftParen (ho : o.Expects clause parens) (ht : t.symbol = .mark "(") :
    o.read t = some ⟨o.frames, .operand clause (parens + 1)⟩ := by
  have hm := Token.terminal?_of_mark ht
  obtain ⟨ending, -, hs⟩ := step_of_expects (k := .leftParen) ho rfl
  rw [read_eq_step (k := .leftParen) (hm.trans (by decide)) (by decide), hs]
  rfl

/-- An operator behind an operand waits for another one. -/
theorem read_operator (ht : t.terminal? = some k) (hk : continues ending k = true) :
    read ⟨fs, .operator clause parens ending⟩ t = some ⟨fs, .operand clause parens⟩ := by
  have hl : k ≠ .leave := by
    rintro rfl
    cases hk
  rw [read_eq_step ht hl]
  simp [step, stepOperator, hk]

theorem read_rightParen (ht : t.symbol = .mark ")") :
    read ⟨fs, .operator clause parens ending⟩ t =
      match parens with
      | n + 1 => some ⟨fs, .operator clause n .closed⟩
      | 0 => (afterClause clause).map fun stage => ⟨fs, stage⟩ := by
  have hm := Token.terminal?_of_mark ht
  rw [read_eq_step (k := .rightParen) (hm.trans (by decide)) (by decide)]
  cases parens <;>
    simp [step, stepOperator, continues, Terminal.binding?, Terminal.strength?,
      Terminal.updateOperator?]

theorem read_mark (k : Terminal) {text : String} (ht : t.symbol = .mark text)
    (hk : Terminal.ofMark? text = some k) (hl : k ≠ .leave) : o.read t = o.step k :=
  read_eq_step ((Token.terminal?_of_mark ht).trans hk) hl

end ShiftReduce.Outline

namespace Grammar

open ShiftReduce

/-- The tokens of an expression are read wherever an expression may begin. -/
theorem Expression.run {level : Level} {ts : List Token} {n : Node} (h : Expression level ts n)
    {o : Outline} {clause : Clause} {parens : Nat} (ho : o.Expects clause parens) :
    ∃ ending, o.run ts = some ⟨o.frames, .operator clause parens ending⟩ := by
  induction h generalizing o clause parens with
  | tighter _ _ ih => exact ih ho
  | @binary level left right ls rs t op l r hlr hop ht _ _ ihl ihr =>
    obtain ⟨k, hk, hb⟩ := (Descent.mem_operators_iff (List.ne_nil_of_mem hop)).1 hop
    obtain ⟨ending, hl⟩ := ihl ho
    have hr : Outline.read ⟨o.frames, .operator clause parens ending⟩ t =
        some ⟨o.frames, .operand clause parens⟩ :=
      Outline.read_operator ((Token.terminal?_of_mark ht).trans hk)
        (by simp [Outline.continues, hb])
    obtain ⟨ending', hrs⟩ := ihr (o := ⟨o.frames, .operand clause parens⟩) (.inl rfl)
    refine ⟨ending', ?_⟩
    rw [Outline.run_append, hl, Option.bind_some, Outline.run, hr, Option.bind_some, hrs]
  | sign hop ht _ ih =>
    obtain ⟨ending, hr⟩ := ih (o := ⟨o.frames, .operand clause parens⟩) (.inl rfl)
    exact ⟨ending, by rw [Outline.run, Outline.read_sign ho hop ht, Option.bind_some, hr]⟩
  | @update t u _ _ _ _ hop ht hu _ ih =>
    obtain ⟨ending, he, hx⟩ := Outline.read_ident ho ht
    obtain ⟨k, hk, hs⟩ := Terminal.exists_update hop
    have hr : Outline.read ⟨o.frames, .operator clause parens ending⟩ u =
        some ⟨o.frames, .operand clause parens⟩ :=
      Outline.read_operator ((Token.terminal?_of_mark hu).trans hk)
        (by simp [Outline.continues, hs, he])
    obtain ⟨ending', hrs⟩ := ih (o := ⟨o.frames, .operand clause parens⟩) (.inl rfl)
    refine ⟨ending', ?_⟩
    rw [Outline.run, hx, Option.bind_some, Outline.run, hr, Option.bind_some, hrs]
  | number ht | string ht | bool ht =>
    refine ⟨.closed, ?_⟩
    rw [Outline.run, Outline.read_literal ho (by rw [ht]; rfl)]
    rfl
  | ident ht =>
    obtain ⟨ending, -, hx⟩ := Outline.read_ident ho ht
    exact ⟨ending, by rw [Outline.run, hx]; rfl⟩
  | paren ht _ hu ih =>
    obtain ⟨ending, hr⟩ := ih (o := ⟨o.frames, .operand clause (parens + 1)⟩) (.inl rfl)
    refine ⟨.closed, ?_⟩
    rw [List.cons_append, Outline.run, Outline.read_leftParen ho ht, Option.bind_some,
      Outline.run_append, hr, Option.bind_some, Outline.run, Outline.read_rightParen hu]
    rfl

/-- A condition is read behind the keyword that it belongs to. -/
theorem Condition.run {ts : List Token} {n : Node} (h : Condition ts n) {fs : List Frame}
    {clause : Clause} :
    Outline.run ⟨fs, .beforeParen clause⟩ ts =
      (Outline.afterClause clause).map fun stage => ⟨fs, stage⟩ := by
  obtain ⟨ht, he, hu⟩ := h
  obtain ⟨ending, hr⟩ := he.run (o := ⟨fs, .operand clause 0⟩) (.inl rfl)
  rw [List.cons_append, Outline.run,
    Outline.read_mark .leftParen ht (by decide) (by decide)]
  change Option.bind (some (⟨fs, .operand clause 0⟩ : Outline)) _ = _
  rw [Option.bind_some, Outline.run_append, hr, Option.bind_some, Outline.run,
    Outline.read_rightParen hu]
  cases clause <;> rfl

/-- What reading the tokens of a phrase comes to, wherever the phrase may begin. -/
def Runs (inLoop : Bool) (ts : List Token) : Phrase → Prop
  | .block => ∀ (o : Outline) (frame : Frame),
    o.stage = .beforeBrace frame ∨ (o.isReady = true ∧ frame = .plain) →
    (inLoop = true → frame = .body ∨ o.inLoop = true) →
    o.run ts = Outline.closeBlock (frame :: o.frames)
  | _ => ∀ o : Outline, o.isReady = true → (inLoop = true → o.inLoop = true) →
    ∃ next, o.run ts = some next ∧ next.isReady = true ∧ next.frames = o.frames

theorem isReady_of_closeBlock (frame : Frame) (fs : List Frame) :
    ∃ next, Outline.closeBlock (frame :: fs) = some next ∧ next.isReady = true ∧
      next.frames = fs := by
  cases frame <;> exact ⟨_, rfl, rfl, rfl⟩

theorem runs_block {inLoop : Bool} {t u : Token} {ts : List Token}
    (ht : t.symbol = .mark "\x7b") (hu : u.symbol = .mark "\x7d")
    (ih : Runs inLoop ts .items) : Runs inLoop (t :: ts ++ [u]) .block := by
  intro o frame ho hl
  have hr : o.read t = some ⟨frame :: o.frames, .boundary⟩ := by
    rw [Outline.read_mark .leftBrace ht (by decide) (by decide)]
    rcases ho with ho | ⟨ho, rfl⟩
    · simp [Outline.step, ho]
    · rw [Outline.step_of_isReady ho (by decide)]
      rfl
  have hl' : inLoop = true → Outline.inLoop ⟨frame :: o.frames, .boundary⟩ = true := by
    intro h
    rcases hl h with rfl | h'
    · simp [Outline.inLoop]
    · simp only [Outline.inLoop, List.contains_cons, Bool.or_eq_true]
      exact .inr h'
  obtain ⟨next, hn, hready, hf⟩ := ih ⟨frame :: o.frames, .boundary⟩ rfl hl'
  rw [List.cons_append, Outline.run, hr, Option.bind_some, Outline.run_append, hn,
    Option.bind_some, Outline.run,
    Outline.read_mark .rightBrace hu (by decide) (by decide),
    Outline.step_of_isReady hready (by decide), hf]
  cases frame <;> rfl

theorem runs_branch {inLoop : Bool} {t : Token} {cs ts : List Token} {c : Node}
    (ht : t.symbol = .mark "if") (hc : Condition cs c) (ih : Runs inLoop ts .block)
    {o : Outline} (ho : o.isReady = true) (hl : inLoop = true → o.inLoop = true) :
    o.run (t :: cs ++ ts) = some ⟨o.frames, .afterThen⟩ := by
  rw [List.cons_append, Outline.run,
    Outline.read_mark .branch ht (by decide) (by decide),
    Outline.step_of_isReady ho (by decide), Outline.begin, Option.bind_some, Outline.run_append,
    hc.run]
  exact ih ⟨o.frames, .beforeBrace .thenBlock⟩ .thenBlock (.inl rfl) fun h => .inr (hl h)

/-- The tokens of a phrase are read wherever the phrase may begin. -/
theorem Derives.runs {inLoop : Bool} {phrase : Phrase} {ts : List Token} {n : Node}
    (h : Derives inLoop phrase ts n) : Runs inLoop ts phrase := by
  -- every phrase leads back to an outline that is ready, with the same blocks open
  induction h with
  | program _ ih => exact ih
  | nil => exact fun o ho _ => ⟨o, rfl, ho, rfl⟩
  | semicolon ht _ ih =>
    intro o ho hl
    rw [Outline.run, Outline.read_mark .semicolon ht (by decide) (by decide),
      Outline.step_of_isReady ho (by decide)]
    exact ih ⟨o.frames, .boundary⟩ rfl hl
  | cons _ _ ih₁ ih₂ =>
    intro o ho hl
    obtain ⟨next, hn, hready, hf⟩ := ih₁ o ho hl
    rw [Outline.run_append, hn, ← hf]
    refine ih₂ next hready fun h => ?_
    simpa [Outline.inLoop, hf] using hl h
  | block ht _ hu ih => exact runs_block ht hu ih
  | print ht hc =>
    intro o ho _
    rw [Outline.run, Outline.read_mark .print ht (by decide) (by decide),
      Outline.step_of_isReady ho (by decide), Outline.begin, Option.bind_some, hc.run]
    exact ⟨_, rfl, rfl, rfl⟩
  | @input _ t u x ht hu =>
    intro o ho _
    have hk : u.terminal? = some .ident := by simp [Token.terminal?, Occurrence.ofToken?, hu]
    rw [Outline.run, Outline.read_mark .input ht (by decide) (by decide),
      Outline.step_of_isReady ho (by decide), Outline.begin, Option.bind_some, Outline.run,
      Outline.read_eq_step hk (by decide)]
    exact ⟨_, rfl, rfl, rfl⟩
  | branch ht hc _ ih =>
    intro o ho hl
    exact ⟨_, runs_branch ht hc ih ho hl, rfl, rfl⟩
  | branchElse ht hc _ hu _ ih₁ ih₂ =>
    intro o ho hl
    rw [Outline.run_append, runs_branch ht hc ih₁ ho hl, Option.bind_some, Outline.run,
      Outline.read_mark .otherwise hu (by decide) (by decide)]
    refine ⟨⟨o.frames, .boundary⟩, ?_, rfl, rfl⟩
    exact ih₂ ⟨o.frames, .beforeBrace .plain⟩ .plain (.inl rfl) fun h => .inr (hl h)
  | loop ht hc _ ih =>
    intro o ho _
    rw [List.cons_append, Outline.run,
      Outline.read_mark .loop ht (by decide) (by decide),
      Outline.step_of_isReady ho (by decide), Outline.begin, Option.bind_some,
      Outline.run_append, hc.run]
    refine ⟨⟨o.frames, .boundary⟩, ?_, rfl, rfl⟩
    exact ih ⟨o.frames, .beforeBrace .body⟩ .body (.inl rfl) fun _ => .inl rfl
  | @leave t ht =>
    intro o ho hl
    have hk : t.terminal? = some .leave := (Token.terminal?_of_mark ht).trans (by decide)
    refine ⟨⟨o.frames, .boundary⟩, ?_, rfl, rfl⟩
    simp [Outline.run, Outline.read, hk, hl rfl, Outline.step_of_isReady ho, Outline.begin]
  | nested _ ih =>
    intro o ho hl
    rw [ih o .plain (.inr ⟨ho, rfl⟩) fun h => .inr (hl h)]
    exact isReady_of_closeBlock _ _
  | @assign _ t u x ts n ht hu he =>
    intro o ho _
    have hk : t.terminal? = some .ident := by simp [Token.terminal?, Occurrence.ofToken?, ht]
    obtain ⟨ending, hr⟩ := he.run (o := ⟨o.frames, .operand .plain 0⟩) (.inl rfl)
    rw [Outline.run, Outline.read_eq_step hk (by decide),
      Outline.step_operand_of_isReady ho (by decide), Outline.takeOperand, if_pos rfl,
      Option.bind_some, Outline.run,
      Outline.read_mark .equal hu (by decide) (by decide)]
    exact ⟨_, hr, rfl, rfl⟩
  | evaluate he =>
    intro o ho _
    obtain ⟨ending, hr⟩ := he.run (o := o) (.inr ⟨ho, rfl, rfl⟩)
    exact ⟨_, hr, rfl, rfl⟩

end Grammar
end Scriptling
