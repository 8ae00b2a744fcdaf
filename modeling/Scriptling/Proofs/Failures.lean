import Scriptling.Proofs.FrontEnds

/-!
# Failures of the two front ends

What one front end says of a text that the other refuses can be read off the
outcome of both. Their errors differ where descent has stopped at an offence: a
number out of range or a `break` without a loop. The grammar comes to offences only
when it has read the whole text, and it places the end of a text at the last token.
So the offence lies before the place that the grammar complains about, or in the
very token.
-/
namespace Scriptling

open ShiftReduce

namespace Error

/-- Whether two errors are of one class and have one name. -/
def SameKind (e e' : Error) : Prop :=
  e.cause.family = e'.cause.family ∧ e.cause.name = e'.cause.name

/-- Whether an error is placed before another. -/
def Precedes (e e' : Error) : Prop :=
  ∃ p p', e.mark = .of p ∧ e'.mark = .of p' ∧ p.Before p'

end Error

/-- The names of the errors that descent may report before the grammar looks for them. -/
def offenceNames : List String := ["NumberOutOfRange", "BreakOutsideLoop"]

/-- How the failures of the two front ends on a text are related. -/
structure FailuresRelated (text : String) : Prop where
  /-- What stops descent stops the grammar at the same place. -/
  stopped : ∀ d, FrontEnd.parse .descent text = .error d →
    d.cause.name ∈ ["UnexpectedCharacter", "UnterminatedString", "UnexpectedToken"] →
    ∃ g, FrontEnd.parse .grammar text = .error g ∧ g.SameKind d ∧ g.mark = d.mark
  /-- The grammar places the end of a text at its last token. -/
  ended : ∀ d, FrontEnd.parse .descent text = .error d → d.cause.name = "UnexpectedEnd" →
    ∃ g l, FrontEnd.parse .grammar text = .error g ∧ g.cause.name = "UnexpectedEnd" ∧
      (Scan.ofText text.toList).lexemes.getLast? = some l ∧ g.mark = .of l.position
  stray : ∀ g, FrontEnd.parse .grammar text = .error g → g.cause.name = "BreakOutsideLoop" →
    ∃ d, FrontEnd.parse .descent text = .error d ∧ d.cause.name = "BreakOutsideLoop" ∧
      d.mark = g.mark
  overflow : ∀ g, FrontEnd.parse .grammar text = .error g → g.cause.name = "NumberOutOfRange" →
    ∃ d, FrontEnd.parse .descent text = .error d ∧
      (d.cause.name = "NumberOutOfRange" ∧ d.mark = g.mark ∨
        d.cause.name = "BreakOutsideLoop" ∧ d.Precedes g)
  /-- Descent may have stopped at an offence before, or at one in the very token that the
  grammar complains about. -/
  other : ∀ g, FrontEnd.parse .grammar text = .error g → g.cause.name ∉ offenceNames →
    ∃ d, FrontEnd.parse .descent text = .error d ∧
      (d.SameKind g ∧ (g.cause.name = "UnexpectedEnd" ∨ d.mark = g.mark) ∨
        d.cause.name ∈ offenceNames ∧ d.Precedes g ∨
        d.cause.name ∈ offenceNames ∧ d.mark = g.mark ∧
          (g.cause.name = "UnexpectedEnd" ∨
            g.cause.name = "UnexpectedToken" ∧ d.cause.name = "NumberOutOfRange"))

theorem mem_offenceNames {c : Cause} (h : c = .numberOutOfRange ∨ c = .breakOutsideLoop) :
    c.name ∈ offenceNames := by
  rcases h with rfl | rfl
  · exact List.mem_cons_self
  · exact List.mem_cons_of_mem _ List.mem_cons_self

theorem Scan.name_of_failure {text : List Char} {c : Cause} (h : (ofText text).failure = some c) :
    c.name ∈ ["UnexpectedCharacter", "UnterminatedString"] := by
  rcases failure_cases h with rfl | ⟨x, rfl⟩
  · exact List.mem_cons_of_mem _ List.mem_cons_self
  · exact List.mem_cons_self

/-- An offence that is found in a whole text is the first one, or a number behind the first
`break` without a loop. -/
theorem Outcome.offence_cases {text : List Char} {d : Except Error Node} {g : Error}
    (h : Outcome (.ofText text) d (.error g)) (hn : g.cause.name ∈ offenceNames) :
    ∃ c p, d = .error (.located c p) ∧ (g = .located c p ∨
      c = .breakOutsideLoop ∧ ∃ q, g = .located .numberOutOfRange q ∧ p.Before q) := by
  have hread : ∀ {c q}, (Scan.ofText text).failure = some c → g = .located c q → False := by
    rintro c q hf rfl
    have hc := Scan.name_of_failure hf
    simp only [Error.located, offenceNames, List.mem_cons, List.not_mem_nil, or_false] at hc hn
    rcases hc with hc | hc <;> simp [hc] at hn
  have hrefused : ∀ {a b q}, g = .located (.unexpectedToken a b) q → False := by
    rintro a b q rfl
    simp [Error.located, Cause.name, Cause.family, Family.defaultName, offenceNames] at hn
  have hended : ∀ {a q}, g = .located (.unexpectedEnd a) q → False := by
    rintro a q rfl
    simp [Error.located, Cause.name, offenceNames] at hn
  cases h with
  | unreadable hf => exact (hread hf rfl).elim
  | refused => exact (hrefused rfl).elim
  | ended => exact (hended rfl).elim
  | offence _ hp =>
    cases hp with
    | same => exact ⟨_, _, rfl, .inl rfl⟩
    | numberLater hc hq => exact ⟨_, _, rfl, .inr ⟨hc, _, rfl, hq⟩⟩
    | refusedThere => exact (hrefused rfl).elim
    | refusedLater => exact (hrefused rfl).elim
    | unreadable hf => exact (hread hf rfl).elim
    | ended => exact (hended rfl).elim

/-- The failures of the two front ends on a text that is not nested too deeply. -/
theorem failures_related {text : String} (h : Shallow text) : FailuresRelated text := by
  have ho := outcome h
  constructor
  case stopped =>
    intro d hd hn
    rw [hd] at ho
    generalize FrontEnd.parse .grammar text = g at ho ⊢
    cases ho with
    | unreadable _ => exact ⟨_, rfl, ⟨rfl, rfl⟩, rfl⟩
    | refused => exact ⟨_, rfl, ⟨rfl, rfl⟩, rfl⟩
    | ended _ => simp [Error.located, Cause.name] at hn
    | offence hc _ => rcases hc with rfl | rfl <;> simp [Error.located, Cause.name] at hn
  case ended =>
    intro d hd hn
    rw [hd] at ho
    generalize FrontEnd.parse .grammar text = g at ho ⊢
    cases ho with
    | unreadable hf =>
      have hc := Scan.name_of_failure hf
      simp only [Error.located] at hn
      simp [hn] at hc
    | refused => simp [Error.located, Cause.name, Cause.family, Family.defaultName] at hn
    | ended hl => exact ⟨_, _, rfl, rfl, hl, rfl⟩
    | offence hc _ => rcases hc with rfl | rfl <;> simp [Error.located, Cause.name] at hn
  case stray =>
    intro g hg hn
    rw [hg] at ho
    obtain ⟨c, p, hd, rfl | ⟨-, q, rfl, -⟩⟩ := ho.offence_cases (by simp [hn, offenceNames])
    · exact ⟨_, hd, hn, rfl⟩
    · simp [Error.located, Cause.name] at hn
  case overflow =>
    intro g hg hn
    rw [hg] at ho
    obtain ⟨c, p, hd, rfl | ⟨rfl, q, rfl, hq⟩⟩ := ho.offence_cases (by simp [hn, offenceNames])
    · exact ⟨_, hd, .inl ⟨hn, rfl⟩⟩
    · exact ⟨_, hd, .inr ⟨rfl, p, q, rfl, rfl, hq⟩⟩
  case other =>
    intro g hg hn
    rw [hg] at ho
    generalize FrontEnd.parse .descent text = d at ho ⊢
    cases ho with
    | unreadable _ => exact ⟨_, rfl, .inl ⟨⟨rfl, rfl⟩, .inr rfl⟩⟩
    | refused => exact ⟨_, rfl, .inl ⟨⟨rfl, rfl⟩, .inr rfl⟩⟩
    | ended _ => exact ⟨_, rfl, .inl ⟨⟨rfl, rfl⟩, .inl rfl⟩⟩
    | offence hc hp =>
      have hname := mem_offenceNames hc
      cases hp with
      | same => exact (hn hname).elim
      | numberLater => exact (hn (mem_offenceNames (.inl rfl))).elim
      | refusedThere hc => exact ⟨_, rfl, .inr (.inr ⟨hname, rfl, .inr ⟨rfl, hc ▸ rfl⟩⟩)⟩
      | refusedLater hq => exact ⟨_, rfl, .inr (.inl ⟨hname, _, _, rfl, rfl, hq⟩)⟩
      | unreadable _ hq => exact ⟨_, rfl, .inr (.inl ⟨hname, _, _, rfl, rfl, hq⟩)⟩
      | ended _ hq =>
        rcases hq with rfl | hq
        · exact ⟨_, rfl, .inr (.inr ⟨hname, rfl, .inl rfl⟩)⟩
        · exact ⟨_, rfl, .inr (.inl ⟨hname, _, _, rfl, rfl, hq⟩)⟩

/-- A block that is still open after a `break`. -/
def openBlock : String := "\x7b break"

theorem descent_openBlock :
    FrontEnd.parse .descent openBlock = .error (.located .breakOutsideLoop ⟨1, 3⟩) := rfl

theorem grammar_openBlock :
    ∃ expected, FrontEnd.parse .grammar openBlock =
      .error (.located (.unexpectedEnd expected) ⟨1, 3⟩) := ⟨_, rfl⟩

theorem shallow_of_errors {text : String} {d g : Error}
    (hd : FrontEnd.parse .descent text = .error d) (hg : FrontEnd.parse .grammar text = .error g)
    (hd' : d.cause ≠ .nestedText) (hg' : g.cause ≠ .nestedText) : Shallow text := by
  rintro (_ | _) e h
  · cases hd.symm.trans h
    exact hd'
  · cases hg.symm.trans h
    exact hg'

theorem shallow_openBlock : Shallow openBlock := by
  obtain ⟨expected, hg⟩ := grammar_openBlock
  exact shallow_of_errors descent_openBlock hg nofun nofun

theorem failures_related_openBlock : Shallow openBlock ∧ FailuresRelated openBlock :=
  ⟨shallow_openBlock, failures_related shallow_openBlock⟩

/-- The digits of a number that is out of range. -/
def nines : List Char := List.replicate 310 '9'

/-- A number out of range where no number may stand. -/
def misplacedNumber : String := String.ofList ('i' :: 'f' :: ' ' :: nines)

theorem number?_nines : Lexeme.number? nines = none := by
  have h : (Lexeme.number? nines).isNone = true := by decide +kernel
  simpa using h

theorem lexemes_misplacedNumber : (Scan.ofText misplacedNumber.toList).lexemes =
    [⟨.word ['i', 'f'], ⟨1, 1⟩⟩, ⟨.number nines, ⟨1, 4⟩⟩] := by
  rw [misplacedNumber, String.toList_ofList]
  decide +kernel

theorem descent_misplacedNumber : FrontEnd.parse .descent misplacedNumber =
    .error (.located .numberOutOfRange ⟨1, 4⟩) := by
  have ht : tokenize misplacedNumber =
      ⟨[⟨.mark "if", ⟨1, 1⟩⟩], some (.located .numberOutOfRange ⟨1, 4⟩)⟩ := by
    rw [tokenize_eq, lexemes_misplacedNumber]
    simp only [Stream.ofLexemes, Lexeme.symbol?, number?_nines, Option.map_none]
    rfl
  change (Descent.program _).run' _ = _
  rw [ht]
  rfl

theorem grammar_misplacedNumber : ∃ expected found, FrontEnd.parse .grammar misplacedNumber =
    .error (.located (.unexpectedToken expected found) ⟨1, 4⟩) := by
  have hg : FrontEnd.parse .grammar misplacedNumber = _ := parse_eq misplacedNumber
  rw [hg]
  exact ⟨_, _, parseScan_of_feed_error (by rw [lexemes_misplacedNumber]; rfl)⟩

/-- Whether descent agrees with an error of the grammar that is no offence or has stopped
at an offence before. -/
def StopsEarlier (text : String) : Prop :=
  ∀ g, FrontEnd.parse .grammar text = .error g → g.cause.name ∉ offenceNames →
    ∃ d, FrontEnd.parse .descent text = .error d ∧
      (d.SameKind g ∧ (g.cause.name = "UnexpectedEnd" ∨ d.mark = g.mark) ∨
        d.cause.name ∈ offenceNames ∧ d.Precedes g)

theorem not_stopsEarlier {text : String} {c c' : Cause} {p : Position}
    (hd : FrontEnd.parse .descent text = .error (.located c p))
    (hg : FrontEnd.parse .grammar text = .error (.located c' p))
    (hc : c.name ∈ offenceNames) (hc' : c'.name ∉ offenceNames) : ¬ StopsEarlier text := by
  intro h
  obtain ⟨d, hd', hor⟩ := h _ hg hc'
  cases hd.symm.trans hd'
  rcases hor with ⟨⟨-, hn⟩, -⟩ | ⟨-, q, q', hq, hq', hlt⟩
  · exact hc' (hn ▸ hc)
  · simp only [Error.located, Mark.of, Mark.mk.injEq, Json.int.injEq] at hq hq'
    unfold Position.Before at hlt
    omega

/-- Descent may stop at the very token that the grammar complains about. -/
theorem stops_at_refused_token :
    (Shallow openBlock ∧ ¬ StopsEarlier openBlock) ∧
      Shallow misplacedNumber ∧ ¬ StopsEarlier misplacedNumber := by
  obtain ⟨expected, hg⟩ := grammar_openBlock
  obtain ⟨expected', found, hg'⟩ := grammar_misplacedNumber
  refine ⟨⟨shallow_openBlock,
      not_stopsEarlier descent_openBlock hg (mem_offenceNames (.inr rfl)) ?_⟩,
    shallow_of_errors descent_misplacedNumber hg' nofun nofun,
    not_stopsEarlier descent_misplacedNumber hg' (mem_offenceNames (.inl rfl)) ?_⟩
  · simp [Cause.name, offenceNames]
  · simp [Cause.name, Cause.family, Family.defaultName, offenceNames]

end Scriptling
