import Scriptling.CommandLine.Perform
import Scriptling.Proofs.DocumentRoundTrip
import Scriptling.Proofs.FailedRuns
import Scriptling.Proofs.JsonText
import Scriptling.Proofs.RunEndings

/-!
# Running tree documents

A tree document is refused, or its tree is run, and the run ends normally or with an
evaluation error. There are few ways out of this. The reader of documents lets pass what cannot
be run or written down, and a document that is nested too deeply and a number that no double is
near to are met outside of what is refused; the others are those of every program.
-/
namespace Scriptling

namespace Node

/-- The names of variables that a statement reads or sets by itself. -/
def names : Node → List Json
  | .input name _ => [name]
  | .assign name value _ => name :: value.reads.map Prod.fst
  | n => n.uses.map Prod.fst

/-- Whether a tree is a program with statements, expressions and blocks in their places, and
with names that are names of variables. -/
structure IsWellFormed (tree : Node) : Prop where
  program : ∃ body, tree = .program body
  statements : ∀ n ∈ tree.nested, n.IsProperStatement
  names : ∀ n ∈ tree.nested, ∀ inner outer, n.Encloses inner outer →
    ∀ name ∈ inner.names, name.variableName? ≠ none

end Node

namespace BigStep

/-- Nothing is out of its place in a statement with names of variables. -/
theorem Arises.fault_of_names {limit : Limit} {n : Node} {f : Fault}
    (h : Arises limit n (.fault f)) (hn : ∀ name ∈ n.names, name.variableName? ≠ none) :
    ¬ f.IsMisplacement := by
  have of_reads : ∀ {e : Node}, Unevaluable e.reads (.fault f) →
      (∀ name ∈ e.reads.map Prod.fst, name.variableName? ≠ none) → ¬ f.IsMisplacement := by
    intro e he hnames
    cases he with
    | unnamed hmem hnone => exact absurd hnone (hnames _ (List.mem_map_of_mem hmem))
    | infiniteDividend => exact id
  cases h with
  | print hv => exact of_reads hv.unevaluable hn
  | inputUnnamed hnone => exact absurd hnone (hn _ List.mem_cons_self)
  | assign hv =>
    exact of_reads hv.unevaluable fun name hname => hn name (List.mem_cons_of_mem _ hname)
  | assignUnnamed hnone => exact absurd hnone (hn _ List.mem_cons_self)
  | branch hc => exact of_reads hc.unevaluable hn
  | condition hc => exact of_reads hc.unevaluable hn
  | limit hr =>
    rcases refusal?_eq_some hr with ⟨_, hf⟩ | ⟨_, _, hf⟩
    · cases hf
    · cases hf
      exact id
  | evaluate hv => exact of_reads hv.unevaluable hn

end BigStep

/-- Nothing is found out of its place in a tree that is well formed. -/
theorem not_misplacement_of_isWellFormed {settings : Settings} {tree : Node}
    (h : tree.IsWellFormed) {s s' : State} {f : Fault}
    (hrun : runProgram settings tree s = .error (.failure (.fault f)) s') : ¬ f.IsMisplacement := by
  obtain ⟨body, rfl⟩ := h.program
  rcases exists_executes_of_runWithin h.statements hrun with hf | hf | ⟨path, f₀, hexecutes, hf⟩
  · cases hf
  · cases hf
  · obtain ⟨n, hn, inner, outer, rfl, hencloses, harises⟩ := hexecutes.accounts
    cases f₀ with
    | error e => cases hf
    | fault g =>
      cases hf
      exact harises.fault_of_names (h.names n hn inner outer hencloses)

namespace CommandLine

/-- Whether the text of a document is that of a tree. -/
def Holds (text : String) (tree : Node) : Prop :=
  ∃ j, Json.read Json.maxNesting text = .ok j ∧ Node.ofDocument j = .ok tree

/-- Whether the tool refuses a document with a line that says so, and does nothing else. -/
def Outcome.RefusesDocument (r : Outcome) (file : String) : Prop :=
  ∃ message, r = refuse "" ("Error: invalid AST file " ++ file ++ ": " ++ message)

/-- Whether the tool ends normally, or with the line of an evaluation error. -/
def Outcome.IsOrderly (r : Outcome) : Prop :=
  r.ending = .exit 0 ∧ r.stderr = "" ∨
    ∃ e : Error, e.cause.family.isEvaluation = true ∧ r.ending = .exit 1 ∧
      r.stderr = e.text ++ "\n"

/-- How the tool may end otherwise on the text of a document. -/
inductive Escapes (limit : Limit) (text : String) : Ending → Prop where
  | nestedTooDeep : Json.read Json.maxNesting text = .error .nestedTooDeep →
    Escapes limit text .nestedTooDeep
  | numberTooLarge {j : Json} : Json.read Json.maxNesting text = .ok j →
    Node.ofDocument j = .error .numberTooLarge → Escapes limit text (.document .numberTooLarge)
  | loneSurrogate {tree : Node} : Holds text tree → Json.hasLoneSurrogate text = true →
    Escapes limit text .loneSurrogate
  | notProgram {tree : Node} : Holds text tree → (∀ body, tree ≠ .program body) →
    Escapes limit text (.fault tree.programFault)
  | misplacement {body : List Node} {f : Fault} : Holds text (.program body) →
    ¬ (Node.program body).IsWellFormed → f.IsMisplacement → Escapes limit text (.fault f)
  | infiniteDividend {body : List Node} : Holds text (.program body) →
    Escapes limit text (.fault .infiniteDividend)
  | notALimit {kind : String} : limit = .unusable kind →
    Escapes limit text (.fault (.notALimit kind))
  | endless : limit = .unlimited → Escapes limit text .endless

theorem perform_runTree (o : Options) (file content stdin : String) :
    perform o (.runTree file) (.text content) stdin =
      runDocument ⟨o.verbosity, o.limit⟩ (Path.normalize file) (Lines.normalize content) stdin :=
  rfl

theorem runDocument_of_holds (settings : Settings) (file : String) {text : String} {tree : Node}
    (h : Holds text tree) (hlone : Json.hasLoneSurrogate text = false) (stdin : String) :
    runDocument settings file text stdin = runTree settings tree stdin := by
  obtain ⟨j, hj, htree⟩ := h
  simp only [runDocument, hj, htree, hlone, Bool.false_eq_true, if_false]

theorem runDocument_of_loneSurrogate (settings : Settings) (file : String) {text : String}
    {tree : Node} (h : Holds text tree) (hlone : Json.hasLoneSurrogate text = true)
    (stdin : String) : (runDocument settings file text stdin).ending = .loneSurrogate := by
  obtain ⟨j, hj, htree⟩ := h
  simp only [runDocument, hj, htree, hlone, if_true]

/-- A text that holds no tree is refused, unless it is nested too deeply or a number in it is too
large. -/
theorem runDocument_of_not_holds (settings : Settings) (file : String) {text : String}
    (h : ∀ tree, ¬ Holds text tree) (stdin : String) :
    (runDocument settings file text stdin).RefusesDocument file ∨
      Escapes settings.limit text (runDocument settings file text stdin).ending := by
  cases hj : Json.read Json.maxNesting text with
  | error e =>
    simp only [runDocument, hj]
    cases e with
    | malformed => exact .inl ⟨_, rfl⟩
    | nestedTooDeep => exact .inr (.nestedTooDeep hj)
  | ok j =>
    cases hn : Node.ofDocument j with
    | ok tree => exact absurd ⟨j, hj, hn⟩ (h tree)
    | error e =>
      simp only [runDocument, hj, hn]
      cases e with
      | numberTooLarge => exact .inr (.numberTooLarge hj hn)
      | _ => exact .inl ⟨_, rfl⟩

theorem orderly_or_escapes_of_runTree (settings : Settings) {text : String} {body : List Node}
    (h : Holds text (.program body)) (stdin : String) :
    (runTree settings (.program body) stdin).IsOrderly ∨
      Escapes settings.limit text (runTree settings (.program body) stdin).ending := by
  unfold runTree
  dsimp only
  cases hr : runProgram settings (.program body)
      (.initial (.ofText (Lines.normalize stdin))) with
  | ok _ s => exact .inl (.inl ⟨rfl, rfl⟩)
  | error e s =>
    have hplaces : ∀ f, e = .failure (.fault f) → f.IsMisplacement →
        ¬ (Node.program body).IsWellFormed := by
      rintro f rfl hf htree
      exact not_misplacement_of_isWellFormed htree hr hf
    cases stopsRun_of_runWithin settings.limit.lt_steps hr with
    | error he => exact .inl (.inr ⟨_, he, rfl, rfl⟩)
    | misplacement hf => exact .inr (.misplacement h (hplaces _ rfl hf) hf)
    | infiniteDividend => exact .inr (.infiniteDividend h)
    | notALimit hlimit => exact .inr (.notALimit hlimit)
    | outOfSteps hlimit => exact .inr (.endless hlimit)

theorem runTree_of_not_program (settings : Settings) {tree : Node}
    (h : ∀ body, tree ≠ .program body) (stdin : String) :
    (runTree settings tree stdin).ending = .fault tree.programFault := by
  simp only [runTree, runProgram_of_not_program settings h]

/-- A document is refused before anything runs, or it is a program that runs to a normal end or
to an evaluation error, but for the ways out that are listed. -/
theorem document_refused_or_run (o : Options) (file content stdin : String) :
    let text := Lines.normalize content
    let r := perform o (.runTree file) (.text content) stdin
    (r.RefusesDocument (Path.normalize file) ∧ ∀ tree, ¬ Holds text tree) ∨
      (∃ body, Holds text (.program body) ∧
        r = runTree ⟨o.verbosity, o.limit⟩ (.program body) stdin ∧ r.IsOrderly) ∨
      Escapes o.limit text r.ending := by
  intro text r
  have hr := perform_runTree o file content stdin
  change r = _ at hr
  by_cases hholds : ∃ tree, Holds text tree
  · obtain ⟨tree, htree⟩ := hholds
    by_cases hlone : Json.hasLoneSurrogate text = true
    · rw [hr, runDocument_of_loneSurrogate _ _ htree hlone]
      exact .inr (.inr (.loneSurrogate htree hlone))
    rw [runDocument_of_holds _ _ htree (Bool.eq_false_iff.2 hlone)] at hr
    by_cases hprogram : ∃ body, tree = .program body
    · obtain ⟨body, rfl⟩ := hprogram
      rw [hr]
      rcases orderly_or_escapes_of_runTree ⟨o.verbosity, o.limit⟩ htree stdin with h | h
      · exact .inr (.inl ⟨body, htree, rfl, h⟩)
      · exact .inr (.inr h)
    · have hnot := not_exists.1 hprogram
      rw [hr, runTree_of_not_program _ hnot]
      exact .inr (.inr (.notProgram htree hnot))
  · have hnot := not_exists.1 hholds
    rw [hr]
    rcases runDocument_of_not_holds ⟨o.verbosity, o.limit⟩ (Path.normalize file) hnot stdin
      with h | h
    · exact .inl ⟨h, hnot⟩
    · exact .inr (.inr h)

/-- A number in the place of a statement. -/
def misplacedText : String :=
  "\x7b\"type\": \"Program\", \"body\": [\x7b\"type\": \"NumberLiteral\", \"value\": 1\x7d]\x7d"

/-- A literal with a whole number. -/
def literalDocument (n : Int) : Json :=
  .obj [("type", .str "NumberLiteral"), ("value", .int n)]

theorem isPlain_literalDocument {n : Int} (hn : Decimal.width n.natAbs ≤ maxDigits) :
    (literalDocument n).IsPlain := by
  refine .obj (show ["type", "value"].Nodup by decide) ?_
  simp only [List.forall_mem_cons]
  exact ⟨.str, .int hn, nofun⟩

theorem ofDocument_literalDocument {n : Int} (hn : Binary.ofInt? n = none) :
    Node.ofDocument (literalDocument n) = .error .numberTooLarge := by
  have hnumber : Node.numberOf (.int n) = .error .numberTooLarge := by
    rw [Node.numberOf, hn]
  simp [literalDocument, Node.ofFields, Node.Fields.rawD, hnumber]

/-- A whole number that no double is near to is not refused. -/
theorem ending_of_large {n : Int} (hwidth : Decimal.width n.natAbs ≤ maxDigits)
    (hn : Binary.ofInt? n = none) (o : Options) (file stdin : String) :
    (perform o (.runTree file) (.text (literalDocument n).print) stdin).ending =
      .document .numberTooLarge := by
  have hplain := isPlain_literalDocument hwidth
  have hread : Json.read Json.maxNesting (literalDocument n).print = .ok (literalDocument n) :=
    Json.read_print hplain (by simp [literalDocument, Json.nesting, Json.nestingOfFields,
      Json.maxNesting])
  rw [perform_runTree, Json.normalize_print hplain]
  simp only [runDocument, hread, ofDocument_literalDocument hn]

/-- A number of four hundred and one digits. -/
def hugeNumber : Int := (10 ^ 200 * 10 ^ 200 : Nat)

theorem width_hugeNumber_le : Decimal.width hugeNumber.natAbs ≤ maxDigits :=
  (Decimal.width_le_iff (by decide)).2 (by decide +kernel)

theorem ofInt?_hugeNumber : Binary.ofInt? hugeNumber = none := by
  have hbits : ¬ Binary.nearestBits hugeNumber.natAbs 1 < Binary.infinityBits := by decide +kernel
  simp only [Binary.ofInt?, if_neg hbits]

/-- The text of that many opening brackets. -/
def brackets (n : Nat) : String := String.ofList (List.replicate n '[')

theorem skip_brackets (n : Nat) :
    Json.Reader.skip (List.replicate n '[') = List.replicate n '[' := by
  cases n with
  | zero => rfl
  | succ n => exact Json.Reader.skip_cons rfl _

/-- The reader gives up at the first bracket that it has no level left for. -/
theorem value_brackets {room n fuel : Nat} (hn : room < n) (hfuel : 2 * n ≤ fuel) :
    Json.Reader.value room fuel (List.replicate n '[') = .error .nestedTooDeep := by
  induction room generalizing n fuel with
  | zero =>
    obtain ⟨n, rfl⟩ : ∃ k, n = k + 1 := ⟨n - 1, by omega⟩
    obtain ⟨fuel, rfl⟩ : ∃ k, fuel = k + 1 := ⟨fuel - 1, by omega⟩
    rw [List.replicate_succ, Json.Reader.value, if_pos rfl]
  | succ room ih =>
    obtain ⟨n, rfl⟩ : ∃ k, n = k + 2 := ⟨n - 2, by omega⟩
    obtain ⟨fuel, rfl⟩ : ∃ k, fuel = k + 2 := ⟨fuel - 2, by omega⟩
    have hnext := ih (show room < n + 1 by omega) (show 2 * (n + 1) ≤ fuel by omega)
    rw [List.replicate_succ, Json.Reader.value, if_neg (Nat.succ_ne_zero room), skip_brackets]
    change Json.Reader.items room (fuel + 1) [] (List.replicate (n + 1) '[') = _
    rw [Json.Reader.items, skip_brackets, hnext]

theorem ending_of_brackets {n : Nat} (hn : Json.maxNesting < n) (o : Options)
    (file stdin : String) :
    (perform o (.runTree file) (.text (brackets n)) stdin).ending = .nestedTooDeep := by
  have hlines : Lines.normalize (brackets n) = brackets n := by
    rw [Lines.normalize, brackets, String.toList_ofList,
      Lines.unify_of_not_mem fun hmem => by cases List.eq_of_mem_replicate hmem]
  have hread : Json.read Json.maxNesting (brackets n) = .error .nestedTooDeep := by
    simp only [Json.read, brackets, String.toList_ofList, List.length_replicate, skip_brackets,
      value_brackets hn (Nat.le_succ _)]
  rw [perform_runTree, hlines]
  simp only [runDocument, hread]

/-- An end that is an exit. -/
def Ending.isExit : Ending → Bool
  | .exit _ => true
  | _ => false

theorem not_refused_or_orderly {r : Outcome} (h : r.ending.isExit = false) (file : String) :
    ¬ (r.RefusesDocument file ∨ r.IsOrderly) := by
  rintro (⟨message, rfl⟩ | ⟨hending, -⟩ | ⟨_, -, hending, -⟩)
  · cases h
  · rw [hending] at h
    cases h
  · rw [hending] at h
    cases h

/-- The answer to a document in a file. -/
def answerTo (content : String) : Outcome :=
  perform .default (.runTree "p.json") (.text content) ""

/-- A program that writes half a surrogate pair. -/
def surrogateText : String :=
  "\x7b\"type\": \"Program\", \"body\": [\x7b\"type\": \"PrintStmt\", \"expr\": " ++
    "\x7b\"type\": \"StringLiteral\", \"value\": \"\\ud800\"\x7d\x7d]\x7d"

/-- A document that is null, one with a node out of its place, one with a number that is too
large, one of very many brackets and one with half a surrogate pair are neither refused nor run to
an end that is one. -/
theorem documents_escape :
    ¬ ((answerTo "null").RefusesDocument "p.json" ∨ (answerTo "null").IsOrderly) ∧
    ¬ ((answerTo misplacedText).RefusesDocument "p.json" ∨ (answerTo misplacedText).IsOrderly) ∧
    ¬ ((answerTo (literalDocument hugeNumber).print).RefusesDocument "p.json" ∨
      (answerTo (literalDocument hugeNumber).print).IsOrderly) ∧
    ¬ ((answerTo (brackets 2000)).RefusesDocument "p.json" ∨
      (answerTo (brackets 2000)).IsOrderly) ∧
    ¬ ((answerTo surrogateText).RefusesDocument "p.json" ∨
      (answerTo surrogateText).IsOrderly) := by
  refine ⟨not_refused_or_orderly ?_ _, not_refused_or_orderly ?_ _, not_refused_or_orderly ?_ _,
    not_refused_or_orderly ?_ _, not_refused_or_orderly ?_ _⟩
  · decide +kernel
  · decide +kernel
  · rw [answerTo, ending_of_large width_hugeNumber_le ofInt?_hugeNumber]
    rfl
  · rw [answerTo, ending_of_brackets (by decide)]
    rfl
  · decide +kernel

end CommandLine
end Scriptling
