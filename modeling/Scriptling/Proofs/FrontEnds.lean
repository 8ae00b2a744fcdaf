import Scriptling.FrontEnd
import Scriptling.Proofs.Acceptance
import Scriptling.Proofs.Offences
import Scriptling.Proofs.Patterns

/-!
# The two front ends

Both front ends come to what the machine makes of a text. The one stops at the
first offence, the other reads the whole text first and looks for offences
afterwards. What they say about one text differs only in this and in where they
place the end of a text that ends too early.
-/
namespace Scriptling

namespace Scan

/-- What follows the lexemes of a text. -/
def ending (scan : Scan) : Stream :=
  match scan.error? with
  | some e => ⟨[], some e⟩
  | none => ⟨[⟨.finish, scan.stop⟩], none⟩

theorem fit_of_mem {text : List Char} {l : Lexeme} (h : l ∈ (ofText text).lexemes) :
    ShiftReduce.Fit l := by
  obtain ⟨hm, hl⟩ := Lexeme.piece_mem_of_mem_place h
  exact ⟨(proper_of_mem_cutAll hm).1, hl⟩

theorem pairwise_lexemes (text : List Char) :
    (ofText text).lexemes.Pairwise fun l l' => l.position.Before l'.position :=
  Lexeme.pairwise_place fun _ hq => (proper_of_mem_cutAll hq).2

theorem before_stop {text : List Char} {l : Lexeme} (h : l ∈ (ofText text).lexemes) :
    l.position.Before (ofText text).stop := by
  have hb := Lexeme.before_of_mem_place (fun _ hq => (proper_of_mem_cutAll hq).2) h
  unfold Position.Before at hb ⊢
  simp only [ofText]
  omega

/-- A text cannot be cut further for one of two reasons. -/
theorem failure_cases {text : List Char} {c : Cause} (h : (ofText text).failure = some c) :
    c = .unterminatedString ∨ ∃ x, c = .unexpectedCharacter x := by
  simp only [ofText] at h
  unfold failureOf at h
  split at h
  · cases h
  · cases h
    split
    · exact .inl rfl
    · exact .inr ⟨_, rfl⟩

end Scan

theorem tokenize_eq (text : String) :
    tokenize text =
      .ofLexemes (Scan.ofText text.toList).ending (Scan.ofText text.toList).lexemes := rfl

theorem closed_tokenize (text : String) : (tokenize text).Closed := by
  have hend : (Scan.ofText text.toList).ending.Closed := by
    unfold Scan.ending
    split
    · exact .inl rfl
    · exact .inr ⟨_, List.mem_singleton_self _, rfl⟩
  rw [tokenize_eq]
  induction (Scan.ofText text.toList).lexemes with
  | nil => exact hend
  | cons l rest ih =>
    rw [Stream.ofLexemes]
    split
    · rcases ih with h | ⟨t, ht, hf⟩
      · exact .inl h
      · exact .inr ⟨t, List.mem_cons_of_mem _ ht, hf⟩
    · exact .inl rfl

open ShiftReduce

/-- A text that is not nested too deeply is read by descent as the machine has it. -/
theorem Descent.parse_eq_verdict {text : String}
    (h : ∀ e, Descent.parse text = .error e → e.cause ≠ .nestedText) :
    Descent.parse text = (Machine.start.verdict (tokenize text)).map (·.node) := by
  have hs := closed_tokenize text
  cases hr : Descent.parse text with
  | ok n =>
    obtain ⟨g, hg, rfl⟩ := verdict_of_program_eq_ok hs hr
    rw [hg]
    rfl
  | error e =>
    have he : e ≠ tooDeep := by
      rintro rfl
      exact h _ hr rfl
    rw [verdict_of_program_eq_error hs he hr]
    rfl

/-- What is said of a whole text in which an offence has been passed over. The offence
has the given cause and place. -/
inductive Passed (scan : Scan) (c : Cause) (p : Position) : Error → Prop where
  | same : Passed scan c p (.located c p)
  | numberLater {q : Position} : c = .breakOutsideLoop → p.Before q →
    Passed scan c p (.located .numberOutOfRange q)
  | refusedThere {expected found : String} : c = .numberOutOfRange →
    Passed scan c p (.located (.unexpectedToken expected found) p)
  | refusedLater {q : Position} {expected found : String} : p.Before q →
    Passed scan c p (.located (.unexpectedToken expected found) q)
  | unreadable {c' : Cause} : scan.failure = some c' → p.Before scan.stop →
    Passed scan c p (.located c' scan.stop)
  | ended {l : Lexeme} {expected : String} : scan.lexemes.getLast? = some l →
    p = l.position ∨ p.Before l.position →
    Passed scan c p (.located (.unexpectedEnd expected) l.position)

/-- What the two front ends may say of one text. -/
inductive Outcome (scan : Scan) : Except Error Node → Except Error Node → Prop where
  | accepted (n : Node) : Outcome scan (.ok n) (.ok n)
  | unreadable {c : Cause} : scan.failure = some c →
    Outcome scan (.error (.located c scan.stop)) (.error (.located c scan.stop))
  | refused {p : Position} {expected found expected' found' : String} :
    Outcome scan (.error (.located (.unexpectedToken expected found) p))
      (.error (.located (.unexpectedToken expected' found') p))
  | ended {l : Lexeme} {expected expected' : String} : scan.lexemes.getLast? = some l →
    Outcome scan (.error (.located (.unexpectedEnd expected) scan.stop))
      (.error (.located (.unexpectedEnd expected') l.position))
  | offence {c : Cause} {p : Position} {e : Error} :
    c = .numberOutOfRange ∨ c = .breakOutsideLoop → Passed scan c p e →
    Outcome scan (.error (.located c p)) (.error e)

namespace ShiftReduce

/-- The text is read as if it had been scanned for descent. -/
theorem parse_eq (text : String) : parse text = parseScan (.ofText text.toList) := by
  obtain ⟨hl, he⟩ := scan_eq text.toList
  unfold parse parseScan
  rw [hl, he]

theorem parseScan_of_feed {scan : Scan} {m : Machine} (h : feed .start scan.lexemes = .ok m) :
    parseScan scan =
      match scan.failure with
      | some c => .error (.located c scan.stop)
      | none =>
        match m.finish with
        | .error expected => .error (unexpectedFinish expected scan.lexemes.getLast?)
        | .ok g => check g := by
  unfold parseScan
  rw [h]
  change (match scan.error? with
    | some e => Except.error e
    | none => _) = _
  unfold Scan.error?
  cases scan.failure <;> rfl

theorem parseScan_of_feed_error {scan : Scan} {e : Error}
    (h : feed .start scan.lexemes = .error e) : parseScan scan = .error e := by
  unfold parseScan
  rw [h]
  rfl

/-- A text that ends too early has a last lexeme. -/
theorem exists_getLast? {m : Machine} {expected : Expected} {ls : List Lexeme}
    (h : feed .start ls = .ok m) (hf : m.finish = .error expected) :
    ∃ l, ls.getLast? = some l := by
  cases ls with
  | nil =>
    cases h
    cases hf
  | cons l rest => exact ⟨_, List.getLast?_eq_some_getLast (by simp)⟩

end ShiftReduce

/-- A text without offences. -/
theorem outcome_of_clean {scan : Scan} {m : Machine} (hfeed : feed .start scan.lexemes = .ok m)
    (hm : Clean m) (hdeep : ∀ e, parseScan scan = .error e → e.cause ≠ .nestedText) :
    Outcome scan ((m.verdict scan.ending).map (·.node)) (parseScan scan) := by
  rw [parseScan_of_feed hfeed] at hdeep ⊢
  unfold Scan.ending Scan.error?
  cases hfail : scan.failure with
  | some c => exact .unreadable hfail
  | none =>
    rw [hfail] at hdeep
    cases hfin : m.finish with
    | error expected =>
      obtain ⟨l, hl⟩ := exists_getLast? hfeed hfin
      have hv : m.verdict ⟨[⟨.finish, scan.stop⟩], none⟩ = .error
          (.located (.unexpectedEnd (m.wanted ⟨.finish, scan.stop⟩)) scan.stop) := by
        rw [Machine.verdict_finish rfl, Machine.close, hfin]
        rfl
      have hg : unexpectedFinish expected scan.lexemes.getLast? =
          .located (.unexpectedEnd expected.text) l.position := by
        rw [hl]
        rfl
      simp only [Option.map_none]
      rw [hv, hg]
      exact .ended hl
    | ok g =>
      have hv : m.verdict ⟨[⟨.finish, scan.stop⟩], none⟩ = .ok g := by
        rw [Machine.verdict_finish rfl, Machine.close, hfin]
        rfl
      rw [hfin] at hdeep
      simp only [Option.map_none] at hdeep ⊢
      rw [hv]
      rw [check_eq hfin, hm.overflow, hm.stray] at hdeep ⊢
      split
      · rename_i hh
        rw [if_pos hh] at hdeep
        exact (hdeep _ rfl rfl).elim
      · exact .accepted g.node

/-- A lexeme that is refused after an offence is the offence itself, if that is a number,
or a later one. -/
theorem passed_of_feed_error {scan : Scan} {vs : List Lexeme} {l : Lexeme} {m : Machine}
    {c : Cause} {e : Error} (hlater : ∀ l' ∈ vs, l.position.Before l'.position)
    (h : Stops m l c) (hc : c = .numberOutOfRange ∨ c = .breakOutsideLoop)
    (hfeed : feed m (l :: vs) = .error e) : Passed scan c l.position e := by
  obtain ⟨us, l', vs', m', expected, hsplit, hf, hst, rfl⟩ := feed_eq_error hfeed
  cases us with
  | nil =>
    obtain ⟨rfl, rfl⟩ := List.cons.inj hsplit
    cases hf
    cases h with
    | overflow => exact .refusedThere rfl
    | stray _ _ _ hok => cases hok.symm.trans hst
    | refused => simp at hc
  | cons _ us =>
    obtain ⟨rfl, rfl⟩ := List.cons.inj hsplit
    exact .refusedLater (hlater l' (by simp))

/-- A program with an offence fails its check there, or at a number behind a `break`. -/
theorem passed_of_check {scan : Scan} {vs : List Lexeme} {l : Lexeme} {m m' : Machine}
    {c : Cause} {g : Grown} (hlater : ∀ l' ∈ vs, l.position.Before l'.position)
    (hfit : ∀ l' ∈ l :: vs, Fit l') (hm : Clean m) (h : Stops m l c)
    (hfeed : feed m (l :: vs) = .ok m') (hfin : m'.finish = .ok g)
    (hheight : ¬ maxHeight < g.height) :
    ∃ e, check g = .error e ∧ Passed scan c l.position e := by
  rw [check_eq hfin, if_neg hheight]
  rcases h.found hm hfit hfeed with ⟨rfl, ho⟩ | ⟨rfl, hb, hnum⟩
  · rw [ho]
    exact ⟨_, rfl, .same⟩
  · cases ho : overflows.machine m' with
    | none =>
      rw [hb]
      exact ⟨_, rfl, .same⟩
    | some q =>
      obtain ⟨l', hl', rfl⟩ := hnum q ho
      exact ⟨_, rfl, .numberLater rfl (hlater l' hl')⟩

/-- Reading a whole text in which an offence has been passed over. -/
theorem passed {scan : Scan} {us vs : List Lexeme} {l : Lexeme} {m : Machine} {c : Cause}
    (hls : ∀ l ∈ scan.lexemes, Fit l)
    (hpos : scan.lexemes.Pairwise fun l l' => l.position.Before l'.position)
    (hstop : ∀ l ∈ scan.lexemes, l.position.Before scan.stop)
    (heq : scan.lexemes = us ++ l :: vs) (hfeed : feed .start us = .ok m) (hm : Clean m)
    (h : Stops m l c) (hc : c = .numberOutOfRange ∨ c = .breakOutsideLoop)
    (hdeep : ∀ e, parseScan scan = .error e → e.cause ≠ .nestedText) :
    ∃ e, parseScan scan = .error e ∧ Passed scan c l.position e := by
  have hfit : ∀ l' ∈ l :: vs, Fit l' := by
    intro l' hl'
    exact hls l' (heq ▸ List.mem_append_right us hl')
  have hlater : ∀ l' ∈ vs, l.position.Before l'.position := by
    rw [heq, List.pairwise_append, List.pairwise_cons] at hpos
    exact hpos.2.1.1
  have hwhole : feed .start scan.lexemes = feed m (l :: vs) := by rw [heq, feed_append hfeed]
  cases hrest : feed m (l :: vs) with
  | error e =>
    exact ⟨e, parseScan_of_feed_error (hwhole.trans hrest),
      passed_of_feed_error hlater h hc hrest⟩
  | ok m' =>
    have hparse := parseScan_of_feed (hwhole.trans hrest)
    cases hfail : scan.failure with
    | some c' =>
      rw [hfail] at hparse
      exact ⟨_, hparse, .unreadable hfail (hstop l (by simp [heq]))⟩
    | none =>
      rw [hfail] at hparse
      cases hfin : m'.finish with
      | error expected =>
        obtain ⟨last, hlast⟩ := exists_getLast? (hwhole.trans hrest) hfin
        rw [hfin, hlast] at hparse
        refine ⟨_, hparse, .ended hlast ?_⟩
        rw [heq, List.getLast?_append, List.getLast?_cons, Option.some_or, ← List.getLast?_cons]
          at hlast
        rcases List.mem_cons.1 (List.mem_of_getLast? hlast) with rfl | hmem
        · exact .inl rfl
        · exact .inr (hlater last hmem)
      | ok g =>
        have hparse : parseScan scan = check g := by rw [hparse, hfin]
        have hheight : ¬ maxHeight < g.height := by
          intro hh
          rw [check_eq hfin, if_pos hh] at hparse
          exact hdeep _ hparse rfl
        obtain ⟨e, he, hp⟩ := passed_of_check hlater hfit hm h hrest hfin hheight
        exact ⟨e, hparse.trans he, hp⟩

/-- Whether neither front end finds a text nested too deeply. -/
def Shallow (text : String) : Prop :=
  ∀ (f : FrontEnd) (e : Error), f.parse text = .error e → e.cause ≠ .nestedText

/-- The verdict on the tokens of a text and what the grammar says of the text. -/
theorem verdict_outcome {text : String}
    (h : ∀ e, FrontEnd.parse .grammar text = .error e → e.cause ≠ .nestedText) :
    Outcome (Scan.ofText text.toList) ((Machine.start.verdict (tokenize text)).map (·.node))
      (FrontEnd.parse .grammar text) := by
  have hfit : ∀ l ∈ (Scan.ofText text.toList).lexemes, Fit l := fun _ => Scan.fit_of_mem
  have hg : FrontEnd.parse .grammar text = parseScan (Scan.ofText text.toList) := parse_eq text
  have hdeep : ∀ e, parseScan (Scan.ofText text.toList) = .error e → e.cause ≠ .nestedText :=
    hg ▸ h
  rw [hg, tokenize_eq]
  -- up to the first lexeme that stops descent, both have read the same
  rcases verdict_ofLexemes (Scan.ofText text.toList).ending clean_start hfit with
    ⟨m, hfeed, hm, hv⟩ | ⟨us, l, vs, m, c, heq, hfeed, hm, hstop, hv⟩
  · rw [hv]
    exact outcome_of_clean hfeed hm hdeep
  · rw [hv]
    have hpassed := passed hfit (Scan.pairwise_lexemes _) (fun _ => Scan.before_stop) heq hfeed hm
      hstop
    cases hstop with
    | overflow =>
      obtain ⟨e, he, hp⟩ := hpassed (.inl rfl) hdeep
      rw [he]
      exact .offence (.inl rfl) hp
    | stray =>
      obtain ⟨e, he, hp⟩ := hpassed (.inr rfl) hdeep
      rw [he]
      exact .offence (.inr rfl) hp
    | refused _ hst =>
      rw [parseScan_of_feed_error (e := unexpectedLexeme _ l)
        (by rw [heq, feed_append hfeed, feed, hst])]
      exact .refused

/-- The two front ends on one text. -/
theorem outcome {text : String}
    (h : Shallow text) :
    Outcome (Scan.ofText text.toList) (FrontEnd.parse .descent text)
      (FrontEnd.parse .grammar text) := by
  change Outcome _ (Descent.parse text) _
  rw [Descent.parse_eq_verdict (h .descent)]
  exact verdict_outcome (h .grammar)

/-- A text is a program for one front end if and only if it is one for the other, and
both build the same tree. -/
theorem front_ends_build_same_tree {text : String} (h : Shallow text) (n : Node) :
    FrontEnd.parse .descent text = .ok n ↔ FrontEnd.parse .grammar text = .ok n := by
  have ho := outcome h
  generalize FrontEnd.parse .descent text = d at ho ⊢
  generalize FrontEnd.parse .grammar text = g at ho ⊢
  cases ho with
  | accepted n' => rfl
  | unreadable _ => exact ⟨nofun, nofun⟩
  | refused => exact ⟨nofun, nofun⟩
  | ended _ => exact ⟨nofun, nofun⟩
  | offence _ _ => exact ⟨nofun, nofun⟩

/-- A minus sign at the start of a line continues the line before. -/
def minusText : String := "a\n-b"

def minusTree : Node :=
  .program [.evaluate (.binary (.str "-") (.ident (.str "a") (.of ⟨1, 1⟩))
    (.ident (.str "b") (.of ⟨2, 2⟩))) (.of ⟨1, 1⟩)]

theorem parse_minusText (f : FrontEnd) : f.parse minusText = .ok minusTree := by
  cases f <;> rfl

theorem shallow_minusText : Shallow minusText := by
  intro f e h
  cases (parse_minusText f).symm.trans h

theorem front_ends_build_minus_tree :
    Shallow minusText ∧ FrontEnd.parse .grammar minusText = .ok minusTree :=
  ⟨shallow_minusText,
    (front_ends_build_same_tree shallow_minusText minusTree).1 (parse_minusText .descent)⟩

end Scriptling
