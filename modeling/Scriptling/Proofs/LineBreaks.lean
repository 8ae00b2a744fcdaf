import Scriptling.Proofs.TokenPlaces

/-!
# Texts behind line breaks

A line break ends whatever piece stands before it, unless that is an open comment or string:
no word, number or operator grows across it. So what is read of a text with a line behind it
is what is read of the text alone, followed by what is read of the line at the position where
it begins. Positions of two readings of one text differ by what the positions of its beginning
differ by, and behind a line break that is a number of lines.
-/
namespace Scriptling

/-- Runs of characters that are no blanks do not reach across a blank. -/
theorem Apart.span_append {p : Char → Bool} (hp : ∀ c, isBlank c = true → p c = false)
    {more : List Char} (h : Apart more) (rest : List Char) :
    (rest ++ more).takeWhile p = rest.takeWhile p ∧
      (rest ++ more).dropWhile p = rest.dropWhile p ++ more := by
  induction rest with
  | nil => exact h.run hp (List.forall_mem_nil _)
  | cons c rest ih =>
    cases hc : p c with
    | true => simpa [hc] using ih
    | false => simp [hc]

section Cutting

variable {c : Char} {rest after more : List Char} {piece : Piece}

theorem Cut.number_append (hmore : Apart more)
    (h : Cut.number c rest = .piece piece after) :
    Cut.number c (rest ++ more) = .piece piece (after ++ more) := by
  obtain ⟨htake, hdrop⟩ := hmore.span_append isNumeral_of_isBlank rest
  rw [Cut.number] at h ⊢
  rw [htake, hdrop]
  split at h
  · rename_i d behind heq
    rw [heq]
    obtain ⟨htake', hdrop'⟩ := hmore.span_append isNumeral_of_isBlank behind
    split at h
    · rename_i hd
      cases h
      simp [hd, htake', hdrop']
    · rename_i hd
      cases h
      simp [hd]
  · rename_i hpoint
    cases h
    split
    · rename_i d behind heq
      -- The point is the last character of the text, and a blank is no digit.
      have hd : d.isDigit = false := by
        refine isDigit_of_isBlank (hmore d ?_)
        rcases hrest : rest.dropWhile isNumeral with _ | ⟨x, _ | ⟨y, ys⟩⟩
        · exact absurd (hmore '.' (by simp_all)) (by decide)
        · simp_all
        · exact absurd (by simp_all) (hpoint y ys)
      rw [heq, hd, if_neg Bool.false_ne_true]
    · rfl

theorem Cut.operator_append (hmore : Apart more)
    (h : Cut.operator c rest = .piece piece after) :
    Cut.operator c (rest ++ more) = .piece piece (after ++ more) := by
  have hsingle : ∀ {rest}, Cut.single c rest = .piece piece after →
      Cut.single c (rest ++ more) = .piece piece (after ++ more) := by
    intro rest h
    unfold Cut.single at h ⊢
    split at h
    · rename_i hc
      cases h
      rw [if_pos hc]
    · cases h
  have hsecond : ∀ pair ∈ pairs, (pair.getLast?.all fun d => !isBlank d) = true := by decide
  cases rest with
  | nil =>
    rw [List.nil_append]
    have h' := hsingle h
    rcases hmore.cases with rfl | ⟨d, behind, rfl, hd⟩
    · exact h'
    · have hpair : [c, d] ∉ pairs := fun hmem => by
        have hblank : (!isBlank d) = true := hsecond _ hmem
        rw [hd] at hblank
        cases hblank
      rw [Cut.operator, if_neg hpair]
      exact h'
  | cons d behind =>
    rw [List.cons_append]
    unfold Cut.operator at h ⊢
    dsimp only at h ⊢
    split at h
    · rename_i hpair
      cases h
      rw [if_pos hpair]
    · rename_i hpair
      rw [if_neg hpair]
      exact hsingle h

/-- What is cut off a text is cut off it as well if a blank follows the text, unless it is an
open comment. -/
theorem cut_append (hmore : Apart more) (h : cut c rest = .piece piece after)
    (hclosed : ∀ body, piece ≠ .comment body false) :
    cut c (rest ++ more) = .piece piece (after ++ more) := by
  rw [cut_eq] at h ⊢
  cases ho : Opening.of c with
  | blank =>
    rw [ho] at h
    cases h
    rfl
  | comment =>
    rw [ho] at h
    dsimp only at h ⊢
    by_cases hmem : '#' ∈ rest
    · obtain ⟨body, tail, rfl, hbody⟩ := List.eq_append_cons_of_mem hmem
      cases (comment_closed hbody tail).symm.trans h
      rw [List.append_assoc]
      exact comment_closed hbody _
    · cases (comment_open hmem).symm.trans h
      exact absurd rfl (hclosed rest)
  | word =>
    rw [ho] at h
    cases h
    obtain ⟨htake, hdrop⟩ := hmore.span_append (fun _ => isWordChar_of_isBlank) rest
    simp only [htake, hdrop]
  | number =>
    rw [ho] at h
    exact Cut.number_append hmore h
  | string =>
    rw [ho] at h
    dsimp only at h ⊢
    by_cases hmem : '"' ∈ rest
    · obtain ⟨body, tail, rfl, hbody⟩ := List.eq_append_cons_of_mem hmem
      cases (string_closed hbody tail).symm.trans h
      rw [List.append_assoc]
      exact string_closed hbody _
    · cases (string_open hmem).symm.trans h
  | operator =>
    rw [ho] at h
    exact Cut.operator_append hmore h

end Cutting

theorem Piece.meaningful_of_cut {c : Char} {rest after : List Char} {piece : Piece}
    (h : cut c rest = .piece piece after) (hp : piece.isLexeme = true) :
    piece.Meaningful after := by
  have hcuts := cutsOff_cut c rest
  rw [h] at hcuts
  cases hcuts with
  | gap _ hgap _ =>
    rw [hp] at hgap
    cases hgap
  | openComment => cases hp
  | lexeme hmeaningful => exact hmeaningful

/-- Whether a text ends inside a comment. -/
def EndsInComment (text : List Char) : Prop :=
  ∃ t : Tiling, t.Covers text ∧ InComment t.rest

theorem endsInComment_iff {text : List Char} :
    EndsInComment text ↔ InComment (Tiling.ofText [] text).rest := by
  constructor
  · rintro ⟨t, hcovers, hrest⟩
    rwa [← hcovers.eq_ofText]
  · exact fun h => ⟨_, Tiling.covers_ofText .nil text, h⟩

/-- Behind a text that is read to its end and does not end inside a comment, reading goes on in
the next line. -/
theorem Reads.append_line {p : Position} {text : List Char} {s : Stream} (h : Reads p text s)
    (hs : s.failure = none) {gap : List Char} (hgap : IsGap gap)
    (hrest : ¬ InComment (Tiling.ofText gap text).rest) {line : List Char} {s' : Stream}
    (h' : Reads (p.after (text ++ ['\n'])) line s') :
    ∃ ts q, s = .whole ts q ∧ Reads p (text ++ '\n' :: line) (s'.before ts) := by
  have hmore : Apart ('\n' :: line) := by
    rintro c ⟨⟩
    decide
  induction h generalizing gap with
  | @finish p =>
    have hblank : isBlank '\n' = true := by decide
    have hcut : cut '\n' line = .piece (.blank '\n') line := by
      rw [cut_eq, Opening.of_isBlank hblank]
    exact ⟨[], p, rfl, .gap hcut rfl (.blank hblank .nil) h'⟩
  | @openComment p body hbody =>
    have hcut : cut '#' body = .piece (.comment body false) [] := comment_open hbody
    refine absurd ⟨gap, body, hgap, hbody, ?_⟩ hrest
    rw [Tiling.ofText_gap hcut rfl, Tiling.ofText_nil]
    simp [Piece.text]
  | gap hcut hpiece htext _ ih =>
    rw [Tiling.ofText_gap hcut hpiece] at hrest
    rw [← text_append_of_cut hcut, List.append_assoc, Position.after_append] at h'
    obtain ⟨ts, q, rfl, hreads⟩ := ih hs (hgap.append htext) hrest h'
    exact ⟨ts, q, rfl,
      .gap (cut_append hmore hcut (closed_of_cut hcut htext)) hpiece htext hreads⟩
  | @lexeme p c rest after piece symbol s hcut hpiece hsymbol _ ih =>
    have hclosed : ∀ body, piece ≠ .comment body false := by
      rintro body rfl
      cases hpiece.isLexeme
    have hcut' := cut_append hmore hcut hclosed
    rw [Tiling.ofText_lexeme hcut hpiece.isLexeme hsymbol] at hrest
    rw [← text_append_of_cut hcut, List.append_assoc, Position.after_append] at h'
    obtain ⟨ts, q, rfl, hreads⟩ := ih hs .nil hrest h'
    exact ⟨⟨symbol, p⟩ :: ts, q, rfl,
      .lexeme hcut' (Piece.meaningful_of_cut hcut' hpiece.isLexeme) hsymbol hreads⟩
  | outOfRange => cases hs
  | stuck => cases hs

/-- The same column a number of lines further down. -/
def Position.below (k : Nat) (p : Position) : Position := ⟨p.line + k, p.column⟩

theorem Position.after_below (k : Nat) (p : Position) (text : List Char) :
    (p.below k).after text = (p.after text).below k := by
  induction text generalizing p with
  | nil => rfl
  | cons c text ih =>
    have hnext : (p.below k).next c = (p.next c).below k := by
      unfold next below
      split
      · rw [Nat.add_right_comm]
      · rfl
    rw [after_cons, after_cons, hnext, ih]

def Token.below (k : Nat) (t : Token) : Token := { t with position := t.position.below k }

/-- A line that is no number stays as it is. -/
def Mark.below (k : Nat) (m : Mark) : Mark :=
  match m.line with
  | .int n => { m with line := .int (n + k) }
  | _ => m

def Error.below (k : Nat) (e : Error) : Error := { e with mark := e.mark.below k }

/-- What is read a number of lines further down. -/
def Stream.below (k : Nat) (s : Stream) : Stream :=
  ⟨s.tokens.map (.below k), s.failure.map (.below k)⟩

/-- Nothing but its positions depends on where a text begins. -/
theorem Reads.from_below {p : Position} {text : List Char} {s : Stream} (h : Reads p text s)
    (k : Nat) : Reads (p.below k) text (s.below k) := by
  induction h with
  | finish => exact .finish
  | @openComment p body hbody =>
    have hopen : Reads (p.below k) _ _ := .openComment hbody
    rwa [Position.after_below] at hopen
  | gap hcut hpiece htext _ ih =>
    rw [← Position.after_below] at ih
    exact .gap hcut hpiece htext ih
  | lexeme hcut hpiece hsymbol _ ih =>
    rw [← Position.after_below] at ih
    exact .lexeme hcut hpiece hsymbol ih
  | outOfRange hcut hpiece hsymbol => exact .outOfRange hcut hpiece hsymbol
  | stuck hstuck hcause => exact .stuck hstuck hcause

/-- Reading is compositional at line breaks. If a text is read to its end and does not end
inside a comment, then reading it with a further text behind a line break yields its tokens
without their end and then what reading the further text yields, the end or the failure
included, as many lines further down as the first text has line feeds, and one more. -/
theorem tokenize_append_line {s : String} (hs : (tokenize s).failure = none)
    (hrest : ¬ EndsInComment s.toList) (t : String) :
    ∃ ts p, tokenize s = .whole ts p ∧
      tokenize (s ++ "\n" ++ t) = ((tokenize t).below (s.toList.count '\n' + 1)).before ts := by
  rw [tokenize_eq_ofText] at hs ⊢
  rw [endsInComment_iff] at hrest
  have hline : Position.start.after (s.toList ++ ['\n']) =
      Position.start.below (s.toList.count '\n' + 1) := by
    have hstart : Position.start = .behind [] := rfl
    rw [hstart, Position.after_behind, List.nil_append, Position.behind_concat]
    simp [Position.next, Position.behind, Position.below, Nat.add_comm]
  have hbehind := (reads_ofText .start t.toList).from_below (s.toList.count '\n' + 1)
  rw [← hline] at hbehind
  obtain ⟨ts, p, heq, hreads⟩ :=
    (reads_ofText .start s.toList).append_line hs .nil hrest hbehind
  refine ⟨ts, p, heq, ?_⟩
  have htext : (s ++ "\n" ++ t).toList = s.toList ++ '\n' :: t.toList := by simp
  rw [tokenize_eq_ofText, tokenize_eq_ofText, htext, ← hreads.eq_ofText]

/-- A string over two lines, a closed comment and a number at the end, and a further text that
fails behind an operator. -/
def brokenText : String := "x = \"a\nb\" #c#\n+= 1"

theorem brokenText_append_line : (tokenize brokenText).failure = none ∧
    ¬ EndsInComment brokenText.toList ∧
    ∃ ts p, tokenize brokenText = .whole ts p ∧
      tokenize (brokenText ++ "\n" ++ "0.5 *\n$") = ((tokenize "0.5 *\n$").below 3).before ts := by
  have hs : (tokenize brokenText).failure = none := rfl
  have hrest : ¬ EndsInComment brokenText.toList := by
    have hnil : (Tiling.ofText [] brokenText.toList).rest = [] := by decide
    rw [endsInComment_iff, hnil]
    exact IsGap.nil.not_inComment
  exact ⟨hs, hrest, tokenize_append_line hs hrest "0.5 *\n$"⟩

end Scriptling
