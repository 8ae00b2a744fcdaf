import Scriptling.Text.Blank
import Scriptling.Text.Word

/-!
# Cutting a text into pieces

A program text is a sequence of pieces: blanks and comments, which mean
nothing, and words, numbers, strings and operators. `cut` takes the longest
piece off the front of a text, and `cutAll` repeats this. The pieces put
together again are the text, up to the place where no piece can be taken.
-/
namespace Scriptling

inductive Piece where
  | blank (c : Char)
  /-- A comment without its marks. One that the end of the text ends is open. -/
  | comment (body : List Char) (closed : Bool)
  | word (text : List Char)
  | number (text : List Char)
  /-- A string without its quotes. -/
  | string (body : List Char)
  | operator (text : List Char)
deriving DecidableEq, Repr

namespace Piece

/-- The stretch of text that a piece was cut from. -/
def text : Piece → List Char
  | .blank c => [c]
  | .comment body closed => '#' :: (body ++ if closed then ['#'] else [])
  | .word text | .number text | .operator text => text
  | .string body => '"' :: (body ++ ['"'])

/-- Whether a piece means something. -/
def isLexeme : Piece → Bool
  | .blank _ | .comment .. => false
  | _ => true

end Piece

/-- The operators of two characters. -/
def pairs : List (List Char) :=
  ["==", "!=", "<=", ">=", "+=", "-=", "*=", "/=", "%=", "&&", "||"].map String.toList

/-- The operators of one character. -/
def singles : List Char :=
  "+-*/%^=<>!()\x7b\x7d;".toList

/-- What a number goes on with: digits, and underscores between them. -/
def isNumeral (c : Char) : Bool :=
  c.isDigit || c == '_'

/-- The outcome of taking a piece off a text. -/
inductive Cut where
  | piece (p : Piece) (rest : List Char)
  /-- A quote that no later quote closes. -/
  | unterminated
  /-- A character that begins no piece. -/
  | unexpected
deriving DecidableEq, Repr

namespace Cut

def comment (rest : List Char) : Cut :=
  let body := rest.takeWhile (· ≠ '#')
  match rest.dropWhile (· ≠ '#') with
  | [] => .piece (.comment body false) []
  | _ :: after => .piece (.comment body true) after

def string (rest : List Char) : Cut :=
  match rest.dropWhile (· ≠ '"') with
  | [] => .unterminated
  | _ :: after => .piece (.string (rest.takeWhile (· ≠ '"'))) after

/-- A point belongs to a number only if a digit follows it. -/
def number (c : Char) (rest : List Char) : Cut :=
  let whole := c :: rest.takeWhile isNumeral
  match rest.dropWhile isNumeral with
  | '.' :: d :: after =>
    if d.isDigit then
      .piece (.number (whole ++ '.' :: d :: after.takeWhile isNumeral)) (after.dropWhile isNumeral)
    else .piece (.number whole) ('.' :: d :: after)
  | after => .piece (.number whole) after

def single (c : Char) (rest : List Char) : Cut :=
  if c ∈ singles then .piece (.operator [c]) rest else .unexpected

/-- The longer operator is preferred. -/
def operator (c : Char) (rest : List Char) : Cut :=
  match rest with
  | d :: after => if [c, d] ∈ pairs then .piece (.operator [c, d]) after else single c rest
  | [] => single c rest

end Cut

/-- Takes the longest piece off a text that begins with the given character. -/
def cut (c : Char) (rest : List Char) : Cut :=
  if isBlank c then .piece (.blank c) rest
  else if c = '#' then Cut.comment rest
  else if isWordStart c then
    .piece (.word (c :: rest.takeWhile isWordChar)) (rest.dropWhile isWordChar)
  else if c.isDigit then Cut.number c rest
  else if c = '"' then Cut.string rest
  else Cut.operator c rest

/-- The pieces of a text, and what is left where no piece can be taken. -/
structure Pieces where
  pieces : List Piece
  rest : List Char
deriving DecidableEq, Repr

/-- Takes up to the given number of pieces off a text. -/
def cutUpTo : Nat → List Char → Pieces
  | 0, text => ⟨[], text⟩
  | _ + 1, [] => ⟨[], []⟩
  | n + 1, c :: rest =>
    match cut c rest with
    | .piece p after =>
      let more := cutUpTo n after
      ⟨p :: more.pieces, more.rest⟩
    | _ => ⟨[], c :: rest⟩

/-- Takes all pieces off a text; it has no more of them than characters. -/
def cutAll (text : List Char) : Pieces :=
  cutUpTo text.length text

theorem takeWhile_append_dropWhile_cons {p : Char → Bool} {rest after : List Char} {d : Char}
    (h : rest.dropWhile p = d :: after) : rest.takeWhile p ++ d :: after = rest := by
  rw [← h, List.takeWhile_append_dropWhile]

/-- A piece and what is left make up the text that it was cut from. -/
theorem text_append_of_cut {c : Char} {rest after : List Char} {p : Piece}
    (h : cut c rest = .piece p after) : p.text ++ after = c :: rest := by
  unfold cut at h
  split at h
  · cases h
    rfl
  split at h
  · rename_i hc
    subst hc
    unfold Cut.comment at h
    split at h
    · rename_i hd
      cases h
      simp only [Piece.text, Bool.false_eq_true, if_false, List.append_nil, List.cons.injEq,
        true_and]
      have := List.takeWhile_append_dropWhile (p := fun x => decide (x ≠ '#')) (l := rest)
      rwa [hd, List.append_nil] at this
    · rename_i d after' hd
      cases h
      have hh : d = '#' := by
        have := List.head?_dropWhile_not (p := fun x => decide (x ≠ '#')) rest
        rw [hd] at this
        simpa using this
      subst hh
      simpa [Piece.text] using takeWhile_append_dropWhile_cons hd
  split at h
  · cases h
    simp [Piece.text]
  split at h
  · unfold Cut.number at h
    split at h
    · rename_i d after' hd
      split at h
      · cases h
        simp only [Piece.text, List.cons_append, List.append_assoc]
        rw [List.takeWhile_append_dropWhile, takeWhile_append_dropWhile_cons hd]
      · cases h
        simpa [Piece.text] using takeWhile_append_dropWhile_cons hd
    · cases h
      simp [Piece.text]
  split at h
  · rename_i hc
    subst hc
    unfold Cut.string at h
    split at h
    · cases h
    · rename_i d after' hd
      cases h
      have hh : d = '"' := by
        have := List.head?_dropWhile_not (p := fun x => decide (x ≠ '"')) rest
        rw [hd] at this
        simpa using this
      subst hh
      simpa [Piece.text] using takeWhile_append_dropWhile_cons hd
  · have single : ∀ {rest : List Char}, Cut.single c rest = .piece p after →
        p.text ++ after = c :: rest := by
      intro rest h
      unfold Cut.single at h
      split at h
      · cases h
        rfl
      · cases h
    unfold Cut.operator at h
    split at h
    · split at h
      · cases h
        rfl
      · exact single h
    · exact single h

/-- No piece is empty. -/
theorem text_ne_nil_of_cut {c : Char} {rest after : List Char} {p : Piece}
    (h : cut c rest = .piece p after) : p.text ≠ [] := by
  unfold cut Cut.comment Cut.number Cut.string Cut.operator Cut.single at h
  repeat' split at h
  all_goals
    first
    | cases h
      simp [Piece.text]
    | cases h

theorem length_le_of_cut {c : Char} {rest after : List Char} {p : Piece}
    (h : cut c rest = .piece p after) : after.length ≤ rest.length := by
  have hl := congrArg List.length (text_append_of_cut h)
  have hp := List.length_pos_iff.2 (text_ne_nil_of_cut h)
  simp only [List.length_append, List.length_cons] at hl
  omega

/-- More steps than characters change nothing. -/
theorem cutUpTo_eq_cutAll {n : Nat} {text : List Char} (h : text.length ≤ n) :
    cutUpTo n text = cutAll text := by
  have key : ∀ n m (text : List Char), text.length ≤ n → text.length ≤ m →
      cutUpTo n text = cutUpTo m text := by
    intro n
    induction n with
    | zero =>
      intro m text hn _
      have : text = [] := List.length_eq_zero_iff.1 (by omega)
      subst this
      cases m <;> rfl
    | succ n ih =>
      intro m text hn hm
      cases text with
      | nil => cases m <;> rfl
      | cons c rest =>
        cases m with
        | zero => simp at hm
        | succ m =>
          simp only [cutUpTo]
          cases hc : cut c rest with
          | piece p after =>
            have := length_le_of_cut hc
            simp only [List.length_cons] at hn hm
            simp only [ih m after (by omega) (by omega)]
          | unterminated => rfl
          | unexpected => rfl
  exact key n text.length text h (Nat.le_refl _)

@[simp] theorem cutAll_nil : cutAll [] = ⟨[], []⟩ := rfl

theorem cutAll_cons (c : Char) (rest : List Char) :
    cutAll (c :: rest) =
      match cut c rest with
      | .piece p after => ⟨p :: (cutAll after).pieces, (cutAll after).rest⟩
      | _ => ⟨[], c :: rest⟩ := by
  rw [cutAll, List.length_cons, cutUpTo]
  cases h : cut c rest with
  | piece p after => simp only [cutUpTo_eq_cutAll (length_le_of_cut h)]
  | unterminated => rfl
  | unexpected => rfl

/-- Nothing of the text is lost, repeated or split. -/
theorem text_append_cutAll (text : List Char) :
    (cutAll text).pieces.flatMap Piece.text ++ (cutAll text).rest = text := by
  have key : ∀ n (text : List Char),
      (cutUpTo n text).pieces.flatMap Piece.text ++ (cutUpTo n text).rest = text := by
    intro n
    induction n with
    | zero =>
      intro text
      simp [cutUpTo]
    | succ n ih =>
      intro text
      cases text with
      | nil => simp [cutUpTo]
      | cons c rest =>
        simp only [cutUpTo]
        cases h : cut c rest with
        | piece p after => simp [ih after, text_append_of_cut h]
        | unterminated => simp
        | unexpected => simp
  exact key text.length text

end Scriptling
