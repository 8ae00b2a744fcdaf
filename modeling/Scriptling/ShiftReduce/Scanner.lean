import Scriptling.ShiftReduce.Terminal

/-!
# Terminals as patterns

The grammar describes what a text is made of by patterns. They are tried in a
fixed order where the last match ended, and the first that matches is taken,
not the one with the longest match. A terminal that has only one text comes
after the others and after the longer ones of its kind; one that could be a
name is no pattern of its own but told apart from the names later.
-/
namespace Scriptling.ShiftReduce

/-- A regular expression over classes of characters. -/
inductive Pattern where
  | empty
  | one (p : Char → Bool)
  | many (p : Char → Bool)
  | optional (r : Pattern)
  | seq (r s : Pattern)

/-- A text that is split behind a match. -/
structure Match where
  text : List Char
  rest : List Char

namespace Match

/-- A match with more text before it. -/
def after (text : List Char) (m : Match) : Match :=
  ⟨text ++ m.text, m.rest⟩

end Match

namespace Pattern

/-- The given text. -/
def literal : List Char → Pattern
  | [] => .empty
  | c :: rest => .seq (.one (· = c)) (literal rest)

/-- Takes as many characters of a class as possible, and fewer if `k` does not
match behind them. -/
def backOff (p : Char → Bool) (k : List Char → Option Match) : List Char → Option Match
  | [] => k []
  | c :: rest =>
    if p c then ((backOff p k rest).map (.after [c])).or (k (c :: rest)) else k (c :: rest)

/-- The first match at the front of a text behind which `k` matches. Longer
matches are tried before shorter ones. -/
def followedBy : Pattern → (List Char → Option Match) → List Char → Option Match
  | .empty, k, text => k text
  | .one _, _, [] => none
  | .one p, k, c :: rest => if p c then (k rest).map (.after [c]) else none
  | .many p, k, text => backOff p k text
  | .optional r, k, text => (r.followedBy k text).or (k text)
  | .seq r s, k, text => r.followedBy (s.followedBy k) text

/-- The first match at the front of a text. -/
def match? (r : Pattern) (text : List Char) : Option Match :=
  r.followedBy (fun rest => some ⟨[], rest⟩) text

/-- Whether the first match is the whole text. -/
def isWhole (r : Pattern) (text : List Char) : Bool :=
  (r.match? text).any (·.rest.isEmpty)

def digits : Pattern :=
  .seq (.one (·.isDigit)) (.many isNumeral)

def number : Pattern :=
  .seq digits (.optional (.seq (.one (· = '.')) digits))

def name : Pattern :=
  .seq (.one isWordStart) (.many isWordChar)

def comment : Pattern :=
  .seq (.one (· = '#')) (.seq (.many (· ≠ '#')) (.optional (.one (· = '#'))))

def string : Pattern :=
  .seq (.one (· = '"')) (.seq (.many (· ≠ '"')) (.one (· = '"')))

def blanks : Pattern :=
  .seq (.one isBlank) (.many isBlank)

end Pattern

/-- A pattern and what becomes of a text that matches it; nothing if the text
means nothing. -/
structure LexRule where
  pattern : Pattern
  piece? : List Char → Option Piece

namespace LexRule

/-- What a rule makes of the front of a text. -/
def take? (r : LexRule) (text : List Char) : Option (Option Piece × Match) :=
  (r.pattern.match? text).map fun m => (r.piece? m.text, m)

/-- A string without its quotes. -/
def unquote (text : List Char) : List Char :=
  (text.drop 1).dropLast

/-- The terminals with more than one text, and what separates terminals. -/
def general : List LexRule :=
  [⟨.number, fun text => some (.number text)⟩, ⟨.name, fun text => some (.word text)⟩,
    ⟨.comment, fun _ => none⟩, ⟨.string, fun text => some (.string (unquote text))⟩,
    ⟨.blanks, fun _ => none⟩]

/-- The texts of the other terminals, without those that could be names. -/
def texts : List (List Char) :=
  ((Terminal.all.filterMap Terminal.text?).map String.toList).filter (!Pattern.name.isWhole ·)

def literal (text : List Char) : LexRule :=
  ⟨.literal text, fun text => some (.operator text)⟩

/-- The rules in the order in which they are tried. -/
def all : List LexRule :=
  general ++ (texts.filter (·.length = 2)).map literal ++ (texts.filter (·.length = 1)).map literal

end LexRule

/-- Takes up to the given number of matches off a text that begins at the given
position. -/
def scanUpTo : Nat → Position → List Char → Scan
  | 0, p, text => ⟨[], Scan.failureOf text, p⟩
  | _ + 1, p, [] => ⟨[], none, p⟩
  | n + 1, p, c :: rest =>
    match LexRule.all.findSome? (·.take? (c :: rest)) with
    | none => ⟨[], Scan.failureOf (c :: rest), p⟩
    | some (piece, m) =>
      let more := scanUpTo n (p.after m.text) m.rest
      match piece with
      | some piece => { more with lexemes := ⟨piece, p⟩ :: more.lexemes }
      | none => more

/-- Scans a text; it has no more matches than characters. -/
def scan (text : List Char) : Scan :=
  scanUpTo text.length .start text

end Scriptling.ShiftReduce
