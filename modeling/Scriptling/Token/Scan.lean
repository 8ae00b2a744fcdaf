import Scriptling.Error
import Scriptling.Token.Basic
import Scriptling.Token.Piece

/-!
# Reading tokens

A text is cut into pieces, the pieces that mean something are given their
positions, and each becomes a token. Reading stops at the first piece that is
no token and keeps the tokens before it.
-/
namespace Scriptling

/-- A piece that means something, and where it begins. -/
structure Lexeme where
  piece : Piece
  position : Position
deriving DecidableEq, Repr

namespace Lexeme

/-- The lexeme's text. -/
def text (l : Lexeme) : String :=
  String.ofList l.piece.text

/-- The pieces of a text that begins at the given position, without blanks and
comments. -/
def place (p : Position) : List Piece → List Lexeme
  | [] => []
  | piece :: rest =>
    let more := place (p.after piece.text) rest
    if piece.isLexeme then ⟨piece, p⟩ :: more else more

/-- The number that a literal stands for, unless it is too large for a double. -/
def number? (text : List Char) : Option Float :=
  let x := (Decimal.ofLiteral text).toFloat
  if Binary.isFinite x then some x else none

/-- The symbol of a lexeme; a number out of range has none. -/
def symbol? (l : Lexeme) : Option Symbol :=
  match l.piece with
  | .word text => some (.ofWord (String.ofList text))
  | .number text => (number? text).map .number
  | .string body => some (.string (String.ofList body))
  | .operator text => some (.mark (String.ofList text))
  | .blank _ | .comment .. => none

end Lexeme

/-- All lexemes of a text, what is wrong where they end, and where that is. -/
structure Scan where
  lexemes : List Lexeme
  failure : Option Cause
  stop : Position

namespace Scan

/-- Why no piece can be taken off a text that is not empty. -/
def failureOf : List Char → Option Cause
  | [] => none
  | c :: _ => some (if c = '"' then .unterminatedString else .unexpectedCharacter c)

/-- An open comment ends one column behind the text. -/
def endColumns (pieces : List Piece) : Nat :=
  match pieces.getLast? with
  | some (.comment _ false) => 1
  | _ => 0

def ofText (text : List Char) : Scan :=
  let cutting := cutAll text
  let stop := Position.start.after (cutting.pieces.flatMap Piece.text)
  ⟨Lexeme.place .start cutting.pieces, failureOf cutting.rest,
    { stop with column := stop.column + endColumns cutting.pieces }⟩

/-- The error that ends the scan, if there is one. -/
def error? (s : Scan) : Option Error :=
  s.failure.map (Error.located · s.stop)

end Scan

/-- Tokens to be read, and the error that is met when they run out. -/
structure Stream where
  tokens : List Token
  failure : Option Error

namespace Stream

/-- The tokens of lexemes up to the first number out of range, followed by the
given end. -/
def ofLexemes (finish : Stream) : List Lexeme → Stream
  | [] => finish
  | l :: rest =>
    match l.symbol? with
    | some s =>
      let more := ofLexemes finish rest
      { more with tokens := ⟨s, l.position⟩ :: more.tokens }
    | none => ⟨[], some (.located .numberOutOfRange l.position)⟩

end Stream

/-- Reads the tokens of a text. The last one marks the end of the text, unless
reading fails before. -/
def tokenize (text : String) : Stream :=
  let scan := Scan.ofText text.toList
  let finish : Stream :=
    match scan.error? with
    | some e => ⟨[], some e⟩
    | none => ⟨[⟨.finish, scan.stop⟩], none⟩
  .ofLexemes finish scan.lexemes

end Scriptling
