import Scriptling.Token.Scan

/-!
# Terminals

The kinds of lexemes that the grammar tells apart, and the sets of them that
messages give as expected.
-/
namespace Scriptling.ShiftReduce

inductive Terminal where
  | finish
  | and | bang | leave | caret | otherwise | eq | equal | falsity | ge | gt | ident | branch
  | input | leftBrace | le | leftParen | lt | minus | minusEq | ne | number | or | percent
  | percentEq | plus | plusEq | print | rightBrace | rightParen | semicolon | slash | slashEq
  | star | starEq | string | truth | loop
deriving DecidableEq, Repr

namespace Terminal

/-- The name of a terminal in messages. -/
def name : Terminal → String
  | .finish => "$END"
  | .and => "AND"
  | .bang => "BANG"
  | .leave => "BREAK"
  | .caret => "CARET"
  | .otherwise => "ELSE"
  | .eq => "EQ"
  | .equal => "EQUAL"
  | .falsity => "FALSE"
  | .ge => "GE"
  | .gt => "GT"
  | .ident => "IDENT"
  | .branch => "IF"
  | .input => "INPUT"
  | .leftBrace => "LBRACE"
  | .le => "LE"
  | .leftParen => "LPAR"
  | .lt => "LT"
  | .minus => "MINUS"
  | .minusEq => "MINUS_EQ"
  | .ne => "NE"
  | .number => "NUMBER"
  | .or => "OR"
  | .percent => "PERCENT"
  | .percentEq => "PERCENT_EQ"
  | .plus => "PLUS"
  | .plusEq => "PLUS_EQ"
  | .print => "PRINT"
  | .rightBrace => "RBRACE"
  | .rightParen => "RPAR"
  | .semicolon => "SEMICOLON"
  | .slash => "SLASH"
  | .slashEq => "SLASH_EQ"
  | .star => "STAR"
  | .starEq => "STAR_EQ"
  | .string => "STRING"
  | .truth => "TRUE"
  | .loop => "WHILE"

/-- All terminals, ordered by name. -/
def all : List Terminal :=
  [.finish, .and, .bang, .leave, .caret, .otherwise, .eq, .equal, .falsity, .ge, .gt, .ident,
    .branch, .input, .leftBrace, .le, .leftParen, .lt, .minus, .minusEq, .ne, .number, .or,
    .percent, .percentEq, .plus, .plusEq, .print, .rightBrace, .rightParen, .semicolon, .slash,
    .slashEq, .star, .starEq, .string, .truth, .loop]

theorem mem_all (t : Terminal) : t ∈ all := by
  cases t <;> decide

/-- The text of a terminal that has only one. -/
def text? : Terminal → Option String
  | .finish | .ident | .number | .string => none
  | .and => some "&&"
  | .bang => some "!"
  | .leave => some "break"
  | .caret => some "^"
  | .otherwise => some "else"
  | .eq => some "=="
  | .equal => some "="
  | .falsity => some "false"
  | .ge => some ">="
  | .gt => some ">"
  | .branch => some "if"
  | .input => some "input"
  | .leftBrace => some "\x7b"
  | .le => some "<="
  | .leftParen => some "("
  | .lt => some "<"
  | .minus => some "-"
  | .minusEq => some "-="
  | .ne => some "!="
  | .or => some "||"
  | .percent => some "%"
  | .percentEq => some "%="
  | .plus => some "+"
  | .plusEq => some "+="
  | .print => some "print"
  | .rightBrace => some "\x7d"
  | .rightParen => some ")"
  | .semicolon => some ";"
  | .slash => some "/"
  | .slashEq => some "/="
  | .star => some "*"
  | .starEq => some "*="
  | .truth => some "true"
  | .loop => some "while"

/-- The terminal with the given text. -/
def ofText? (text : String) : Option Terminal :=
  all.find? (·.text? = some text)

/-- The terminal that a lexeme is. A word that is no other terminal is a name. -/
def ofLexeme (l : Lexeme) : Terminal :=
  match l.piece with
  | .number _ => .number
  | .string _ => .string
  | _ => (ofText? l.text).getD .ident

/-- How strongly a binary operator binds that groups to the left. -/
def strength? : Terminal → Option Nat
  | .or => some 1
  | .and => some 2
  | .eq | .ne | .lt | .le | .gt | .ge => some 3
  | .plus | .minus => some 4
  | .star | .slash | .percent => some 5
  | _ => none

/-- The operator of an assignment that combines the variable with a value. -/
def updateOperator? : Terminal → Option String
  | .plusEq => some "+"
  | .minusEq => some "-"
  | .starEq => some "*"
  | .slashEq => some "/"
  | .percentEq => some "%"
  | _ => none

/-- The sign that a prefix operator is. -/
def sign? : Terminal → Option String
  | .minus => some "-"
  | .bang => some "!"
  | _ => none

end Terminal

/-- A set of terminals that may stand next. -/
abbrev Expected := List Terminal

namespace Expected

/-- What an expression begins with. -/
def operand : Expected :=
  [.bang, .falsity, .ident, .leftParen, .minus, .number, .string, .truth]

/-- What a statement begins with, and the semicolon. -/
def core : Expected :=
  operand ++ [.leave, .branch, .input, .leftBrace, .print, .semicolon, .loop]

/-- What may follow a whole statement somewhere. -/
def statement : Expected :=
  core ++ [.finish, .rightBrace]

/-- What may follow a block somewhere. -/
def blockEnd : Expected :=
  statement ++ [.otherwise]

def binaryOperators : Expected :=
  [.and, .caret, .eq, .ge, .gt, .le, .lt, .minus, .ne, .or, .percent, .plus, .slash, .star]

def updateOperators : Expected :=
  [.plusEq, .minusEq, .starEq, .slashEq, .percentEq]

/-- What may follow an operand somewhere. -/
def follow : Expected :=
  statement ++ [.rightParen] ++ binaryOperators

/-- What may follow a name inside an expression somewhere. -/
def followName : Expected :=
  follow ++ updateOperators

/-- What may follow a name that begins a statement. -/
def followFirstName : Expected :=
  statement ++ binaryOperators ++ updateOperators ++ [.equal]

/-- What may stand between the statements of a block, or of the program if no
block is open. -/
def level (inBlock : Bool) : Expected :=
  core ++ [if inBlock then .rightBrace else .finish]

/-- The names of the terminals in their order. -/
def text (e : Expected) : String :=
  ", ".intercalate ((Terminal.all.filter (e.contains ·)).map Terminal.name)

end Expected
end Scriptling.ShiftReduce
