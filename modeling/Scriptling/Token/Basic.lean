import Scriptling.Number.Format
import Scriptling.Text.Position
import Scriptling.Text.Quoted

/-!
# Tokens

A token is a symbol at a position. Keywords and operators stand for themselves;
numbers, strings, names and truth values carry what they mean. The text of a
token is one that is read as the same token again.
-/
namespace Scriptling

inductive Symbol where
  | number (x : Float)
  | string (s : String)
  | ident (name : String)
  | bool (b : Bool)
  /-- A keyword, an operator or a bracket. -/
  | mark (text : String)
  /-- The end of the text. -/
  | finish

/-- The words that are no names. -/
def keywords : List String :=
  ["if", "else", "while", "print", "input", "break"]

namespace Symbol

/-- The name of a symbol's type; a keyword or operator is its own type. -/
def type : Symbol → String
  | .number _ => "NUMBER"
  | .string _ => "STRING"
  | .ident _ => "IDENT"
  | .bool _ => "BOOL"
  | .mark text => text
  | .finish => "EOF"

/-- A text that is read as the symbol. -/
def render : Symbol → String
  | .number x => formatNumber x
  | .string s => "\"" ++ s ++ "\""
  | .ident name => name
  | .bool true => "true"
  | .bool false => "false"
  | .mark text => text
  | .finish => ""

/-- The symbol as messages name it. -/
def describe (s : Symbol) : String :=
  match s with
  | .finish => "end of input"
  | .mark text => quote text
  | _ => s.type ++ " " ++ s.render

def isKeyword (s : Symbol) : Bool :=
  keywords.contains s.type

def isFinish : Symbol → Bool
  | .finish => true
  | _ => false

/-- Whether a symbol is the given keyword or operator. -/
def isMark (text : String) : Symbol → Bool
  | .mark t => t == text
  | _ => false

/-- Equality of symbols; numbers are compared as numbers. -/
def same : Symbol → Symbol → Bool
  | .number a, .number b => a == b
  | .string a, .string b => a == b
  | .ident a, .ident b => a == b
  | .bool a, .bool b => a == b
  | .mark a, .mark b => a == b
  | .finish, .finish => true
  | _, _ => false

/-- The symbol that a word stands for. -/
def ofWord (word : String) : Symbol :=
  if keywords.contains word then .mark word
  else if word = "true" then .bool true
  else if word = "false" then .bool false
  else .ident word

end Symbol

structure Token where
  symbol : Symbol
  position : Position

namespace Token

/-- The end of a sequence of tokens that does not say where it ends. -/
def missing : Token := ⟨.finish, ⟨0, 0⟩⟩

instance : Inhabited Token := ⟨missing⟩

/-- The texts of tokens with one space between them. -/
def renderAll (tokens : List Token) : String :=
  " ".intercalate ((tokens.filter fun t => !t.symbol.isFinish).map (·.symbol.render))

/-- Whether two sequences have the same symbols; positions do not matter. -/
def sameSymbols : List Token → List Token → Bool
  | [], [] => true
  | a :: as, b :: bs => a.symbol.same b.symbol && sameSymbols as bs
  | _, _ => false

end Token
end Scriptling
