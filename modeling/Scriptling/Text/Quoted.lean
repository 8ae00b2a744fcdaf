import Scriptling.Text.Printable

/-!
# Quoted text

Messages show a text between quotes, with everything that would not be seen
written as an escape. Apostrophes enclose the text unless it holds an
apostrophe and no double quote.
-/
namespace Scriptling.Quoted

/-- The last `width` hexadecimal digits of a number, in lower case. -/
def hex : Nat → Nat → List Char
  | 0, _ => []
  | width + 1, n => hex width (n / 16) ++ [Nat.digitChar (n % 16)]

/-- How a character stands between two marks of the given kind. -/
def escape (mark c : Char) : List Char :=
  if c = mark ∨ c = '\\' then ['\\', c]
  else if c = '\n' then ['\\', 'n']
  else if c = '\r' then ['\\', 'r']
  else if c = '\t' then ['\\', 't']
  else if isPrintable c then [c]
  else if c.toNat < 0x100 then '\\' :: 'x' :: hex 2 c.toNat
  else if c.toNat < 0x10000 then '\\' :: 'u' :: hex 4 c.toNat
  else '\\' :: 'U' :: hex 8 c.toNat

/-- The mark that encloses a text. -/
def mark (text : List Char) : Char :=
  if '\'' ∈ text ∧ '"' ∉ text then '"' else '\''

def encode (text : List Char) : List Char :=
  mark text :: (text.flatMap (escape (mark text)) ++ [mark text])

end Scriptling.Quoted

namespace Scriptling

/-- The text in quotes. -/
def quote (text : String) : String :=
  String.ofList (Quoted.encode text.toList)

end Scriptling
