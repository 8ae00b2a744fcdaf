import Scriptling.Text.CharRange

/-!
# Blank characters

Blanks separate tokens and mean nothing else. Besides the space and the five
layout controls, ASCII has four separator controls in the class.
-/
namespace Scriptling

/-- The blanks outside ASCII. -/
def blankRanges : List CharRange :=
  [⟨0x85, 0x85⟩, ⟨0xa0, 0xa0⟩, ⟨0x1680, 0x1680⟩, ⟨0x2000, 0x200a⟩, ⟨0x2028, 0x2029⟩,
   ⟨0x202f, 0x202f⟩, ⟨0x205f, 0x205f⟩, ⟨0x3000, 0x3000⟩]

/-- Tab, line feed, vertical tab, form feed, carriage return, the four
separators from U+001C to U+001F, and the space. -/
def isAsciiBlank (c : Char) : Bool :=
  decide (9 ≤ c.toNat ∧ c.toNat ≤ 13) || decide (28 ≤ c.toNat ∧ c.toNat ≤ 32)

def isBlank (c : Char) : Bool :=
  if isAscii c then isAsciiBlank c else inRanges blankRanges c

end Scriptling
