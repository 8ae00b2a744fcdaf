import Scriptling.Token.Scan

/-!
# Looking ahead

A stream is read token by token. Looking further than it reaches meets the
error that ended it, and if there is none shows its last token again, or an
end without a position if there is no token. The end is never passed.

`Lookahead` reads a stream step by step and keeps count of the tokens that were
looked at and not yet taken.
-/
namespace Scriptling
namespace Stream

/-- Makes sure that the given number of tokens can be looked at. -/
def extend (n : Nat) (s : Stream) : Except Error Stream :=
  if n = 0 ∨ !(s.tokens.drop (n - 1)).isEmpty then .ok s
  else
    match s.failure with
    | some e => .error e
    | none =>
      let last := s.tokens.getLast?.getD Token.missing
      .ok { s with tokens := s.tokens ++ List.replicate (n - s.tokens.length) last }

/-- The next token. -/
def head (s : Stream) : Token :=
  s.tokens.headD Token.missing

/-- The stream behind its next token. -/
def tail (s : Stream) : Stream :=
  if s.head.symbol.isFinish then s else { s with tokens := s.tokens.drop 1 }

end Stream

/-- An error about the token that is found where another one is expected. -/
def unexpected (expected : String) (found : Token) : Error :=
  if found.symbol.isFinish then .located (.unexpectedEnd expected) found.position
  else .located (.unexpectedToken expected found.symbol.describe) found.position

/-- A stream of which the first `seen` tokens have been looked at. -/
structure Lookahead where
  stream : Stream
  seen : Nat

namespace Lookahead

/-- The look-ahead over a stream of which nothing has been read. -/
def ofStream (s : Stream) : Lookahead := ⟨s, 0⟩

/-- The tokens looked at and not yet taken. -/
def buffer (l : Lookahead) : List Token := l.stream.tokens.take l.seen

/-- A step of reading: what it yields or the error it meets, and the state
after it. -/
abbrev Step (α : Type) := EStateM Error Lookahead α

/-- Looks at the token with the given distance from the next one. An error that
ends the stream is met once. -/
def peek (offset : Nat) : Step Token := fun l =>
  if offset < l.seen then .ok (l.stream.tokens.getD offset Token.missing) l
  else
    match l.stream.extend (offset + 1) with
    | .ok s => .ok (s.tokens.getD offset Token.missing) ⟨s, offset + 1⟩
    | .error e => .error e ⟨{ l.stream with failure := none }, l.stream.tokens.length⟩

/-- Takes the next token, unless it is the end. -/
def advance : Step Token := do
  let t ← peek 0
  unless t.symbol.isFinish do
    modify fun l => ⟨l.stream.tail, l.seen - 1⟩
  return t

/-- Whether the next token has one of the given types. -/
def isNext (types : List String) : Step Bool := do
  let t ← peek 0
  return types.contains t.symbol.type

/-- Takes a token of the given type, which messages call by the given name if
that is not empty. -/
def consume (type name : String) : Step Token := do
  let t ← peek 0
  if t.symbol.type = type then advance
  else throw (unexpected (if name.isEmpty then quote type else name) t)

end Lookahead
end Scriptling
