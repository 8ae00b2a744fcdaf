import Scriptling.Json.Basic
import Scriptling.Number.Decimal
import Scriptling.Text.Digit

/-!
# Reading JSON

The reader takes the grammar of the standard and three names more: `NaN`,
`Infinity` and `-Infinity`. Of two fields with one name the later one counts. A
whole number may not have too many digits, and arrays and objects may not be
nested too deeply. Each reading function returns what is left of the text.

An escape may stand for half a surrogate pair without its other half. No text
holds such a half: the reader puts another character in its place, and it is
told apart whether there is one.
-/
namespace Scriptling
namespace Json

/-- Why a document is not read. -/
inductive ReadError where
  | malformed
  /-- Too many arrays and objects stand one inside the other. -/
  | nestedTooDeep
deriving DecidableEq, Repr

namespace Reader

/-- What may stand between the tokens of a document. -/
def isSpace (c : Char) : Bool :=
  c == ' ' || c == '\t' || c == '\n' || c == '\r'

def skip (text : List Char) : List Char :=
  text.dropWhile isSpace

def hexValue? (c : Char) : Option Nat :=
  if c.isDigit then some (c.toNat - '0'.toNat)
  else if 'a' ≤ c ∧ c ≤ 'f' then some (c.toNat - 'a'.toNat + 10)
  else if 'A' ≤ c ∧ c ≤ 'F' then some (c.toNat - 'A'.toNat + 10)
  else none

/-- The number that four hexadecimal digits stand for. -/
def hex4? (a b c d : Char) : Option Nat := do
  let a ← hexValue? a
  let b ← hexValue? b
  let c ← hexValue? c
  let d ← hexValue? d
  return ((a * 16 + b) * 16 + c) * 16 + d

def isHighSurrogate (n : Nat) : Bool :=
  decide (0xD800 ≤ n ∧ n < 0xDC00)

def isLowSurrogate (n : Nat) : Bool :=
  decide (0xDC00 ≤ n ∧ n < 0xE000)

/-- The character of a surrogate pair. -/
def joinSurrogates (high low : Nat) : Char :=
  Char.ofNat (0x10000 + (high - 0xD800) * 0x400 + (low - 0xDC00))

/-- The character of one unit. Half a pair is no character and is replaced, in messages
too. -/
def unitChar (n : Nat) : Char :=
  if isHighSurrogate n || isLowSurrogate n then Char.ofNat 0xFFFD else Char.ofNat n

/-- The character that a one-letter escape stands for. -/
def shortEscape? (c : Char) : Option Char :=
  if c = '"' ∨ c = '\\' ∨ c = '/' then some c
  else if c = 'n' then some '\n'
  else if c = 'r' then some '\r'
  else if c = 't' then some '\t'
  else if c = 'b' then some (Char.ofNat 8)
  else if c = 'f' then some (Char.ofNat 12)
  else none

/-- Reads a string from behind its opening quote. The characters read so far
are kept in reverse. -/
def string (done : List Char) : List Char → Option (String × List Char)
  | [] => none
  | '"' :: rest => some (String.ofList done.reverse, rest)
  | '\\' :: 'u' :: a :: b :: c :: d :: '\\' :: 'u' :: a' :: b' :: c' :: d' :: rest =>
    match hex4? a b c d, hex4? a' b' c' d' with
    | some high, some low =>
      if isHighSurrogate high && isLowSurrogate low then
        string (joinSurrogates high low :: done) rest
      else string (unitChar high :: done) ('\\' :: 'u' :: a' :: b' :: c' :: d' :: rest)
    | _, _ => none
  | '\\' :: 'u' :: a :: b :: c :: d :: rest =>
    match hex4? a b c d with
    | some n => string (unitChar n :: done) rest
    | none => none
  | '\\' :: e :: rest =>
    match shortEscape? e with
    | some c => string (c :: done) rest
    | none => none
  | c :: rest => if c.toNat < 32 ∨ c = '\\' then none else string (c :: done) rest

/-- Splits the digits off the front of a text. -/
def digits (text : List Char) : List Char × List Char :=
  (text.takeWhile Char.isDigit, text.dropWhile Char.isDigit)

/-- The fraction at the front of a text, without its point. -/
def fraction (text : List Char) : List Char × List Char :=
  match text with
  | '.' :: rest => if (digits rest).1.isEmpty then ([], text) else digits rest
  | _ => ([], text)

/-- The exponent at the front of a text, if there is one. -/
def exponent? (text : List Char) : Option (Int × List Char) :=
  match text with
  | c :: rest =>
    if c = 'e' ∨ c = 'E' then
      let negative := rest.head? == some '-'
      let unsigned := if negative || rest.head? == some '+' then rest.drop 1 else rest
      let (ds, after) := digits unsigned
      if ds.isEmpty then none
      else
        let n : Int := Nat.ofDigitChars 10 ds 0
        some (if negative then -n else n, after)
    else none
  | [] => none

/-- Reads a number from behind its sign. -/
def number (negative : Bool) (text : List Char) : Option (Json × List Char) :=
  let (whole, afterWhole) := digits text
  if whole.isEmpty || (whole.head? == some '0' && whole.length != 1) then none
  else
    let (frac, afterFraction) := fraction afterWhole
    match exponent? afterFraction with
    | some (e, rest) => some (.float (Decimal.ofParts negative whole frac e).toFloat, rest)
    | none =>
      if frac.isEmpty then
        if maxDigits < whole.length then none
        else
          let n : Int := Nat.ofDigitChars 10 whole 0
          some (.int (if negative then -n else n), afterFraction)
      else some (.float (Decimal.ofParts negative whole frac 0).toFloat, afterFraction)

/-- Takes a word off the front of a text. -/
def word? (word : List Char) (text : List Char) : Option (List Char) :=
  if word.isPrefixOf text then some (text.drop word.length) else none

/-- Reads a value that is no container. -/
def scalar (text : List Char) : Option (Json × List Char) :=
  match text with
  | '"' :: rest => (string [] rest).map fun (s, rest) => (.str s, rest)
  | '-' :: 'I' :: rest =>
    (word? "nfinity".toList rest).map (.float (Binary.infinity true), ·)
  | '-' :: rest => number true rest
  | 'n' :: rest => (word? "ull".toList rest).map (.null, ·)
  | 't' :: rest => (word? "rue".toList rest).map (.bool true, ·)
  | 'f' :: rest => (word? "alse".toList rest).map (.bool false, ·)
  | 'N' :: rest => (word? "aN".toList rest).map (.float Binary.notANumber, ·)
  | 'I' :: rest => (word? "nfinity".toList rest).map (.float (Binary.infinity false), ·)
  | _ => number false text

mutual

/-- Reads a value with arrays and objects of no more than `room` levels. The second
argument bounds the number of steps. -/
def value (room : Nat) : Nat → List Char → Except ReadError (Json × List Char)
  | 0, _ => .error .malformed
  | fuel + 1, '[' :: rest =>
    if room = 0 then .error .nestedTooDeep
    else
      match skip rest with
      | ']' :: after => .ok (.arr [], after)
      | _ => items (room - 1) fuel [] rest
  | fuel + 1, '{' :: rest =>
    if room = 0 then .error .nestedTooDeep
    else
      match skip rest with
      | '}' :: after => .ok (.obj [], after)
      | _ => fields (room - 1) fuel [] rest
  | _ + 1, text =>
    match scalar text with
    | some r => .ok r
    | none => .error .malformed

/-- Reads the items of an array; those read so far are kept in reverse. -/
def items (room : Nat) : Nat → List Json → List Char → Except ReadError (Json × List Char)
  | 0, _, _ => .error .malformed
  | fuel + 1, done, text =>
    match value room fuel (skip text) with
    | .error e => .error e
    | .ok (j, rest) =>
      match skip rest with
      | ',' :: after => items room fuel (j :: done) after
      | ']' :: after => .ok (.arr (j :: done).reverse, after)
      | _ => .error .malformed

/-- Reads the fields of an object. -/
def fields (room : Nat) :
    Nat → List (String × Json) → List Char → Except ReadError (Json × List Char)
  | 0, _, _ => .error .malformed
  | fuel + 1, done, text =>
    match skip text with
    | '"' :: text =>
      match string [] text with
      | none => .error .malformed
      | some (name, rest) =>
        match skip rest with
        | ':' :: rest =>
          match value room fuel (skip rest) with
          | .error e => .error e
          | .ok (j, rest) =>
            match skip rest with
            | ',' :: after => fields room fuel (setField name j done) after
            | '}' :: after => .ok (.obj (setField name j done), after)
            | _ => .error .malformed
        | _ => .error .malformed
    | _ => .error .malformed

end

/-- Whether an escape stands for half a surrogate pair and the escape of its other
half is not beside it. The first argument tells whether a first half has just been
read. Outside of strings a document has no backslash. -/
def hasLone (high : Bool) : List Char → Bool
  | [] => high
  | '\\' :: 'u' :: a :: b :: c :: d :: rest =>
    let unit := (hex4? a b c d).getD 0
    if isLowSurrogate unit then !high || hasLone false rest
    else high || hasLone (isHighSurrogate unit) rest
  | '\\' :: _ :: rest => high || hasLone false rest
  | _ :: rest => high || hasLone false rest

end Reader

/-- Reads a document, which is one value with nothing behind it. The first argument
bounds how deeply arrays and objects are nested. -/
def read (room : Nat) (text : String) : Except ReadError Json :=
  let chars := text.toList
  match Reader.value room (2 * chars.length + 1) (Reader.skip chars) with
  | .ok (j, rest) => if (Reader.skip rest).isEmpty then .ok j else .error .malformed
  | .error e => .error e

/-- Whether a string of a document has half a surrogate pair in it. -/
def hasLoneSurrogate (text : String) : Bool :=
  Reader.hasLone false text.toList

end Json
end Scriptling
