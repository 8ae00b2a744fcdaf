/-!
# Lines of text

Input is read line by line. A line runs up to and including its line feed; the
last one may lack it.
-/
namespace Scriptling.Lines

/-- Cuts a text behind each line feed. -/
def cut : List Char → List (List Char)
  | [] => []
  | c :: rest =>
    if c = '\n' then [c] :: cut rest
    else
      match cut rest with
      | [] => [[c]]
      | line :: lines => (c :: line) :: lines

/-- A line without its end, which is a line feed or a carriage return before
one. A carriage return alone ends no line. -/
def bare (line : String) : String :=
  match line.toList.reverse with
  | '\n' :: '\r' :: text => String.ofList text.reverse
  | '\n' :: text => String.ofList text.reverse
  | _ => line

/-- The lines of a text without their ends. -/
def ofText (text : String) : List String :=
  (cut text.toList).map fun line => bare (String.ofList line)

/-- Writes every line end of a text as a line feed: a carriage return counts as
one, alone or before a line feed. -/
def unify : List Char → List Char
  | [] => []
  | '\r' :: '\n' :: rest => '\n' :: unify rest
  | '\r' :: rest => '\n' :: unify rest
  | c :: rest => c :: unify rest

/-- The text of a file or of a console as programs see it. -/
def normalize (text : String) : String :=
  String.ofList (unify text.toList)

end Scriptling.Lines

namespace Scriptling

/-- Lines waiting to be read and lines that have been written. -/
structure Buffer where
  pending : List String
  output : Array String

namespace Buffer

/-- A buffer with the given lines to read, whose ends are dropped. -/
def ofLines (lines : List String) : Buffer :=
  ⟨lines.map Lines.bare, #[]⟩

/-- A buffer with the lines of a text to read. -/
def ofText (text : String) : Buffer :=
  ⟨Lines.ofText text, #[]⟩

/-- Adds lines to be read. -/
def feed (b : Buffer) (lines : List String) : Buffer :=
  { b with pending := b.pending ++ lines.map Lines.bare }

/-- The next line to read and the buffer behind it. -/
def read (b : Buffer) : Option String × Buffer :=
  match b.pending with
  | [] => (none, b)
  | line :: rest => (some line, { b with pending := rest })

def write (b : Buffer) (line : String) : Buffer :=
  { b with output := b.output.push line }

/-- The lines written, each with its end. -/
def text (b : Buffer) : String :=
  b.output.foldl (fun s line => s ++ line ++ "\n") ""

end Buffer
end Scriptling
