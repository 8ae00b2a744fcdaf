import Scriptling.Eval.Limit
import Scriptling.FrontEnd
import Scriptling.Text.Blank

/-!
# Command line options

Options and the name of the script may come in any order. A long option may be
shortened as long as it stays unambiguous and takes its value from behind an
equals sign or from the next argument; `-v` may be repeated in one argument, with
or without an equals sign behind the first letter.
Two dashes end the options.
-/
namespace Scriptling.CommandLine

structure Options where
  verbosity : Nat
  /-- The front end, unless the option for it was left without a value. -/
  frontEnd : Option FrontEnd
  limit : Limit
  emit : Option String
  tree : Option String
  tokens : Option String
  script : Option String
deriving DecidableEq, Repr

namespace Options

def default : Options := ⟨0, some .descent, .unlimited, none, none, none, none⟩

end Options

/-- The long options. -/
inductive Long where
  | help | parser | maxIterations | emitAst | ast | tokens
deriving DecidableEq, Repr

namespace Long

def text : Long → String
  | .help => "--help"
  | .parser => "--parser"
  | .maxIterations => "--max-iterations"
  | .emitAst => "--emit-ast"
  | .ast => "--ast"
  | .tokens => "--tokens"

def all : List Long := [.help, .parser, .maxIterations, .emitAst, .ast, .tokens]

/-- The options that a text may be short for. An option's own text is short for
nothing else. -/
def matching (text : String) : List Long :=
  match all.find? (·.text = text) with
  | some o => [o]
  | none => all.filter fun o => text.toList.isPrefixOf o.text.toList

end Long

/-- What an argument is, taken by itself. -/
inductive Argument where
  | value (text : String)
  | long (option : Long) (value? : Option String)
  /-- A dash and letters. -/
  | short (letters : List Char)
  | separator
  | ambiguous
  | unknown
deriving DecidableEq, Repr

/-- A minus sign and a number, with or without a line feed behind it. -/
def isNegativeNumber : List Char → Bool
  | '-' :: rest =>
    let number := if rest.getLast? = some '\n' then rest.dropLast else rest
    let whole := number.takeWhile isDecimal
    match number.dropWhile isDecimal with
    | [] => !whole.isEmpty
    | '.' :: fraction => !fraction.isEmpty && fraction.all isDecimal
    | _ => false
  | _ => false

namespace Argument

/-- What follows the equals sign in an argument. -/
def attached? (text : List Char) : Option String :=
  match text.dropWhile (· ≠ '=') with
  | [] => none
  | _ :: rest => some (String.ofList rest)

/-- The options of one letter. -/
def isLetter (c : Char) : Bool := c = 'v' ∨ c = 'h'

/-- The letters that follow the first one. An equals sign may come before
them. -/
def further : List Char → List Char
  | '=' :: c :: rest => c :: rest
  | letters => letters

def ofText (text : String) : Argument :=
  let chars := text.toList
  let plain : Argument :=
    if isNegativeNumber chars || chars.contains ' ' then .value text else .unknown
  match chars with
  | '-' :: '-' :: [] => .separator
  | '-' :: '-' :: _ =>
    match Long.matching (String.ofList (chars.takeWhile (· ≠ '='))) with
    | [] => plain
    | [o] => .long o (attached? chars)
    | _ => .ambiguous
  | '-' :: c :: rest => if isLetter c then .short (c :: further rest) else plain
  | _ => .value text

end Argument

/-- Splits a text at underscores. -/
def digitGroups : List Char → List (List Char)
  | [] => [[]]
  | c :: rest =>
    if c = '_' then [] :: digitGroups rest
    else
      match digitGroups rest with
      | [] => [[c]]
      | g :: gs => (c :: g) :: gs

/-- Reads decimal digits of any script. -/
def readDigits? (digits : List Char) : Option Nat :=
  digits.foldl (fun n? c => do return (← n?) * 10 + (← decimalValue? c)) (some 0)

/-- Whether a character may surround a whole number: a blank that is none of the
separator controls of ASCII. -/
def isPadding (c : Char) : Bool :=
  isBlank c && !decide (28 ≤ c.toNat ∧ c.toNat ≤ 31)

/-- Reads a whole number: padding around it, a sign and single underscores
between digits are allowed. -/
def readInt? (text : String) : Option Int := do
  let chars := ((text.toList.dropWhile isPadding).reverse.dropWhile isPadding).reverse
  let negative := chars.head? == some '-'
  let unsigned := if negative || chars.head? == some '+' then chars.drop 1 else chars
  let groups := digitGroups unsigned
  if groups.any (·.isEmpty) || maxDigits < groups.flatten.length then none
  else
    let n : Int := ← readDigits? groups.flatten
    return if negative then -n else n

/-- What a command line asks for. -/
inductive Request where
  | perform (options : Options)
  | help
  | misuse
deriving DecidableEq, Repr

namespace Options

/-- Sets one of the three options that exclude each other. -/
def choose (o : Options) (option : Long) (value : String) : Option Options :=
  match option, o.emit, o.tree, o.tokens with
  | .emitAst, _, none, none => some { o with emit := some value }
  | .ast, none, _, none => some { o with tree := some value }
  | .tokens, none, none, _ => some { o with tokens := some value }
  | _, _, _, _ => none

/-- Sets an option that takes a value. -/
def set (o : Options) (option : Long) (value : String) : Option Options :=
  match option with
  | .parser => (FrontEnd.ofName? value).map fun f => { o with frontEnd := some f }
  | .maxIterations => (readInt? value).map fun n => { o with limit := .atMost n }
  | _ => o.choose option value

/-- The kind of what an option holds that is left without a value: a list that is
empty. -/
def emptyKind : String := "list"

/-- Leaves an option that takes a value without one. -/
def clear (o : Options) (option : Long) : Option Options :=
  match option with
  | .parser => some { o with frontEnd := none }
  | .maxIterations => some { o with limit := .unusable emptyKind }
  | _ => o.choose option ""

/-- Sets an option to what follows its equals sign. Two dashes are no value. -/
def attach (o : Options) (option : Long) (value : String) : Option Options :=
  if value = "--" then o.clear option else o.set option value

end Options

namespace Request

/-- Takes the arguments behind two dashes. -/
def ofRest (o : Options) : List String → Request
  | [] => .perform o
  | [script] => if o.script.isNone then .perform { o with script := some script } else .misuse
  | _ => .misuse

/-- Takes arguments one by one. Two dashes may come before the script or right
behind it. An argument that has no place makes a misuse of the whole, but only
once the others have been taken. -/
def ofArguments (o : Options) (behindScript misused : Bool) : List String → Request
  | [] => if misused then .misuse else .perform o
  | a :: rest =>
    match Argument.ofText a with
    | .separator =>
      if !misused && (o.script.isNone || behindScript) then ofRest o rest else .misuse
    | .value text =>
      if o.script.isNone then ofArguments { o with script := some text } true misused rest
      else ofArguments o false true rest
    | .short letters =>
      if !letters.all Argument.isLetter then .misuse
      else if letters.contains 'h' then .help
      else ofArguments { o with verbosity := o.verbosity + letters.length } false misused rest
    | .long .help none => .help
    | .long .help (some _) => .misuse
    | .long option (some value) =>
      match o.attach option value with
      | some o => ofArguments o false misused rest
      | none => .misuse
    | .long option none =>
      match rest with
      | [] => .misuse
      | next :: rest =>
        match Argument.ofText next with
        | .value value =>
          match o.set option value with
          | some o => ofArguments o false misused rest
          | none => .misuse
        | _ => .misuse
    | .unknown => ofArguments o false true rest
    | .ambiguous => .misuse

/-- Reads a command line. A shortened option that is ambiguous is a misuse
wherever it stands. -/
def ofCommandLine (arguments : List String) : Request :=
  if (arguments.takeWhile (· ≠ "--")).any fun a => Argument.ofText a == .ambiguous then .misuse
  else ofArguments .default false false arguments

end Request
end Scriptling.CommandLine
