/-!
# File names

A file name is shown without the parts that say nothing: repeated and closing
slashes, and single dots.
-/
namespace Scriptling.Path

/-- Splits a text at slashes. -/
def parts : List Char → List (List Char)
  | [] => [[]]
  | c :: rest =>
    if c = '/' then [] :: parts rest
    else
      match parts rest with
      | [] => [[c]]
      | p :: ps => (c :: p) :: ps

/-- The slashes that begin an absolute name: two exactly are kept as they are. -/
def root (name : List Char) : List Char :=
  match name.takeWhile (· = '/') with
  | [] => []
  | ['/', '/'] => ['/', '/']
  | _ => ['/']

/-- A file name in its plain form. -/
def normalize (name : String) : String :=
  let chars := name.toList
  let kept := (parts chars).filter fun p => !p.isEmpty && p != ['.']
  let text := String.ofList (root chars) ++ "/".intercalate (kept.map String.ofList)
  if text.isEmpty then "." else text

end Scriptling.Path
