import Scriptling.Error

/-!
# Faults

A tree document may put a node where nothing can be done with it. This is no
error of a script, which carries a message and a place, but a fault of the
tree, and it passes every handler of errors. The same goes for settings that
are no names or numbers. A script can bring about two faults: the remainder of
an infinity when it is run, and a tree that is too high when it is stored.
-/
namespace Scriptling

inductive Fault where
  /-- A node of this kind stands in the place of a statement. -/
  | notStatement (kind : String)
  /-- A node of this kind stands in the place of an expression. -/
  | notExpression (kind : String)
  /-- A node of this kind stands in the place of a block. -/
  | notBlock (kind : String)
  /-- A node of this kind is run as a program. -/
  | notProgram (kind : String)
  /-- A loop is run as a program, and its body is a node of this kind. -/
  | bodyNotList (kind : String)
  /-- A value of this kind stands in the place of a name. -/
  | notAName (kind : String)
  /-- A value of this kind is the limit on iterations. -/
  | notALimit (kind : String)
  /-- A tree has too many levels to be written down. -/
  | treeTooHigh
  /-- The remainder of an infinity. -/
  | infiniteDividend
deriving DecidableEq, Repr

/-- Why something could not be done. -/
inductive Failure where
  | error (e : Error)
  | fault (f : Fault)

namespace Failure

/-- An error that is not yet placed. -/
def ofCause (c : Cause) : Failure := .error (.unplaced c)

end Failure
end Scriptling
