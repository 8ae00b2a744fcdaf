import Scriptling.Fault
import Scriptling.Tree.Basic

/-!
# Breaks and loops

A `break` may only stand in the body of a loop, be it in blocks and branches
within that body. The check reports the first one that does not.
-/
namespace Scriptling.Node

mutual

/-- Checks a statement. -/
def checkBreaks (inLoop : Bool) : Node → Except Failure Unit
  | .leave m => if inLoop then .ok () else .error (.error ⟨.breakOutsideLoop, m⟩)
  | .block statements => checkAllBreaks inLoop statements
  | .branch _ thenBlock elseBlock _ => do
    checkBlockBreaks inLoop thenBlock
    if elseBlock.isAbsent then .ok () else checkBlockBreaks inLoop elseBlock
  | .loop _ body _ => checkBlockBreaks true body
  | _ => .ok ()

/-- Checks the statements of a node that should be a block. -/
def checkBlockBreaks (inLoop : Bool) : Node → Except Failure Unit
  | .block statements => checkAllBreaks inLoop statements
  | n => .error (.fault (.notBlock n.kind))

/-- Checks statements from the first to the last. -/
def checkAllBreaks (inLoop : Bool) : List Node → Except Failure Unit
  | [] => .ok ()
  | n :: rest => do
    checkBreaks inLoop n
    checkAllBreaks inLoop rest

end

end Scriptling.Node
