import Scriptling.Eval.Operator
import Scriptling.Eval.State
import Scriptling.Tree.Basic

/-!
# Execution

Operands are evaluated from left to right, and always both of them. An
assignment inside an expression reads its variable before it evaluates the
value. A loop tests its condition before each iteration and counts the
iteration before it runs the body. An error gets the place of the innermost
statement that has one.

A tree is walked within a budget: a statement takes three units and an
expression one.
-/
namespace Scriptling

/-- Evaluates an expression. -/
def eval (settings : Settings) : Nat → Node → Run Value
  | 0, _ => throw .tooDeep
  | _ + 1, .number x => return .number x
  | _ + 1, .string s => return .string s
  | _ + 1, .bool b => return .bool b
  | _ + 1, .ident name m => Run.lookup name m
  | depth + 1, .binary op left right => do
    let a ← eval settings depth left
    let b ← eval settings depth right
    Run.ofExcept (applyBinary op.display a b)
  | depth + 1, .unary op operand => do
    let a ← eval settings depth operand
    Run.ofExcept (applyUnary op.display a)
  | depth + 1, .update name op value m => do
    let current ← Run.lookup name m
    let operand ← eval settings depth value
    let result ← Run.ofExcept (applyBinary op.display current operand)
    Run.setVariable name result
    Run.record settings (.updated name.display op.display result)
    return result
  | _ + 1, node => Run.fault (.notExpression node.kind)

/-- Evaluates the condition of a construct, which has to be a truth value. -/
def evalCondition (settings : Settings) (depth : Nat) (construct : String) (node : Node) :
    Run Bool := do
  let v ← eval settings depth node
  Run.record settings (.tested construct v)
  match v with
  | .bool b => return b
  | v => Run.fail (.condition construct v.typeName)

/-- Runs statements one after the other. -/
def inOrder (run : Node → Run Unit) : List Node → Run Unit
  | [] => pure ()
  | n :: rest => do
    run n
    inOrder run rest

/-- Runs the statements of a node that has to be a block. -/
def inBlock (run : Node → Run Unit) : Node → Run Unit
  | .block statements => inOrder run statements
  | node => Run.fault (.notBlock node.kind)

/-- Executes a statement. No loop is repeated more often than `steps` times. -/
def exec (settings : Settings) (steps : Nat) : Nat → Node → Run Unit
  | depth + 3, node => do
    Run.record settings (.entered node.kind node.mark.line)
    Run.placing node.mark <|
      match node with
      | .print value _ => do
        let v ← eval settings (depth + 1) value
        Run.record settings (.printed v.display)
        Run.write v.display
      | .input name _ => do
        match ← Run.readLine? with
        | some line =>
          Run.setVariable name (.string line)
          Run.record settings (.received name.display line)
        | none => Run.fail (.endOfInput name.display)
      | .assign name value _ => do
        let v ← eval settings (depth + 1) value
        Run.setVariable name v
        Run.record settings (.assigned name.display v)
      | .branch condition thenBlock elseBlock _ => do
        if ← evalCondition settings (depth + 1) "if" condition then
          inBlock (exec settings steps depth) thenBlock
        else if elseBlock.isAbsent then pure ()
        else inBlock (exec settings steps depth) elseBlock
      | .loop condition body _ =>
        Run.repeatWhile (evalCondition settings (depth + 1) "while" condition)
          (do
            Run.countIteration settings
            inBlock (exec settings steps depth) body)
          steps
      | .leave _ => throw .leaving
      | .evaluate value _ => do
        let _ ← eval settings (depth + 1) value
      | .block statements => inOrder (exec settings steps depth) statements
      | node => Run.fault (.notStatement node.kind)
  | _, _ => throw .tooDeep

end Scriptling
