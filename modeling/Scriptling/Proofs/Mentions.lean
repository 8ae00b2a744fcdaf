import Scriptling.Tree.Basic

/-!
# The variables of a tree

A tree mentions the variables that its nodes name. Some of them are targets: a value may be
stored in them, by an assignment, by an input statement or by an assignment inside of an
expression. The last one reads its variable first, so it declares none.
-/
namespace Scriptling

namespace Node

/-- The nodes directly inside of a node. -/
def children : Node → List Node
  | .program ns | .block ns => ns
  | .print value _ | .assign _ value _ | .evaluate value _ | .update _ _ value _ => [value]
  | .unary _ operand => [operand]
  | .binary _ left right => [left, right]
  | .branch condition thenBlock elseBlock _ => [condition, thenBlock, elseBlock]
  | .loop condition body _ => [condition, body]
  | _ => []

mutual

/-- All nodes of a tree, the outer ones first. -/
def parts : Node → List Node
  | .program ns => .program ns :: partsOfAll ns
  | .block ns => .block ns :: partsOfAll ns
  | .print value m => .print value m :: parts value
  | .assign name value m => .assign name value m :: parts value
  | .branch condition thenBlock elseBlock m =>
    .branch condition thenBlock elseBlock m ::
      (parts condition ++ (parts thenBlock ++ parts elseBlock))
  | .loop condition body m => .loop condition body m :: (parts condition ++ parts body)
  | .evaluate value m => .evaluate value m :: parts value
  | .binary op left right => .binary op left right :: (parts left ++ parts right)
  | .unary op operand => .unary op operand :: parts operand
  | .update name op value m => .update name op value m :: parts value
  | n => [n]

def partsOfAll : List Node → List Node
  | [] => []
  | n :: rest => parts n ++ partsOfAll rest

end

theorem partsOfAll_eq (ns : List Node) : partsOfAll ns = ns.flatMap parts := by
  induction ns with
  | nil => rfl
  | cons n ns ih => rw [partsOfAll, ih, List.flatMap_cons]

/-- The nodes of a tree are its root and the nodes of the trees below it. -/
theorem parts_eq (n : Node) : n.parts = n :: n.children.flatMap parts := by
  cases n <;> simp [parts, children, partsOfAll_eq]

theorem parts_subset_of_mem {n child : Node} (h : child ∈ n.children) :
    child.parts ⊆ n.parts := by
  intro k hk
  rw [parts_eq n]
  exact List.mem_cons_of_mem _ (List.mem_flatMap.2 ⟨child, h, hk⟩)

/-- The variable that a node names by itself. -/
def mention? : Node → Option String
  | .input name _ | .assign name _ _ | .ident name _ | .update name _ _ _ => name.variableName?
  | _ => none

/-- Whether a node gives its variable a value that does not depend on an earlier one. -/
def isDeclaration : Node → Bool
  | .input .. | .assign .. => true
  | _ => false

/-- Whether a node gives its variable a value. -/
def isStore : Node → Bool
  | .input .. | .assign .. | .update .. => true
  | _ => false

theorem isStore_of_isDeclaration {n : Node} (h : n.isDeclaration = true) : n.isStore = true := by
  cases n with
  | input name m => rfl
  | assign name value m => rfl
  | _ => cases h

/-- The variables that a tree mentions. -/
def mentioned (n : Node) : List String := n.parts.filterMap mention?

/-- The variables that a tree may give a value. -/
def targets (n : Node) : List String := (n.parts.filter isStore).filterMap mention?

/-- The variables that a tree may give their first value. -/
def declared (n : Node) : List String := (n.parts.filter isDeclaration).filterMap mention?

section Children

variable {n child : Node} (h : child ∈ n.children)
include h

theorem mentioned_subset : child.mentioned ⊆ n.mentioned :=
  List.filterMap_subset _ (parts_subset_of_mem h)

theorem targets_subset {targets : List String} (ht : n.targets ⊆ targets) :
    child.targets ⊆ targets :=
  List.Subset.trans (List.filterMap_subset _ (List.filter_subset _ (parts_subset_of_mem h))) ht

theorem declared_subset {declared : List String} (hd : n.declared ⊆ declared) :
    child.declared ⊆ declared :=
  List.Subset.trans (List.filterMap_subset _ (List.filter_subset _ (parts_subset_of_mem h))) hd

end Children

section Own

variable {n : Node} {x : String} (h : n.mention? = some x)
include h

theorem mem_mentioned : x ∈ n.mentioned := by
  rw [mentioned, parts_eq, List.mem_filterMap]
  exact ⟨n, List.mem_cons_self, h⟩

theorem mem_targets (hstore : n.isStore = true) : x ∈ n.targets := by
  rw [targets, parts_eq, List.mem_filterMap]
  exact ⟨n, List.mem_filter.2 ⟨List.mem_cons_self, hstore⟩, h⟩

theorem mem_declared (hdeclares : n.isDeclaration = true) : x ∈ n.declared := by
  rw [declared, parts_eq, List.mem_filterMap]
  exact ⟨n, List.mem_filter.2 ⟨List.mem_cons_self, hdeclares⟩, h⟩

end Own

end Node

end Scriptling
