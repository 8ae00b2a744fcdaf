import Scriptling.Proofs.DocumentRoundTrip
import Scriptling.Proofs.Nearest

/-!
# The schema of tree documents

What a document has to be is a table: for every type of node the fields that are read, in their
order, and what each of them has to be. A document is read as a tree if and only if it keeps to
the table, and otherwise the error is that of the first place that does not. A place comes before
another if its node does, or its field in the table, or its item in the list; what stands inside a
field comes before the next field.
-/
namespace Scriptling

/-- What the value of a field has to be. -/
inductive Demand where
  | anything
  | number
  | text
  | truth
  | tree
  | trees
deriving DecidableEq, Repr

/-- A field that nodes of a type have. -/
structure Rule where
  key : String
  demand : Demand
  optional : Bool
deriving DecidableEq, Repr

namespace Schema

/-- The types of nodes, and the fields of each in the order in which they are read. -/
def table : List (String × List Rule) :=
  [("Program", [⟨"body", .trees, false⟩]),
   ("Block", [⟨"statements", .trees, false⟩]),
   ("PrintStmt", [⟨"expr", .tree, false⟩]),
   ("InputStmt", [⟨"name", .anything, false⟩]),
   ("Assign", [⟨"name", .anything, false⟩, ⟨"value", .tree, false⟩]),
   ("IfStmt", [⟨"condition", .tree, false⟩, ⟨"then_block", .tree, false⟩,
     ⟨"else_block", .tree, true⟩]),
   ("WhileStmt", [⟨"condition", .tree, false⟩, ⟨"body", .tree, false⟩]),
   ("BreakStmt", []),
   ("ExprStmt", [⟨"expr", .tree, false⟩]),
   ("NumberLiteral", [⟨"value", .number, false⟩]),
   ("StringLiteral", [⟨"value", .text, false⟩]),
   ("BoolLiteral", [⟨"value", .truth, false⟩]),
   ("Ident", [⟨"name", .anything, false⟩]),
   ("BinaryOp", [⟨"op", .anything, false⟩, ⟨"left", .tree, false⟩, ⟨"right", .tree, false⟩]),
   ("UnaryOp", [⟨"op", .anything, false⟩, ⟨"operand", .tree, false⟩]),
   ("CompoundAssign", [⟨"name", .anything, false⟩, ⟨"op", .anything, false⟩,
     ⟨"value", .tree, false⟩])]

/-- The fields of a node by what stands in its field `type`. -/
def rulesOf : Json → Option (List Rule)
  | .str name => table.lookup name
  | _ => none

/-- What stands in the field `type` of an object. -/
def typeOf (fields : List (String × Json)) : Json :=
  (Json.field? "type" fields).getD .null

mutual

/-- A document that keeps to the table. -/
inductive IsTree : Json → Prop where
  | null : IsTree .null
  | node {fields : List (String × Json)} {rules : List Rule} :
    rulesOf (typeOf fields) = some rules →
    (∀ rule ∈ rules, rule.optional = false → (Json.field? rule.key fields).isSome) →
    (∀ rule ∈ rules, ∀ j, Json.field? rule.key fields = some j → Meets rule.demand j) →
    IsTree (.obj fields)

/-- A value that is what it has to be. An empty text or object counts as a list without items. -/
inductive Meets : Demand → Json → Prop where
  | anything {j : Json} : Meets .anything j
  | float {x : Float} : Meets .number (.float x)
  | int {n : Int} : n.natAbs < Binary.overflowBound → Meets .number (.int n)
  | text {s : String} : Meets .text (.str s)
  | truth {b : Bool} : Meets .truth (.bool b)
  | tree {j : Json} : IsTree j → Meets .tree j
  | trees {items : List Json} : (∀ j ∈ items, IsTree j) → Meets .trees (.arr items)
  | noCharacters : Meets .trees (.str "")
  | noFields : Meets .trees (.obj [])

end

/-- An object in which a field is present or may be missing, and is what it has to be. -/
def Keeps (fields : List (String × Json)) (rule : Rule) : Prop :=
  (rule.optional = false → (Json.field? rule.key fields).isSome) ∧
    ∀ j, Json.field? rule.key fields = some j → Meets rule.demand j

/-- The values that can stand in place of a list, with items or without. -/
def IsListed : Json → Prop
  | .arr _ | .str _ | .obj _ => True
  | _ => False

mutual

/-- The error of the first place of a document that does not keep to the table. -/
inductive FirstBreach : Json → DocumentError → Prop where
  | notANode {j : Json} : (∀ fields, j ≠ .obj fields) → j ≠ .null → FirstBreach j .notANode
  | unknownType {fields : List (String × Json)} : rulesOf (typeOf fields) = none →
    FirstBreach (.obj fields) (.unknownType (typeOf fields))
  | missing {fields : List (String × Json)} {before after : List Rule} {rule : Rule} :
    rulesOf (typeOf fields) = some (before ++ rule :: after) →
    (∀ r ∈ before, Keeps fields r) → rule.optional = false →
    Json.field? rule.key fields = none → FirstBreach (.obj fields) (.missingField rule.key)
  | field {fields : List (String × Json)} {before after : List Rule} {rule : Rule} {j : Json}
      {e : DocumentError} :
    rulesOf (typeOf fields) = some (before ++ rule :: after) →
    (∀ r ∈ before, Keeps fields r) → Json.field? rule.key fields = some j →
    Fails rule.demand j e → FirstBreach (.obj fields) e

/-- The first error in a value that is not what it has to be. -/
inductive Fails : Demand → Json → DocumentError → Prop where
  | badNumber {j : Json} : (∀ x, j ≠ .float x) → (∀ n, j ≠ .int n) → Fails .number j (.badNumber j)
  | tooLarge {n : Int} : Binary.overflowBound ≤ n.natAbs → Fails .number (.int n) .numberTooLarge
  | badString {j : Json} : (∀ s, j ≠ .str s) → Fails .text j (.badString j)
  | badBool {j : Json} : (∀ b, j ≠ .bool b) → Fails .truth j (.badBool j)
  | tree {j : Json} {e : DocumentError} : FirstBreach j e → Fails .tree j e
  | item {before after : List Json} {j : Json} {e : DocumentError} :
    (∀ i ∈ before, IsTree i) → FirstBreach j e → Fails .trees (.arr (before ++ j :: after)) e
  | characters {s : String} : s ≠ "" → Fails .trees (.str s) .notANode
  | names {fields : List (String × Json)} : fields ≠ [] → Fails .trees (.obj fields) .notANode
  | notAList {j : Json} : ¬ IsListed j → Fails .trees j (.notAList j.kind)

end

section Outcome

/-- Whether something has been read, or else the error. -/
def outcome {α : Type} (r : Except DocumentError α) : Except DocumentError Unit :=
  r.map fun _ => ()

variable {α β : Type}

@[simp] theorem outcome_ok (a : α) : outcome (.ok a : Except DocumentError α) = .ok () := rfl

@[simp] theorem outcome_error (e : DocumentError) :
    outcome (.error e : Except DocumentError α) = .error e := rfl

theorem outcome_eq_ok_iff {r : Except DocumentError α} :
    outcome r = .ok () ↔ ∃ a, r = .ok a := by
  cases r <;> simp

theorem outcome_eq_error_iff {r : Except DocumentError α} {e : DocumentError} :
    outcome r = .error e ↔ r = .error e := by
  cases r <;> simp

/-- What is read next does not depend on what has been read. -/
theorem outcome_bind {r : Except DocumentError α} {k : α → Except DocumentError β}
    {first next : Except DocumentError Unit} (hr : outcome r = first)
    (hk : ∀ a, outcome (k a) = next) : outcome (r >>= k) = (first >>= fun _ => next) := by
  subst hr
  cases r with
  | error e => rfl
  | ok a => exact hk a

/-- A list is gone through if nothing in it fails. -/
theorem forM_eq_ok_iff {xs : List α} {f : α → Except DocumentError Unit} :
    forM xs f = .ok () ↔ ∀ x ∈ xs, f x = .ok () := by
  induction xs with
  | nil => exact iff_of_true rfl nofun
  | cons x xs ih =>
    rw [List.forall_mem_cons, ← ih]
    change (f x >>= fun _ => forM xs f) = .ok () ↔ _
    cases f x <;> simp [bind, Except.bind]

/-- The error of a list is the one of the first item that fails. -/
theorem forM_eq_error_iff {xs : List α} {f : α → Except DocumentError Unit} {e : DocumentError} :
    forM xs f = .error e ↔ ∃ before x after, xs = before ++ x :: after ∧
      (∀ y ∈ before, f y = .ok ()) ∧ f x = .error e := by
  induction xs with
  | nil => exact iff_of_false nofun (by simp)
  | cons x xs ih =>
    change (f x >>= fun _ => forM xs f) = .error e ↔ _
    cases hx : f x with
    | error e' =>
      constructor
      · intro h
        exact ⟨[], x, xs, rfl, nofun, hx.trans h⟩
      · rintro ⟨before, y, after, heq, hbefore, hy⟩
        cases before with
        | nil =>
          obtain ⟨rfl, rfl⟩ := List.cons.inj heq
          exact hx.symm.trans hy
        | cons z before =>
          obtain ⟨rfl, -⟩ := List.cons.inj heq
          rw [hbefore x List.mem_cons_self] at hx
          cases hx
    | ok u =>
      change forM xs f = .error e ↔ _
      rw [ih]
      constructor
      · rintro ⟨before, y, after, rfl, hbefore, hy⟩
        exact ⟨x :: before, y, after, rfl, List.forall_mem_cons.2 ⟨hx, hbefore⟩, hy⟩
      · rintro ⟨before, y, after, heq, hbefore, hy⟩
        cases before with
        | nil =>
          obtain ⟨rfl, -⟩ := List.cons.inj heq
          rw [hx] at hy
          cases hy
        | cons z before =>
          obtain ⟨rfl, rfl⟩ := List.cons.inj heq
          exact ⟨before, y, after, rfl, fun i hi => hbefore i (List.mem_cons_of_mem _ hi), hy⟩

end Outcome

section Reading

open Node (ofDocument listOf itemsOf fieldsOf ofFields numberOf)

/-- What comes of reading a value that has to meet a demand. -/
def verify : Demand → Json → Except DocumentError Unit
  | .anything, _ => .ok ()
  | .number, j => outcome (numberOf j)
  | .text, .str _ => .ok ()
  | .text, j => .error (.badString j)
  | .truth, .bool _ => .ok ()
  | .truth, j => .error (.badBool j)
  | .tree, j => outcome (ofDocument j)
  | .trees, j => outcome (listOf j)

/-- What comes of reading a field. -/
def check (fields : List (String × Json)) (rule : Rule) : Except DocumentError Unit :=
  match Json.field? rule.key fields with
  | some j => verify rule.demand j
  | none => if rule.optional then .ok () else .error (.missingField rule.key)

theorem outcome_itemsOf (items : List Json) :
    outcome (itemsOf items) = forM items fun j => outcome (ofDocument j) := by
  induction items with
  | nil => rw [itemsOf]; rfl
  | cons j rest ih =>
    rw [itemsOf, List.forM_cons, ← ih]
    refine outcome_bind rfl fun n => ?_
    cases itemsOf rest <;> rfl

variable (fields : List (String × Json)) (key : String)

theorem find?_fieldsOf : (fieldsOf fields).find? key =
    (Json.field? key fields).map fun j => ⟨j, ofDocument j, listOf j⟩ := by
  induction fields with
  | nil => simp [Node.Fields.find?, Json.field?]
  | cons p rest ih =>
    obtain ⟨k, j⟩ := p
    rw [Node.fieldsOf_cons, Node.Fields.find?_cons, Json.field?, ih]
    split <;> rfl

theorem rawD_type : (fieldsOf fields).rawD "type" = typeOf fields := by
  rw [Node.Fields.rawD, find?_fieldsOf, typeOf]
  cases Json.field? "type" fields <;> rfl

theorem outcome_raw : outcome ((fieldsOf fields).raw key) = check fields ⟨key, .anything, false⟩ := by
  rw [Node.Fields.raw_eq, find?_fieldsOf, check]
  cases Json.field? key fields <;> rfl

/-- A literal is read from the value of one field alone. -/
theorem outcome_literal {k : Json → Except DocumentError Node} {d : Demand}
    (hk : ∀ j, outcome (k j) = verify d j) :
    outcome ((fieldsOf fields).raw key >>= k) = forM [Rule.mk key d false] (check fields) := by
  rw [Node.Fields.raw_eq, find?_fieldsOf, List.forM_cons, check]
  cases Json.field? key fields with
  | none => rfl
  | some j =>
    refine (hk j).trans ?_
    dsimp only
    cases verify d j <;> rfl

theorem outcome_node : outcome ((fieldsOf fields).node key) = check fields ⟨key, .tree, false⟩ := by
  rw [Node.Fields.node_eq, find?_fieldsOf, check]
  cases Json.field? key fields <;> rfl

theorem outcome_nodeD : outcome ((fieldsOf fields).nodeD key) = check fields ⟨key, .tree, true⟩ := by
  rw [Node.Fields.nodeD, find?_fieldsOf, check]
  cases Json.field? key fields <;> rfl

theorem outcome_nodes : outcome ((fieldsOf fields).nodes key) = check fields ⟨key, .trees, false⟩ := by
  rw [Node.Fields.nodes_eq, find?_fieldsOf, check]
  cases Json.field? key fields <;> rfl

/-- A node is read by reading the fields of its type in their order. -/
theorem outcome_ofFields :
    outcome (ofFields (fieldsOf fields)) =
      match rulesOf (typeOf fields) with
      | some rules => forM rules (check fields)
      | none => .error (.unknownType (typeOf fields)) := by
  unfold ofFields
  rw [rawD_type]
  generalize typeOf fields = type
  -- one case for each type of the table, and each field of it one step
  split
  · exact outcome_bind (outcome_nodes fields _) fun _ => rfl
  · exact outcome_bind (outcome_nodes fields _) fun _ => rfl
  · exact outcome_bind (outcome_node fields _) fun _ => rfl
  · exact outcome_bind (outcome_raw fields _) fun _ => rfl
  · exact outcome_bind (outcome_raw fields _) fun _ =>
      outcome_bind (outcome_node fields _) fun _ => rfl
  · exact outcome_bind (outcome_node fields _) fun _ =>
      outcome_bind (outcome_node fields _) fun _ =>
        outcome_bind (outcome_nodeD fields _) fun _ => rfl
  · exact outcome_bind (outcome_node fields _) fun _ =>
      outcome_bind (outcome_node fields _) fun _ => rfl
  · rfl
  · exact outcome_bind (outcome_node fields _) fun _ => rfl
  · refine outcome_literal fields _ fun j => ?_
    rw [verify]
    cases numberOf j <;> rfl
  · refine outcome_literal fields _ fun j => ?_
    cases j <;> rfl
  · refine outcome_literal fields _ fun j => ?_
    cases j <;> rfl
  · exact outcome_bind (outcome_raw fields _) fun _ => rfl
  · exact outcome_bind (outcome_raw fields _) fun _ =>
      outcome_bind (outcome_node fields _) fun _ =>
        outcome_bind (outcome_node fields _) fun _ => rfl
  · exact outcome_bind (outcome_raw fields _) fun _ =>
      outcome_bind (outcome_node fields _) fun _ => rfl
  · exact outcome_bind (outcome_raw fields _) fun _ =>
      outcome_bind (outcome_raw fields _) fun _ =>
        outcome_bind (outcome_node fields _) fun _ => rfl
  · have hnone : rulesOf type = none := by
      cases type with
      | str name =>
        rw [rulesOf, List.lookup_eq_none_iff]
        simp_all [table]
      | _ => rfl
    rw [hnone]
    rfl

end Reading

section Agreement

open Node (ofDocument listOf)

/-- Reading a value agrees with the table, in what is accepted and in the error. -/
def AgreesOn (d : Demand) (j : Json) : Prop :=
  (verify d j = .ok () ↔ Meets d j) ∧ ∀ e, verify d j = .error e ↔ Fails d j e

theorem agreesOn_of_ok {d : Demand} {j : Json} (h : verify d j = .ok ()) (hmeets : Meets d j)
    (hfails : ∀ e, ¬ Fails d j e) : AgreesOn d j := by
  refine ⟨iff_of_true h hmeets, fun e => iff_of_false ?_ (hfails e)⟩
  rw [h]
  exact nofun

theorem agreesOn_of_error {d : Demand} {j : Json} {e : DocumentError} (h : verify d j = .error e)
    (hmeets : ¬ Meets d j) (hfails : Fails d j e) (honly : ∀ e', Fails d j e' → e' = e) :
    AgreesOn d j := by
  refine ⟨iff_of_false ?_ hmeets, fun e' => ?_⟩
  · rw [h]
    exact nofun
  · rw [h, Except.error.injEq]
    constructor
    · rintro rfl
      exact hfails
    · exact fun h' => (honly e' h').symm

/-- The whole numbers that no double is near to. -/
theorem ofInt?_eq_none_iff (n : Int) :
    Binary.ofInt? n = none ↔ Binary.overflowBound ≤ n.natAbs := by
  have hle := Binary.nearestBits_le n.natAbs 1
  have hiff : Binary.nearestBits n.natAbs 1 = Binary.infinityBits ↔ _ :=
    Binary.nearestBits_eq_infinityBits_iff Nat.one_pos
  rw [Nat.cast_one, div_one, Nat.cast_le] at hiff
  rw [← hiff, Binary.ofInt?]
  split
  · exact iff_of_false nofun (by omega)
  · exact iff_of_true rfl (by omega)

theorem agreesOn_anything (j : Json) : AgreesOn .anything j :=
  agreesOn_of_ok rfl .anything nofun

theorem agreesOn_number (j : Json) : AgreesOn .number j := by
  cases j with
  | float x =>
    refine agreesOn_of_ok rfl .float fun e h => ?_
    cases h with
    | badNumber hfloat hint => exact hfloat x rfl
  | int n =>
    have hrange := ofInt?_eq_none_iff n
    cases hn : Binary.ofInt? n with
    | some x =>
      have hsmall : ¬ Binary.overflowBound ≤ n.natAbs := by
        rw [← hrange, hn]
        exact nofun
      refine agreesOn_of_ok ?_ (.int (Nat.not_le.1 hsmall)) fun e h => ?_
      · rw [verify, Node.numberOf, hn]
        rfl
      · cases h with
        | badNumber hfloat hint => exact hint n rfl
        | tooLarge hlarge => exact hsmall hlarge
    | none =>
      have hlarge := hrange.1 hn
      refine agreesOn_of_error ?_ ?_ (.tooLarge hlarge) fun e h => ?_
      · rw [verify, Node.numberOf, hn]
        rfl
      · rintro ⟨⟩
        omega
      · cases h with
        | badNumber hfloat hint => exact absurd rfl (hint n)
        | tooLarge => rfl
  | _ =>
    refine agreesOn_of_error rfl nofun (.badNumber nofun nofun) fun e h => ?_
    cases h
    rfl

theorem agreesOn_text (j : Json) : AgreesOn .text j := by
  cases j with
  | str s =>
    refine agreesOn_of_ok rfl .text fun e h => ?_
    cases h with
    | badString hstr => exact hstr s rfl
  | _ =>
    refine agreesOn_of_error rfl nofun (.badString nofun) fun e h => ?_
    cases h
    rfl

theorem agreesOn_truth (j : Json) : AgreesOn .truth j := by
  cases j with
  | bool b =>
    refine agreesOn_of_ok rfl .truth fun e h => ?_
    cases h with
    | badBool hbool => exact hbool b rfl
  | _ =>
    refine agreesOn_of_error rfl nofun (.badBool nofun) fun e h => ?_
    cases h
    rfl

/-- Reading a value agrees with the table, whatever the value has to be. -/
def Agrees (j : Json) : Prop := ∀ d, AgreesOn d j

theorem meets_tree_iff {j : Json} : Meets .tree j ↔ IsTree j :=
  ⟨fun h => by cases h; assumption, .tree⟩

theorem fails_tree_iff {j : Json} {e : DocumentError} : Fails .tree j e ↔ FirstBreach j e :=
  ⟨fun h => by cases h; assumption, .tree⟩

/-- Where a rule is not kept, and with what error. -/
def Breaks (fields : List (String × Json)) (rule : Rule) (e : DocumentError) : Prop :=
  (rule.optional = false ∧ Json.field? rule.key fields = none ∧ e = .missingField rule.key) ∨
    ∃ j, Json.field? rule.key fields = some j ∧ Fails rule.demand j e

section Objects

variable {fields : List (String × Json)}

theorem mem_of_field? {key : String} {j : Json} (h : Json.field? key fields = some j) :
    (key, j) ∈ fields := by
  induction fields with
  | nil => cases h
  | cons p rest ih =>
    obtain ⟨k, v⟩ := p
    rw [Json.field?] at h
    split at h
    · rename_i hk
      cases h
      rw [hk]
      exact List.mem_cons_self
    · exact List.mem_cons_of_mem _ (ih h)

theorem isTree_obj_iff :
    IsTree (.obj fields) ↔
      ∃ rules, rulesOf (typeOf fields) = some rules ∧ ∀ rule ∈ rules, Keeps fields rule := by
  constructor
  · intro h
    cases h with
    | node hrules hpresent hvalues =>
      exact ⟨_, hrules, fun rule hrule => ⟨hpresent rule hrule, hvalues rule hrule⟩⟩
  · rintro ⟨rules, hrules, hkeeps⟩
    exact .node hrules (fun rule hrule => (hkeeps rule hrule).1) fun rule hrule =>
      (hkeeps rule hrule).2

theorem firstBreach_obj_iff {e : DocumentError} :
    FirstBreach (.obj fields) e ↔
      (rulesOf (typeOf fields) = none ∧ e = .unknownType (typeOf fields)) ∨
      ∃ before rule after, rulesOf (typeOf fields) = some (before ++ rule :: after) ∧
        (∀ r ∈ before, Keeps fields r) ∧ Breaks fields rule e := by
  constructor
  · intro h
    cases h with
    | notANode hobj hnull => exact absurd rfl (hobj fields)
    | unknownType hrules => exact .inl ⟨hrules, rfl⟩
    | missing hrules hbefore hneeded hmissing =>
      exact .inr ⟨_, _, _, hrules, hbefore, .inl ⟨hneeded, hmissing, rfl⟩⟩
    | field hrules hbefore hfield hfails =>
      exact .inr ⟨_, _, _, hrules, hbefore, .inr ⟨_, hfield, hfails⟩⟩
  · rintro (⟨hrules, rfl⟩ | ⟨before, rule, after, hrules, hbefore, hbreaks⟩)
    · exact .unknownType hrules
    · rcases hbreaks with ⟨hneeded, hmissing, rfl⟩ | ⟨j, hfield, hfails⟩
      · exact .missing hrules hbefore hneeded hmissing
      · exact .field hrules hbefore hfield hfails

/-- A field is read as its rule says. -/
theorem check_iff (h : ∀ p ∈ fields, Agrees p.2) (rule : Rule) :
    (check fields rule = .ok () ↔ Keeps fields rule) ∧
      ∀ e, check fields rule = .error e ↔ Breaks fields rule e := by
  unfold check Keeps Breaks
  cases hfield : Json.field? rule.key fields with
  | none => cases rule.optional <;> simp [eq_comm]
  | some j =>
    obtain ⟨hok, herror⟩ := h _ (mem_of_field? hfield) rule.demand
    simp [hok, herror]

theorem agreesOn_tree_obj (h : ∀ p ∈ fields, Agrees p.2) : AgreesOn .tree (.obj fields) := by
  have hread : verify .tree (.obj fields) = _ :=
    (congrArg outcome (Node.ofDocument_obj fields)).trans (outcome_ofFields fields)
  unfold AgreesOn
  simp only [meets_tree_iff, fails_tree_iff, isTree_obj_iff, firstBreach_obj_iff]
  rw [hread]
  cases hrules : rulesOf (typeOf fields) with
  | none => simp [eq_comm]
  | some rules =>
    simp [forM_eq_ok_iff, forM_eq_error_iff, (check_iff h _).1, (check_iff h _).2]

end Objects

section Lists

theorem meets_trees_arr_iff {items : List Json} :
    Meets .trees (.arr items) ↔ ∀ j ∈ items, IsTree j :=
  ⟨fun h => by cases h; assumption, .trees⟩

theorem fails_trees_arr_iff {items : List Json} {e : DocumentError} :
    Fails .trees (.arr items) e ↔ ∃ before j after, items = before ++ j :: after ∧
      (∀ i ∈ before, IsTree i) ∧ FirstBreach j e := by
  constructor
  · intro h
    cases h with
    | item hbefore hbreach => exact ⟨_, _, _, rfl, hbefore, hbreach⟩
    | notAList hlisted => exact absurd trivial hlisted
  · rintro ⟨before, j, after, rfl, hbefore, hbreach⟩
    exact .item hbefore hbreach

theorem agreesOn_trees_arr {items : List Json} (h : ∀ j ∈ items, Agrees j) :
    AgreesOn .trees (.arr items) := by
  have hread : verify .trees (.arr items) = _ :=
    (congrArg outcome (Node.listOf_arr items)).trans (outcome_itemsOf items)
  have hitem : ∀ j ∈ items, (outcome (ofDocument j) = .ok () ↔ IsTree j) ∧
      ∀ e, outcome (ofDocument j) = .error e ↔ FirstBreach j e := by
    intro j hj
    have htree := h j hj .tree
    simpa only [AgreesOn, verify, meets_tree_iff, fails_tree_iff] using htree
  constructor
  · rw [hread, forM_eq_ok_iff, meets_trees_arr_iff]
    exact forall₂_congr fun j hj => (hitem j hj).1
  · intro e
    rw [hread, forM_eq_error_iff, fails_trees_arr_iff]
    constructor
    · rintro ⟨before, j, after, rfl, hbefore, hj⟩
      refine ⟨before, j, after, rfl, fun i hi => ?_, ?_⟩
      · exact (hitem i (List.mem_append_left _ hi)).1.1 (hbefore i hi)
      · exact ((hitem j (by simp)).2 e).1 hj
    · rintro ⟨before, j, after, rfl, hbefore, hj⟩
      refine ⟨before, j, after, rfl, fun i hi => ?_, ?_⟩
      · exact (hitem i (List.mem_append_left _ hi)).1.2 (hbefore i hi)
      · exact ((hitem j (by simp)).2 e).2 hj

end Lists

/-- Every value agrees if what is no node and no list does. -/
theorem agrees_of {j : Json} (htree : AgreesOn .tree j) (htrees : AgreesOn .trees j) :
    Agrees j
  | .anything => agreesOn_anything j
  | .number => agreesOn_number j
  | .text => agreesOn_text j
  | .truth => agreesOn_truth j
  | .tree => htree
  | .trees => htrees

theorem agreesOn_tree_null : AgreesOn .tree .null := by
  refine agreesOn_of_ok ?_ (.tree .null) fun e h => ?_
  · rw [verify, ofDocument]
    rfl
  · rw [fails_tree_iff] at h
    cases h with
    | notANode hobj hnull => exact hnull rfl

/-- What is no object and is there is no tree. -/
theorem agreesOn_tree_of_ne {j : Json} (hobj : ∀ fields, j ≠ .obj fields) (hnull : j ≠ .null) :
    AgreesOn .tree j := by
  refine agreesOn_of_error ?_ ?_ (.tree (.notANode hobj hnull)) fun e h => ?_
  · cases j <;> simp_all [verify, ofDocument]
  · rw [meets_tree_iff]
    rintro ⟨⟩
    · exact hnull rfl
    · exact hobj _ rfl
  · rw [fails_tree_iff] at h
    cases h with
    | notANode => rfl
    | _ => exact absurd rfl (hobj _)

theorem agreesOn_trees_str (s : String) : AgreesOn .trees (.str s) := by
  by_cases hs : s = ""
  · subst hs
    refine agreesOn_of_ok ?_ .noCharacters fun e h => ?_
    · rw [verify, listOf]
      rfl
    · cases h with
      | characters hne => exact hne rfl
      | notAList hlisted => exact hlisted trivial
  · refine agreesOn_of_error ?_ ?_ (.characters hs) fun e h => ?_
    · rw [verify, listOf, if_neg (by simpa using hs)]
      rfl
    · rintro ⟨⟩
      exact hs rfl
    · cases h with
      | characters => rfl
      | notAList hlisted => exact absurd trivial hlisted

theorem agreesOn_trees_obj (fields : List (String × Json)) : AgreesOn .trees (.obj fields) := by
  cases fields with
  | nil =>
    refine agreesOn_of_ok ?_ .noFields fun e h => ?_
    · rw [verify, listOf]
      rfl
    · cases h with
      | names hne => exact hne rfl
      | notAList hlisted => exact hlisted trivial
  | cons p rest =>
    refine agreesOn_of_error ?_ ?_ (.names (List.cons_ne_nil p rest)) fun e h => ?_
    · rw [verify, listOf]
      rfl
    · intro h
      cases h
    · cases h with
      | names => rfl
      | notAList hlisted => exact absurd trivial hlisted

/-- What has no items is no list. -/
theorem agreesOn_trees_of_not_isListed {j : Json} (hj : ¬ IsListed j) : AgreesOn .trees j := by
  refine agreesOn_of_error ?_ ?_ (.notAList hj) fun e h => ?_
  · cases j <;> simp_all [verify, listOf, IsListed]
  · rintro ⟨⟩ <;> exact hj trivial
  · cases h with
    | notAList => rfl
    | _ => exact absurd trivial hj

mutual

theorem agrees : (j : Json) → Agrees j
  | .null => agrees_of agreesOn_tree_null (agreesOn_trees_of_not_isListed id)
  | .bool _ => agrees_of (agreesOn_tree_of_ne nofun nofun) (agreesOn_trees_of_not_isListed id)
  | .int _ => agrees_of (agreesOn_tree_of_ne nofun nofun) (agreesOn_trees_of_not_isListed id)
  | .float _ => agrees_of (agreesOn_tree_of_ne nofun nofun) (agreesOn_trees_of_not_isListed id)
  | .str s => agrees_of (agreesOn_tree_of_ne nofun nofun) (agreesOn_trees_str s)
  | .arr items =>
    agrees_of (agreesOn_tree_of_ne nofun nofun) (agreesOn_trees_arr (agrees_items items))
  | .obj fields =>
    agrees_of (agreesOn_tree_obj (agrees_fields fields)) (agreesOn_trees_obj fields)

theorem agrees_items : (items : List Json) → ∀ j ∈ items, Agrees j
  | [] => nofun
  | j :: rest => List.forall_mem_cons.2 ⟨agrees j, agrees_items rest⟩

theorem agrees_fields : (fields : List (String × Json)) → ∀ p ∈ fields, Agrees p.2
  | [] => nofun
  | (_, j) :: rest => List.forall_mem_cons.2 ⟨agrees j, agrees_fields rest⟩

end

end Agreement

/-- A document is read as a tree if and only if it keeps to the table, and fails with the error of
its first breach otherwise. -/
theorem document_accepted_or_first_breach (j : Json) :
    ((∃ n, Node.ofDocument j = .ok n) ↔ IsTree j) ∧
      ∀ e, Node.ofDocument j = .error e ↔ FirstBreach j e := by
  obtain ⟨hok, herror⟩ := agrees j .tree
  constructor
  · rw [← meets_tree_iff, ← hok]
    exact outcome_eq_ok_iff.symm
  · intro e
    rw [← fails_tree_iff, ← herror]
    exact outcome_eq_error_iff.symm

/-- What is wrong inside of a condition is reported before what is missing behind it. -/
example : Node.ofDocument (.obj [("type", .str "WhileStmt"),
    ("condition", .obj [("type", .str "UnaryOp"), ("operand", .arr [])])]) =
      .error (.missingField "op") := by rfl

end Schema

end Scriptling
