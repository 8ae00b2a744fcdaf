import Scriptling.Proofs.Grammar
import Scriptling.Proofs.Spelling

/-!
# Writing programs

The trees that a program text can stand for, and the ways to write them. A place in an
expression has a level, and an expression may stand in it without parentheses if its own
level is as tight; an assignment may do so only where a whole expression is expected.
Parentheses are free everywhere. Every statement has a semicolon behind it.
-/
namespace Scriptling

namespace Node

mutual

/-- The tree without its places. -/
def bare : Node → Node
  | .absent => .absent
  | .program body => .program (bareAll body)
  | .block statements => .block (bareAll statements)
  | .print value _ => .print value.bare .unknown
  | .input name _ => .input name .unknown
  | .assign name value _ => .assign name value.bare .unknown
  | .branch condition thenBlock elseBlock _ =>
    .branch condition.bare thenBlock.bare elseBlock.bare .unknown
  | .loop condition body _ => .loop condition.bare body.bare .unknown
  | .leave _ => .leave .unknown
  | .evaluate value _ => .evaluate value.bare .unknown
  | .number x => .number x
  | .string s => .string s
  | .bool b => .bool b
  | .ident name _ => .ident name .unknown
  | .binary op left right => .binary op left.bare right.bare
  | .unary op operand => .unary op operand.bare
  | .update name op value _ => .update name op value.bare .unknown

def bareAll : List Node → List Node
  | [] => []
  | n :: rest => n.bare :: bareAll rest

end

/-- The operators with two operands. -/
def binaryOperators : List String :=
  ["||", "&&", "==", "!=", "<", "<=", ">", ">=", "+", "-", "*", "/", "%", "^"]

def signOperators : List String := ["-", "!"]

/-- The operators with which an assignment can combine the variable and the value. -/
def updateOperators : List String := ["+", "-", "*", "/", "%"]

/-- Whether a tree is an expression that a text can stand for. -/
inductive IsExpression : Node → Prop where
  | number {x : Float} : (Symbol.number x).Legible → IsExpression (.number x)
  | string {s : String} : (Symbol.string s).Legible → IsExpression (.string s)
  | bool {b : Bool} : IsExpression (.bool b)
  | ident {x : String} {m : Mark} : (Symbol.ident x).Legible → IsExpression (.ident (.str x) m)
  | binary {op : String} {l r : Node} : op ∈ binaryOperators → IsExpression l → IsExpression r →
    IsExpression (.binary (.str op) l r)
  | unary {op : String} {n : Node} : op ∈ signOperators → IsExpression n →
    IsExpression (.unary (.str op) n)
  | update {x op : String} {n : Node} {m : Mark} : (Symbol.ident x).Legible →
    op ∈ updateOperators → IsExpression n → IsExpression (.update (.str x) (.str op) n m)

/-- Whether a tree is a statement that a text can stand for. The first argument tells
whether a `break` may stand in it. -/
inductive IsStatement : Bool → Node → Prop where
  | print {inLoop : Bool} {e : Node} {m : Mark} : IsExpression e → IsStatement inLoop (.print e m)
  | input {inLoop : Bool} {x : String} {m : Mark} : (Symbol.ident x).Legible →
    IsStatement inLoop (.input (.str x) m)
  | assign {inLoop : Bool} {x : String} {e : Node} {m : Mark} : (Symbol.ident x).Legible →
    IsExpression e → IsStatement inLoop (.assign (.str x) e m)
  | branch {inLoop : Bool} {c : Node} {ts : List Node} {m : Mark} : IsExpression c →
    (∀ n ∈ ts, IsStatement inLoop n) → IsStatement inLoop (.branch c (.block ts) .absent m)
  | branchElse {inLoop : Bool} {c : Node} {ts es : List Node} {m : Mark} : IsExpression c →
    (∀ n ∈ ts, IsStatement inLoop n) → (∀ n ∈ es, IsStatement inLoop n) →
    IsStatement inLoop (.branch c (.block ts) (.block es) m)
  | loop {inLoop : Bool} {c : Node} {ns : List Node} {m : Mark} : IsExpression c →
    (∀ n ∈ ns, IsStatement true n) → IsStatement inLoop (.loop c (.block ns) m)
  | leave {m : Mark} : IsStatement true (.leave m)
  | block {inLoop : Bool} {ns : List Node} : (∀ n ∈ ns, IsStatement inLoop n) →
    IsStatement inLoop (.block ns)
  | evaluate {inLoop : Bool} {e : Node} {m : Mark} : IsExpression e →
    IsStatement inLoop (.evaluate e m)

/-- Whether a tree is a program that a text can stand for. -/
inductive IsProgram : Node → Prop where
  | intro {ns : List Node} : (∀ n ∈ ns, IsStatement false n) → IsProgram (.program ns)

end Node

/-- A name is legible if it is read as one token, which is the name. -/
theorem Symbol.legible_ident_iff {name : String} :
    (Symbol.ident name).Legible ↔ ∃ p q, tokenize name = .whole [⟨.ident name, p⟩] q := by
  constructor
  · intro h
    have hspaced : Spaced [.ident name] name.toList := by
      have := spaced_intercalate [.ident name]
      simpa [render] using this
    obtain ⟨ts, q, hts, hsym⟩ := hspaced.tokenize_eq (by simpa using h)
    obtain ⟨t, rfl, ht⟩ := List.map_eq_singleton_iff.1 hsym
    obtain ⟨s, p⟩ := t
    cases ht
    exact ⟨p, q, hts⟩
  · rintro ⟨p, q, h⟩
    have hfailure : (tokenize name).failure = none := by
      rw [h]
      rfl
    obtain ⟨ts, q', hts, hlegible⟩ := tokenize_eq_whole hfailure
    have htokens := congrArg Stream.tokens (hts.symm.trans h)
    have hts' : ts = [⟨.ident name, p⟩] := by
      have := congrArg List.dropLast htokens
      simpa [Stream.whole] using this
    exact hlegible ⟨.ident name, p⟩ (by simp [hts'])

namespace Descent.Level

/-- How tight a level is. -/
def rank : Level → Nat
  | .expression => 0
  | .disjunction => 1
  | .conjunction => 2
  | .comparison => 3
  | .sum => 4
  | .product => 5
  | .signed => 6
  | .power => 7
  | .assignment => 8
  | .primary => 9

end Descent.Level

namespace Writing

open Descent (Level)
open Grammar (Phrase)

/-- The ways to write an expression in a place of a level. -/
inductive Expression : Level → Node → List Symbol → Prop where
  | number {level : Level} {x : Float} : Expression level (.number x) [.number x]
  | string {level : Level} {s : String} : Expression level (.string s) [.string s]
  | bool {level : Level} {b : Bool} : Expression level (.bool b) [.bool b]
  | ident {level : Level} {x : String} {m : Mark} :
    Expression level (.ident (.str x) m) [.ident x]
  | paren {level : Level} {n : Node} {ss : List Symbol} : Expression .expression n ss →
    Expression level n (.mark "(" :: ss ++ [.mark ")"])
  | sign {level : Level} {op : String} {n : Node} {ss : List Symbol} :
    level.rank ≤ Level.signed.rank → op ∈ Node.signOperators → Expression .signed n ss →
    Expression level (.unary (.str op) n) (.mark op :: ss)
  | binary (own : Level) {level left right : Level} {op : String} {l r : Node}
      {ls rs : List Symbol} :
    level.rank ≤ own.rank → own.operands? = some (left, right) → op ∈ own.operators →
    Expression left l ls → Expression right r rs →
    Expression level (.binary (.str op) l r) (ls ++ .mark op :: rs)
  | update {x op : String} {n : Node} {m : Mark} {ss : List Symbol} :
    op ∈ Node.updateOperators → Expression .expression n ss →
    Expression .expression (.update (.str x) (.str op) n m) (.ident x :: .mark (op ++ "=") :: ss)

/-- The ways to write an expression in parentheses. -/
inductive Condition : Node → List Symbol → Prop where
  | intro {n : Node} {ss : List Symbol} : Expression .expression n ss →
    Condition n (.mark "(" :: ss ++ [.mark ")"])

/-- The ways to write a phrase of a program. The first argument tells whether a `break`
may stand in it; the items of a sequence are given by the block they would fill. -/
inductive Written : Bool → Phrase → Node → List Symbol → Prop where
  | program {ns : List Node} {ss : List Symbol} :
    Written false .items (.block ns) ss → Written false .program (.program ns) ss
  | nil {inLoop : Bool} : Written inLoop .items (.block []) []
  | cons {inLoop : Bool} {n : Node} {ns : List Node} {ss us : List Symbol} :
    Written inLoop .statement n ss → Written inLoop .items (.block ns) us →
    Written inLoop .items (.block (n :: ns)) (ss ++ .mark ";" :: us)
  | block {inLoop : Bool} {n : Node} {ss : List Symbol} : Written inLoop .items n ss →
    Written inLoop .block n (.mark "\x7b" :: ss ++ [.mark "\x7d"])
  | print {inLoop : Bool} {n : Node} {m : Mark} {ss : List Symbol} : Condition n ss →
    Written inLoop .statement (.print n m) (.mark "print" :: ss)
  | input {inLoop : Bool} {x : String} {m : Mark} :
    Written inLoop .statement (.input (.str x) m) [.mark "input", .ident x]
  | branch {inLoop : Bool} {c thenBlock : Node} {m : Mark} {cs ts : List Symbol} :
    Condition c cs → Written inLoop .block thenBlock ts →
    Written inLoop .statement (.branch c thenBlock .absent m) (.mark "if" :: cs ++ ts)
  | branchElse {inLoop : Bool} {c thenBlock elseBlock : Node} {m : Mark}
      {cs ts es : List Symbol} :
    Condition c cs → Written inLoop .block thenBlock ts → Written inLoop .block elseBlock es →
    Written inLoop .statement (.branch c thenBlock elseBlock m)
      (.mark "if" :: cs ++ ts ++ .mark "else" :: es)
  | loop {inLoop : Bool} {c body : Node} {m : Mark} {cs bs : List Symbol} :
    Condition c cs → Written true .block body bs →
    Written inLoop .statement (.loop c body m) (.mark "while" :: cs ++ bs)
  | leave {m : Mark} : Written true .statement (.leave m) [.mark "break"]
  | nested {inLoop : Bool} {n : Node} {ss : List Symbol} : Written inLoop .block n ss →
    Written inLoop .statement n ss
  | assign {inLoop : Bool} {x : String} {n : Node} {m : Mark} {ss : List Symbol} :
    Expression .expression n ss →
    Written inLoop .statement (.assign (.str x) n m) (.ident x :: .mark "=" :: ss)
  | evaluate {inLoop : Bool} {n : Node} {m : Mark} {ss : List Symbol} :
    Expression .expression n ss → Written inLoop .statement (.evaluate n m) ss

theorem exists_level {op : String} (h : op ∈ Node.binaryOperators) :
    ∃ own left right, Level.operands? own = some (left, right) ∧ op ∈ own.operators := by
  have key : ∀ op ∈ Node.binaryOperators,
      ∃ own ∈ [Level.disjunction, .conjunction, .comparison, .sum, .product, .power],
        own.operands?.isSome = true ∧ op ∈ own.operators := by decide
  obtain ⟨own, -, hsome, hop⟩ := key op h
  obtain ⟨⟨left, right⟩, hlr⟩ := Option.isSome_iff_exists.1 hsome
  exact ⟨own, left, right, hlr, hop⟩

/-- With enough parentheses, every expression can be written in every place. -/
theorem exists_expression {n : Node} (h : n.IsExpression) (level : Level) :
    ∃ ss, Expression level n ss := by
  induction h generalizing level with
  | number => exact ⟨_, .number⟩
  | string => exact ⟨_, .string⟩
  | bool => exact ⟨_, .bool⟩
  | ident => exact ⟨_, .ident⟩
  | binary hop _ _ ihl ihr =>
    obtain ⟨own, left, right, hlr, hop⟩ := exists_level hop
    obtain ⟨ls, hl⟩ := ihl left
    obtain ⟨rs, hr⟩ := ihr right
    exact ⟨_, .paren (.binary own (Nat.zero_le _) hlr hop hl hr)⟩
  | unary hop _ ih =>
    obtain ⟨ss, hs⟩ := ih .signed
    exact ⟨_, .paren (.sign (Nat.zero_le _) hop hs)⟩
  | update _ hop _ ih =>
    obtain ⟨ss, hs⟩ := ih .expression
    exact ⟨_, .paren (.update hop hs)⟩

theorem exists_items {inLoop : Bool} {ns : List Node}
    (h : ∀ n ∈ ns, ∃ ss, Written inLoop .statement n ss) :
    ∃ ss, Written inLoop .items (.block ns) ss := by
  induction ns with
  | nil => exact ⟨_, .nil⟩
  | cons n ns ih =>
    obtain ⟨ss, hs⟩ := h n List.mem_cons_self
    obtain ⟨us, hu⟩ := ih fun n' hn' => h n' (List.mem_cons_of_mem _ hn')
    exact ⟨_, .cons hs hu⟩

theorem exists_statement {inLoop : Bool} {n : Node} (h : n.IsStatement inLoop) :
    ∃ ss, Written inLoop .statement n ss := by
  have condition : ∀ {c : Node}, c.IsExpression → ∃ ss, Condition c ss := fun hc =>
    let ⟨_, hs⟩ := exists_expression hc .expression
    ⟨_, .intro hs⟩
  have block : ∀ {inLoop : Bool} {ns : List Node},
      (∀ n ∈ ns, ∃ ss, Written inLoop .statement n ss) →
        ∃ ss, Written inLoop .block (.block ns) ss := fun hns =>
    let ⟨_, hs⟩ := exists_items hns
    ⟨_, .block hs⟩
  induction h with
  | print he =>
    obtain ⟨ss, hs⟩ := condition he
    exact ⟨_, .print hs⟩
  | input => exact ⟨_, .input⟩
  | assign _ he =>
    obtain ⟨ss, hs⟩ := exists_expression he .expression
    exact ⟨_, .assign hs⟩
  | branch hc _ iht =>
    obtain ⟨cs, hcs⟩ := condition hc
    obtain ⟨ts, hts⟩ := block iht
    exact ⟨_, .branch hcs hts⟩
  | branchElse hc _ _ iht ihe =>
    obtain ⟨cs, hcs⟩ := condition hc
    obtain ⟨ts, hts⟩ := block iht
    obtain ⟨es, hes⟩ := block ihe
    exact ⟨_, .branchElse hcs hts hes⟩
  | loop hc _ ih =>
    obtain ⟨cs, hcs⟩ := condition hc
    obtain ⟨bs, hbs⟩ := block ih
    exact ⟨_, .loop hcs hbs⟩
  | leave => exact ⟨_, .leave⟩
  | block _ ih =>
    obtain ⟨ss, hs⟩ := block ih
    exact ⟨_, .nested hs⟩
  | evaluate he =>
    obtain ⟨ss, hs⟩ := exists_expression he .expression
    exact ⟨_, .evaluate hs⟩

/-- Every program that a text can stand for can be written. -/
theorem exists_written {n : Node} (h : n.IsProgram) : ∃ ss, Written false .program n ss := by
  cases h with
  | intro hns =>
    obtain ⟨ss, hs⟩ := exists_items fun n hn => exists_statement (hns n hn)
    exact ⟨ss, .program hs⟩

/-- The keywords, operators and brackets of programs. -/
def marks : List String :=
  keywords ++ Node.binaryOperators ++ Node.signOperators ++ Node.updateOperators.map (· ++ "=") ++
    ["(", ")", "\x7b", "\x7d", ";", "="]

theorem legible_mark {text : String} (h : text ∈ marks) : (Symbol.mark text).Legible := by
  have key : ∀ text ∈ marks, text ∈ keywords ∨ text.toList ∈ pairs ∨
      text.toList ∈ singles.map ([·]) := by decide
  rcases key text h with hk | hp | hs
  · exact .inl hk
  · exact .inr (.inl hp)
  · obtain ⟨c, hc, heq⟩ := List.mem_map.1 hs
    exact .inr (.inr ⟨c, hc, heq.symm⟩)

theorem mem_binaryOperators {own : Level} {op : String} (h : op ∈ own.operators) :
    op ∈ Node.binaryOperators := by
  cases own <;> revert op <;> decide

/-- An expression that a text can stand for is written with legible symbols. -/
theorem Expression.legible {level : Level} {n : Node} {ss : List Symbol}
    (h : Expression level n ss) (hn : n.IsExpression) : ∀ s ∈ ss, s.Legible := by
  induction h with
  | number =>
    cases hn with
    | number hl => simpa using hl
  | string =>
    cases hn with
    | string hl => simpa using hl
  | bool =>
    intro s hs
    rw [List.mem_singleton.1 hs]
    trivial
  | ident =>
    cases hn with
    | ident hl => simpa using hl
  | paren _ ih =>
    simp only [List.cons_append, List.mem_cons, List.mem_append, List.not_mem_nil, or_false]
    rintro s (rfl | hs | rfl)
    · exact legible_mark (by decide)
    · exact ih hn s hs
    · exact legible_mark (by decide)
  | sign _ hop _ ih =>
    cases hn with
    | unary _ hn =>
      refine List.forall_mem_cons.2 ⟨legible_mark ?_, ih hn⟩
      simp [marks, hop]
  | binary _ _ _ hop _ _ ihl ihr =>
    cases hn with
    | binary _ hl hr =>
      rintro s hs
      rcases List.mem_append.1 hs with hs | hs
      · exact ihl hl s hs
      · refine List.forall_mem_cons.2 ⟨legible_mark ?_, ihr hr⟩ s hs
        simp [marks, mem_binaryOperators hop]
  | update hop _ ih =>
    cases hn with
    | update hx _ hn =>
      refine List.forall_mem_cons.2 ⟨hx, List.forall_mem_cons.2 ⟨legible_mark ?_, ih hn⟩⟩
      simp only [marks, List.mem_append]
      exact .inl (.inr (List.mem_map_of_mem hop))

theorem Condition.legible {n : Node} {ss : List Symbol} (h : Condition n ss)
    (hn : n.IsExpression) : ∀ s ∈ ss, s.Legible := by
  cases h with
  | intro he => exact (Expression.paren he : Expression .expression n _).legible hn

theorem Written.exists_block {inLoop : Bool} {phrase : Phrase} {n : Node} {ss : List Symbol}
    (h : Written inLoop phrase n ss) (hp : phrase = .items ∨ phrase = .block) :
    ∃ ns, n = .block ns := by
  induction h with
  | nil => exact ⟨_, rfl⟩
  | cons => exact ⟨_, rfl⟩
  | block _ ih => exact ih (.inl rfl)
  | _ => simp at hp

/-- Whether a tree is one that a phrase of a text can stand for. -/
def Fits (inLoop : Bool) : Phrase → Node → Prop
  | .program, n => n.IsProgram
  | .items, n | .block, n | .statement, n => n.IsStatement inLoop

/-- A phrase that a text can stand for is written with legible symbols. -/
theorem Written.legible {inLoop : Bool} {phrase : Phrase} {n : Node} {ss : List Symbol}
    (h : Written inLoop phrase n ss) (hn : Fits inLoop phrase n) : ∀ s ∈ ss, s.Legible := by
  have keyword : ∀ {word : String} {ss : List Symbol}, word ∈ keywords → (∀ s ∈ ss, s.Legible) →
      ∀ s ∈ Symbol.mark word :: ss, s.Legible := fun hw hs =>
    List.forall_mem_cons.2 ⟨.inl hw, hs⟩
  induction h with
  | program _ ih =>
    cases hn with
    | intro hns => exact ih (.block hns)
  | nil => nofun
  | cons _ _ ihs ihu =>
    cases hn with
    | block hns =>
      intro s hs
      rcases List.mem_append.1 hs with hs | hs
      · exact ihs (hns _ List.mem_cons_self) s hs
      · have hu := ihu (.block fun n' hn' => hns n' (List.mem_cons_of_mem _ hn'))
        exact List.forall_mem_cons.2 ⟨legible_mark (by decide), hu⟩ s hs
  | block _ ih =>
    intro s hs
    simp only [List.cons_append, List.mem_cons, List.mem_append, List.not_mem_nil, or_false] at hs
    rcases hs with rfl | hs | rfl
    · exact legible_mark (by decide)
    · exact ih hn s hs
    · exact legible_mark (by decide)
  | print hc =>
    cases hn with
    | print he => exact keyword (by decide) (hc.legible he)
  | input =>
    cases hn with
    | input hx => exact keyword (by decide) (by simpa using hx)
  | branch hc _ iht =>
    cases hn with
    | branch he hts =>
      refine keyword (by decide) fun s hs => ?_
      rcases List.mem_append.1 hs with hs | hs
      · exact hc.legible he s hs
      · exact iht (.block hts) s hs
  | branchElse hc _ hwe iht ihe =>
    obtain ⟨es, rfl⟩ := hwe.exists_block (.inr rfl)
    cases hn with
    | branchElse he hts hes =>
      rw [List.append_assoc]
      refine keyword (by decide) fun s hs => ?_
      rcases List.mem_append.1 hs with hs | hs
      · exact hc.legible he s hs
      rcases List.mem_append.1 hs with hs | hs
      · exact iht (.block hts) s hs
      · exact keyword (by decide) (ihe (.block hes)) s hs
  | loop hc _ ih =>
    cases hn with
    | loop he hns =>
      refine keyword (by decide) fun s hs => ?_
      rcases List.mem_append.1 hs with hs | hs
      · exact hc.legible he s hs
      · exact ih (.block hns) s hs
  | leave => exact keyword (by decide) nofun
  | nested _ ih => exact ih hn
  | assign hw =>
    cases hn with
    | assign hx he =>
      refine List.forall_mem_cons.2 ⟨hx, List.forall_mem_cons.2 ⟨?_, hw.legible he⟩⟩
      exact legible_mark (by decide)
  | evaluate hw =>
    cases hn with
    | evaluate he => exact hw.legible he

end Writing

end Scriptling
