import Scriptling.Proofs.Absorption
import Scriptling.Proofs.ViablePrefix

/-!
# Programs behind programs

Two programs with a semicolon between them are a program of the statements of both, and so are
two programs without one, unless the first ends with an operand and the second begins with a
minus. Then the first statement of the second program becomes part of the last expression of
the first. A tree has the symbols of its tokens in their order, apart from brackets,
semicolons and `else`; hence the symbols of the expression that arises are those of the two
that it is made of.
-/
namespace Scriptling

/-- The symbols that leave nothing in a tree. -/
def Symbol.isPunctuation (s : Symbol) : Bool :=
  ["(", ")", "\x7b", "\x7d", ";", "else"].any (s.isMark ·)

namespace Node

/-- The text of a name or an operator. -/
def textOf : Json → String
  | .str s => s
  | _ => ""

mutual

/-- The symbols of a tree in the order of the text. -/
def symbols : Node → List Symbol
  | .absent => []
  | .program body => symbolsOfAll body
  | .block statements => symbolsOfAll statements
  | .print value _ => .mark "print" :: value.symbols
  | .input name _ => [.mark "input", .ident (textOf name)]
  | .assign name value _ => .ident (textOf name) :: .mark "=" :: value.symbols
  | .branch condition thenBlock elseBlock _ =>
    .mark "if" :: (condition.symbols ++ thenBlock.symbols ++ elseBlock.symbols)
  | .loop condition body _ => .mark "while" :: (condition.symbols ++ body.symbols)
  | .leave _ => [.mark "break"]
  | .evaluate value _ => value.symbols
  | .number x => [.number x]
  | .string s => [.string s]
  | .bool b => [.bool b]
  | .ident name _ => [.ident (textOf name)]
  | .binary op left right => left.symbols ++ .mark (textOf op) :: right.symbols
  | .unary op operand => .mark (textOf op) :: operand.symbols
  | .update name op value _ =>
    .ident (textOf name) :: .mark (textOf op ++ "=") :: value.symbols

def symbolsOfAll : List Node → List Symbol
  | [] => []
  | n :: rest => n.symbols ++ symbolsOfAll rest

end

theorem symbolsOfAll_append (ns ns' : List Node) :
    symbolsOfAll (ns ++ ns') = symbolsOfAll ns ++ symbolsOfAll ns' := by
  induction ns with
  | nil => rfl
  | cons n ns ih => rw [List.cons_append, symbolsOfAll, symbolsOfAll, ih, List.append_assoc]

end Node

/-- The symbols of tokens that leave something in a tree. -/
def Token.written (ts : List Token) : List Symbol :=
  (ts.map (·.symbol)).filter (!·.isPunctuation)

namespace Token

@[simp] theorem written_append (ts us : List Token) :
    written (ts ++ us) = written ts ++ written us := by
  simp [written]

theorem written_cons {t : Token} {s : Symbol} (h : t.symbol = s)
    (hs : s.isPunctuation = false) (ts : List Token) : written (t :: ts) = s :: written ts := by
  simp [written, h, hs]

theorem written_punctuation {t : Token} {s : Symbol} (h : t.symbol = s)
    (hs : s.isPunctuation = true) (ts : List Token) : written (t :: ts) = written ts := by
  simp [written, h, hs]

end Token

namespace Grammar

open Token Node
open Descent (Level)

theorem isPunctuation_of_operators (level : Level) :
    ∀ op ∈ level.operators, (Symbol.mark op).isPunctuation = false := by
  cases level <;> decide

theorem Expression.written_eq {level : Level} {ts : List Token} {n : Node}
    (h : Expression level ts n) : written ts = n.symbols := by
  induction h with
  | tighter _ _ ih => exact ih
  | @binary level _ _ _ _ t op l r _ hop ht _ _ ihl ihr =>
    rw [written_append, written_cons ht (isPunctuation_of_operators level op hop), ihl, ihr]
    rfl
  | @sign t op ts n hop ht _ ih =>
    have hsign : ∀ op ∈ ["-", "!"], (Symbol.mark op).isPunctuation = false := by decide
    rw [written_cons ht (hsign op hop), ih]
    rfl
  | @update t u x op ts n hop ht hu _ ih =>
    have hupdate : ∀ op ∈ ["+", "-", "*", "/", "%"],
        (Symbol.mark (op ++ "=")).isPunctuation = false := by decide
    rw [written_cons ht rfl, written_cons hu (hupdate op hop), ih]
    rfl
  | number ht | string ht | bool ht | ident ht => exact written_cons ht rfl []
  | paren ht _ hu ih =>
    rw [List.cons_append, written_punctuation ht rfl, written_append, written_punctuation hu rfl,
      ih]
    exact List.append_nil _

theorem Condition.written_eq {ts : List Token} {n : Node} (h : Condition ts n) :
    written ts = n.symbols := by
  obtain ⟨ht, he, hu⟩ := h
  exact (Expression.paren ht he hu).written_eq

/-- A tree has the symbols of the tokens that it was read from. -/
theorem Derives.written_eq {inLoop : Bool} {phrase : Phrase} {ts : List Token} {n : Node}
    (h : Derives inLoop phrase ts n) : written ts = n.symbols := by
  induction h with
  | program _ ih => exact ih
  | nil => rfl
  | semicolon ht _ ih => rw [written_punctuation ht rfl, ih]
  | cons _ _ ihn ihs =>
    rw [written_append, ihn, ihs]
    rfl
  | block ht _ hu ih =>
    rw [List.cons_append, written_punctuation ht rfl, written_append, written_punctuation hu rfl,
      ih]
    exact List.append_nil _
  | print ht hc =>
    rw [written_cons ht rfl, hc.written_eq]
    rfl
  | input ht hu =>
    rw [written_cons ht rfl, written_cons hu rfl]
    rfl
  | branch ht hc _ ih =>
    rw [List.cons_append, written_cons ht rfl, written_append, hc.written_eq, ih]
    simp [symbols]
  | branchElse ht hc _ hu _ iht ihe =>
    rw [List.cons_append, List.cons_append, written_cons ht rfl, written_append, written_append,
      written_punctuation hu rfl, hc.written_eq, iht, ihe]
    rfl
  | loop ht hc _ ih =>
    rw [List.cons_append, written_cons ht rfl, written_append, hc.written_eq, ih]
    rfl
  | leave ht => exact written_cons ht rfl []
  | nested _ ih => exact ih
  | assign ht hu he =>
    rw [written_cons ht rfl, written_cons hu rfl, he.written_eq]
    rfl
  | evaluate he => exact he.written_eq

end Grammar

namespace Descent

open ShiftReduce Grammar

/-- Whether tokens are a program of the given statements: they are read as such wherever the end
stands, within every budget that is large enough, and within a smaller one unless that is too
small. -/
def AcceptsAs (ts : List Token) (ns : List Node) : Prop :=
  (∀ t ∈ ts, t.symbol.isFinish = false) ∧ ∃ enough, ∀ budget p,
    enough ≤ budget ∨ (program budget).run' (.whole ts p) ≠ .error tooDeep →
      (program budget).run' (.whole ts p) = .ok (.program ns)

theorem builds_of_program {budget : Nat} {ts : List Token} {p : Position} {ns : List Node}
    (hts : ∀ t ∈ ts, t.symbol.isFinish = false)
    (h : (program budget).run' (.whole ts p) = .ok (.program ns)) : Machine.Builds ts ns := by
  obtain ⟨g, hverdict, hnode⟩ := verdict_of_program_eq_ok (Stream.closed_whole ts p) h
  obtain ⟨m, hm, hfinish⟩ := Machine.exists_readAll_of_verdict hts hverdict
  have hfinal : m.outline.isFinal = true := by
    rw [← Machine.isSome_finish, hfinish]
    rfl
  refine ⟨m, hm, hfinal, ?_⟩
  cases hfinish.symm.trans (Machine.final_of_isFinal hfinal).toOption_finish
  exact Node.program.inj hnode

theorem AcceptsAs.of_builds {ts : List Token} {ns : List Node} (h : Machine.Builds ts ns) :
    AcceptsAs ts ns := by
  obtain ⟨m, hm, hfinal, rfl⟩ := h
  have hrun : Outline.start.run ts = some m.outline := by
    have := Machine.outline_readAll .start ts
    rw [hm] at this
    exact this.symm
  refine ⟨Outline.isFinish_of_run hrun, 12 * (ts.length + 1) + 11, fun budget p hbudget => ?_⟩
  have hverdict := Machine.verdict_of_readAll hm [⟨.finish, p⟩] none
  rw [Machine.verdict_finish rfl, Machine.close,
    (Machine.final_of_isFinal hfinal).toOption_finish] at hverdict
  refine program_eq_ok_of_verdict (Stream.closed_whole ts p) (fun hsmall => ?_) hverdict
  refine hbudget.resolve_left fun henough => ?_
  simp only [Stream.whole, List.length_append, List.length_singleton] at hsmall
  omega

theorem written_of_builds {ts : List Token} {ns : List Node} (h : Machine.Builds ts ns) :
    Token.written ts = Node.symbolsOfAll ns := by
  obtain ⟨hts, enough, haccepts⟩ := AcceptsAs.of_builds h
  have hprogram := haccepts enough .start (.inl (Nat.le_refl enough))
  exact (derives_of_program_eq_ok hts hprogram).written_eq

def BeginsWithMinus (ts : List Token) : Prop := ∃ t ∈ ts.head?, t.symbol = .mark "-"

/-- What becomes of two programs if the first statement of the second one is absorbed into the
last expression of the first one. Both have the tokens that they have alone, and the symbols
of the expression that arises are those of the two expressions. -/
inductive Absorbed (ts₁ : List Token) (ns₁ : List Node) (ts₂ : List Token) (ns₂ : List Node) :
    List Node → Prop where
  | intro {before after : List Node} {statement : Node → Node} {e e' f : Node} {m : Mark}
    {fs gs : List Token} : Node.EndsInValue statement → ns₁ = before ++ [statement e] →
    ns₂ = .evaluate f m :: after → ts₂ = fs ++ gs → AcceptsAs fs [.evaluate f m] →
    AcceptsAs gs after → AcceptsAs (ts₁ ++ fs) (before ++ [statement e']) →
    e'.symbols = e.symbols ++ f.symbols →
    Absorbed ts₁ ns₁ ts₂ ns₂ (before ++ statement e' :: after)

theorem Absorbed.length_eq {ts₁ ts₂ : List Token} {ns₁ ns₂ ns : List Node}
    (h : Absorbed ts₁ ns₁ ts₂ ns₂ ns) : ns.length + 1 = ns₁.length + ns₂.length := by
  cases h with
  | intro _ h₁ h₂ =>
    subst h₁ h₂
    simp only [List.length_append, List.length_cons, List.length_nil]
    omega

section Append

variable {ts₁ ts₂ : List Token} {ns₁ ns₂ : List Node}

theorem separate_of_builds {m : Machine} {ts : List Token} {ns : List Node}
    (h : Machine.Builds ts ns) (hseam : ¬ (m.control.hasOperand = true ∧ BeginsWithMinus ts)) :
    ∀ t ∈ ts.head?, m.Separate t := by
  intro t ht
  cases ts with
  | nil => cases ht
  | cons u ts =>
    cases ht
    obtain ⟨_, hread, -, -⟩ := h
    obtain ⟨next, hread, -⟩ := Option.bind_eq_some_iff.1 hread
    obtain ⟨k, hk, hbegin⟩ := Machine.terminal_of_start hread
    refine ⟨k, hk, hbegin, ?_⟩
    rintro ⟨hoperand, rfl⟩
    have hminus := (Token.terminal?_eq_iff (by decide : Terminal.ofMark? "-" = some .minus)).1 hk
    exact hseam ⟨hoperand, t, rfl, hminus⟩

theorem builds_append (h₁ : Machine.Builds ts₁ ns₁) (h₂ : Machine.Builds ts₂ ns₂)
    (hseam : ¬ (EndsInExpression ts₁ ns₁ ∧ BeginsWithMinus ts₂)) :
    Machine.Builds (ts₁ ++ ts₂) (ns₁ ++ ns₂) := by
  obtain ⟨m, hm, hfinal, rfl⟩ := h₁
  refine Machine.Builds.append hm hfinal rfl h₂ (separate_of_builds h₂ ?_)
  rwa [Machine.hasOperand_iff hm hfinal]

theorem builds_semicolons {ts : List Token} (hts : ∀ t ∈ ts, t.symbol = .mark ";") :
    Machine.Builds ts [] := by
  induction ts with
  | nil => exact ⟨.start, rfl, rfl, rfl⟩
  | cons t ts ih =>
    have hread : Machine.start.read t = .ok ⟨[], [], .boundary .separator⟩ :=
      Machine.read_mark .semicolon (hts t List.mem_cons_self) (by decide) (by decide) rfl
    have hfirst : Machine.Builds [t] [] := by
      refine ⟨⟨[], [], .boundary .separator⟩, ?_, rfl, rfl⟩
      rw [Machine.readAll, hread]
      rfl
    refine builds_append hfirst (ih fun u hu => hts u (List.mem_cons_of_mem _ hu)) ?_
    rintro ⟨⟨-, -, n, hn, -⟩, -⟩
    cases hn

/-- Semicolons separate programs, whatever these are. -/
theorem builds_append_semicolons (h₁ : Machine.Builds ts₁ ns₁) (h₂ : Machine.Builds ts₂ ns₂)
    {semicolons : List Token} (hne : semicolons ≠ [])
    (hsemicolons : ∀ t ∈ semicolons, t.symbol = .mark ";") :
    Machine.Builds (ts₁ ++ semicolons ++ ts₂) (ns₁ ++ ns₂) := by
  have hbegins : ¬ BeginsWithMinus semicolons := by
    rintro ⟨t, ht, hminus⟩
    have heq := (hsemicolons t (List.mem_of_mem_head? ht)).symm.trans hminus
    exact absurd (Symbol.mark.inj heq) (by decide)
  have hfront : Machine.Builds (ts₁ ++ semicolons) (ns₁ ++ []) :=
    builds_append h₁ (builds_semicolons hsemicolons) fun h => hbegins h.2
  rw [List.append_nil] at hfront
  refine builds_append hfront h₂ ?_
  rintro ⟨⟨-, hlast, -⟩, -⟩
  obtain ⟨t, ht⟩ : ∃ t, semicolons.getLast? = some t :=
    ⟨_, List.getLast?_eq_some_getLast hne⟩
  refine hlast t ?_ (hsemicolons t (List.mem_of_getLast? ht))
  rw [List.getLast?_append, ht]
  rfl

theorem exists_absorbed (h₁ : Machine.Builds ts₁ ns₁) (h₂ : Machine.Builds ts₂ ns₂)
    (hexpression : EndsInExpression ts₁ ns₁) (hminus : BeginsWithMinus ts₂) :
    ∃ ns, AcceptsAs (ts₁ ++ ts₂) ns ∧ Absorbed ts₁ ns₁ ts₂ ns₂ ns := by
  obtain ⟨t, ht, hsymbol⟩ := hminus
  cases ts₂ with
  | nil => cases ht
  | cons u us =>
    cases ht
    have hwritten₁ := written_of_builds h₁
    obtain ⟨m, hm, hfinal, rfl⟩ := h₁
    obtain ⟨before, s, e, e', f, fs, gs, after, hs, hns₁, rfl, rfl, hfs, hgs, hmerged, hwhole⟩ :=
      Machine.Builds.absorb hm hfinal ((Machine.hasOperand_iff hm hfinal).2 hexpression) hsymbol h₂
    refine ⟨_, .of_builds hwhole, .intro hs hns₁ rfl rfl (.of_builds hfs) (.of_builds hgs)
      (.of_builds hmerged) ?_⟩
    have hwritten := written_of_builds hmerged
    rw [Token.written_append, hwritten₁, written_of_builds hfs, hns₁, Node.symbolsOfAll_append,
      Node.symbolsOfAll_append, List.append_assoc, List.append_cancel_left_eq] at hwritten
    cases hs with
    | assign x m => simpa [Node.symbolsOfAll, Node.symbols] using hwritten.symm
    | evaluate m => simpa [Node.symbolsOfAll, Node.symbols] using hwritten.symm

end Append

/-- Programs are closed under concatenation, the limit on nesting aside. With semicolons between
them, two programs are one of the statements of both. Without semicolons they are as well,
unless the first one is not empty, does not end with a semicolon, has an assignment or an
expression as its last statement, and the second one begins with a minus. Then they are a
program with one statement less, in which the first statement of the second program is
absorbed into the last expression of the first one. -/
theorem program_append {ts₁ ts₂ : List Token} {ns₁ ns₂ : List Node} {b₁ b₂ : Nat}
    {p₁ p₂ : Position} (hts₁ : ∀ t ∈ ts₁, t.symbol.isFinish = false)
    (hts₂ : ∀ t ∈ ts₂, t.symbol.isFinish = false)
    (h₁ : (program b₁).run' (.whole ts₁ p₁) = .ok (.program ns₁))
    (h₂ : (program b₂).run' (.whole ts₂ p₂) = .ok (.program ns₂)) :
    (∀ semicolons : List Token, semicolons ≠ [] → (∀ t ∈ semicolons, t.symbol = .mark ";") →
      AcceptsAs (ts₁ ++ semicolons ++ ts₂) (ns₁ ++ ns₂)) ∧
    (¬ (EndsInExpression ts₁ ns₁ ∧ BeginsWithMinus ts₂) →
      AcceptsAs (ts₁ ++ ts₂) (ns₁ ++ ns₂)) ∧
    (EndsInExpression ts₁ ns₁ ∧ BeginsWithMinus ts₂ →
      ∃ ns, AcceptsAs (ts₁ ++ ts₂) ns ∧ ns.length + 1 = ns₁.length + ns₂.length ∧
        Absorbed ts₁ ns₁ ts₂ ns₂ ns) := by
  have hb₁ := builds_of_program hts₁ h₁
  have hb₂ := builds_of_program hts₂ h₂
  refine ⟨fun semicolons hne hall => ?_, fun hseam => ?_, fun hseam => ?_⟩
  · exact .of_builds (builds_append_semicolons hb₁ hb₂ hne hall)
  · exact .of_builds (builds_append hb₁ hb₂ hseam)
  · obtain ⟨ns, haccepts, habsorbed⟩ := exists_absorbed hb₁ hb₂ hseam.1 hseam.2
    exact ⟨ns, haccepts, habsorbed.length_eq, habsorbed⟩

/-- The tokens of `x = a`. -/
def openTokens : List Token :=
  [⟨.ident "x", ⟨1, 1⟩⟩, ⟨.mark "=", ⟨1, 3⟩⟩, ⟨.ident "a", ⟨1, 5⟩⟩]

/-- The tokens of `- b += c y`, which are two statements. -/
def minusTokens : List Token :=
  [⟨.mark "-", ⟨2, 1⟩⟩, ⟨.ident "b", ⟨2, 3⟩⟩, ⟨.mark "+=", ⟨2, 5⟩⟩, ⟨.ident "c", ⟨2, 8⟩⟩,
    ⟨.ident "y", ⟨2, 10⟩⟩]

def openStatements : List Node :=
  [.assign (.str "x") (.ident (.str "a") (.of ⟨1, 5⟩)) (.of ⟨1, 1⟩)]

def minusStatements : List Node :=
  [.evaluate (.unary (.str "-") (.update (.str "b") (.str "+") (.ident (.str "c") (.of ⟨2, 8⟩))
    (.of ⟨2, 3⟩))) (.of ⟨2, 1⟩), .evaluate (.ident (.str "y") (.of ⟨2, 10⟩)) (.of ⟨2, 10⟩)]

theorem program_append_minus :
    (program 40).run' (.whole openTokens ⟨1, 6⟩) = .ok (.program openStatements) ∧
      (program 40).run' (.whole minusTokens ⟨2, 11⟩) = .ok (.program minusStatements) ∧
      AcceptsAs (openTokens ++ [⟨.mark ";", ⟨1, 6⟩⟩] ++ minusTokens)
        (openStatements ++ minusStatements) ∧
      ∃ ns, AcceptsAs (openTokens ++ minusTokens) ns ∧ ns.length + 1 = 3 ∧
        Absorbed openTokens openStatements minusTokens minusStatements ns := by
  have h₁ : (program 40).run' (.whole openTokens ⟨1, 6⟩) = .ok (.program openStatements) := rfl
  have h₂ : (program 40).run' (.whole minusTokens ⟨2, 11⟩) = .ok (.program minusStatements) := rfl
  obtain ⟨hsemicolon, -, hminus⟩ := program_append (by decide) (by decide) h₁ h₂
  refine ⟨h₁, h₂, hsemicolon [⟨.mark ";", ⟨1, 6⟩⟩] (by simp) (by simp), hminus ⟨?_, ?_⟩⟩
  · exact ⟨by simp [openTokens], by simp [openTokens], _, rfl, rfl⟩
  · exact ⟨_, rfl, rfl⟩

end Descent
end Scriptling
