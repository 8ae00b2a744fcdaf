import Scriptling.Proofs.FailedRuns

/-!
# Where errors are placed

The error of a run stands where its text says. A variable without a value is reported at
the name that was read; any other error is reported at the first token of the innermost
statement that was under way. Both go through three stages. A token stands behind the text
that was read before it. A statement and a name in a tree are derived from a stretch of the
tokens, and have the position of its first one. And a failure gets the place of the
innermost statement, unless it came with one.
-/
namespace Scriptling

/-- A lexeme stands behind the pieces before it. -/
theorem Lexeme.exists_split_of_mem_place {p : Position} {pieces : List Piece} {l : Lexeme}
    (h : l ∈ place p pieces) : ∃ before behind, pieces = before ++ l.piece :: behind ∧
      l.position = p.after (before.flatMap Piece.text) := by
  induction pieces generalizing p with
  | nil => cases h
  | cons piece rest ih =>
    have hrest : l ∈ place (p.after piece.text) rest → ∃ before behind,
        piece :: rest = before ++ l.piece :: behind ∧
          l.position = p.after (before.flatMap Piece.text) := by
      intro h
      obtain ⟨before, behind, rfl, hl⟩ := ih h
      refine ⟨piece :: before, behind, rfl, ?_⟩
      rw [List.flatMap_cons, Position.after_append, hl]
    rw [place] at h
    split at h
    · rcases List.mem_cons.1 h with rfl | h
      · exact ⟨[], rest, rfl, rfl⟩
      · exact hrest h
    · exact hrest h

/-- The tokens of lexemes are the symbols of lexemes at their positions. -/
theorem Stream.exists_lexeme {finish : Stream} {ls : List Lexeme} {t : Token}
    (h : t ∈ (ofLexemes finish ls).tokens) :
    t ∈ finish.tokens ∨ ∃ l ∈ ls, l.symbol? = some t.symbol ∧ l.position = t.position := by
  induction ls with
  | nil => exact .inl h
  | cons l ls ih =>
    rw [ofLexemes] at h
    cases hl : l.symbol? with
    | none =>
      rw [hl] at h
      cases h
    | some s =>
      rw [hl] at h
      rcases List.mem_cons.1 h with rfl | h
      · exact .inr ⟨l, List.mem_cons_self, hl, rfl⟩
      · rcases ih h with hf | ⟨l', hl', hs⟩
        · exact .inl hf
        · exact .inr ⟨l', List.mem_cons_of_mem _ hl', hs⟩

/-- Whether a text has a token at its position: what is before it takes as many lines and
columns, and a piece that is read as the symbol follows. -/
structure Token.StandsIn (t : Token) (text : String) : Prop where
  isRead : t ∈ (tokenize text).tokens
  isWritten : ∃ before piece behind, text.toList = before ++ Piece.text piece ++ behind ∧
    t.position = Position.start.after before ∧ Lexeme.symbol? ⟨piece, t.position⟩ = some t.symbol

theorem standsIn_of_mem {text : String} {t : Token} (h : t ∈ (tokenize text).tokens)
    (hf : t.symbol.isFinish = false) : t.StandsIn text := by
  refine ⟨h, ?_⟩
  rw [tokenize_eq] at h
  rcases Stream.exists_lexeme h with hend | ⟨l, hl, hsymbol, hposition⟩
  · unfold Scan.ending at hend
    split at hend
    · cases hend
    · cases List.mem_singleton.1 hend
      cases hf
  · obtain ⟨before, behind, hpieces, hl⟩ := Lexeme.exists_split_of_mem_place hl
    refine ⟨before.flatMap Piece.text, l.piece,
      behind.flatMap Piece.text ++ (cutAll text.toList).rest, ?_, ?_, ?_⟩
    · have htext := text_append_cutAll text.toList
      rw [hpieces] at htext
      simpa using htext.symm
    · rw [← hposition, hl]
    · rw [← hposition]
      exact hsymbol

/-- A name stands in the text as it is. -/
theorem Token.StandsIn.exists_name {t : Token} {text x : String} (h : t.StandsIn text)
    (hx : t.symbol = .ident x) : ∃ before behind, text.toList = before ++ x.toList ++ behind ∧
      t.position = Position.start.after before := by
  obtain ⟨before, piece, behind, htext, hposition, hsymbol⟩ := h.isWritten
  refine ⟨before, behind, ?_, hposition⟩
  rw [hx] at hsymbol
  cases piece with
  | word word =>
    have hword : Symbol.ofWord (String.ofList word) = .ident x := Option.some.inj hsymbol
    unfold Symbol.ofWord at hword
    split_ifs at hword
    cases hword
    rw [htext, String.toList_ofList]
    rfl
  | number text =>
    obtain ⟨_, _, hnumber⟩ := Option.map_eq_some_iff.1 hsymbol
    cases hnumber
  | _ => cases hsymbol

namespace Grammar

open Descent (Level)

/-- Whether one of the tokens is the name, at its place. -/
def HasName (ts : List Token) (name : Json) (m : Mark) : Prop :=
  ∃ t ∈ ts, ∃ x, t.symbol = .ident x ∧ name = .str x ∧ m = .of t.position

theorem HasName.mono {ts us : List Token} {name : Json} {m : Mark} (h : HasName ts name m)
    (hsub : ts ⊆ us) : HasName us name m := by
  obtain ⟨t, ht, hx⟩ := h
  exact ⟨t, hsub ht, hx⟩

/-- A name that an expression reads is one of its tokens. -/
theorem Expression.hasName {level : Level} {ts : List Token} {n : Node}
    (h : Expression level ts n) {name : Json} {m : Mark} (hr : (name, m) ∈ n.reads) :
    HasName ts name m := by
  induction h with
  | tighter _ _ ih => exact ih hr
  | binary _ _ _ _ _ ihl ihr =>
    rcases List.mem_append.1 hr with hr | hr
    · exact (ihl hr).mono (List.subset_append_left _ _)
    · exact (ihr hr).mono fun t ht => by simp [ht]
  | sign _ _ _ ih => exact (ih hr).mono (List.subset_cons_self _ _)
  | update _ hx _ _ ih =>
    rcases List.mem_cons.1 hr with heq | hr
    · cases heq
      exact ⟨_, List.mem_cons_self, _, hx, rfl, rfl⟩
    · exact (ih hr).mono fun t ht => by simp [ht]
  | ident hx =>
    cases List.mem_singleton.1 hr
    exact ⟨_, List.mem_cons_self, _, hx, rfl, rfl⟩
  | paren _ _ _ ih => exact (ih hr).mono fun t ht => by simp [ht]
  | number | string | bool => cases hr

theorem Condition.hasName {ts : List Token} {n : Node} (h : Condition ts n) {name : Json}
    {m : Mark} (hr : (name, m) ∈ n.reads) : HasName ts name m := by
  cases h with
  | intro _ he _ => exact (he.hasName hr).mono fun t ht => by simp [ht]

/-- Whether a stretch of the tokens is derived as the statement. -/
def HasStatement (ts : List Token) (n : Node) : Prop :=
  ∃ inLoop us, us <:+: ts ∧ Derives inLoop .statement us n

theorem HasStatement.mono {ts us : List Token} {n : Node} (h : HasStatement ts n)
    (hin : ts <:+: us) : HasStatement us n := by
  obtain ⟨inLoop, vs, hvs, hd⟩ := h
  exact ⟨inLoop, vs, hvs.trans hin, hd⟩

namespace Derives

variable {inLoop : Bool} {phrase : Phrase} {ts : List Token} {n : Node}

/-- A name that a statement reads by itself is one of its tokens. -/
theorem hasName (h : Derives inLoop phrase ts n) {name : Json} {m : Mark}
    (hr : (name, m) ∈ n.uses) : HasName ts name m := by
  induction h with
  | program | nil | cons | input | leave => cases hr
  | semicolon _ _ ih => exact (ih hr).mono (List.subset_cons_self _ _)
  | block _ _ _ ih => exact (ih hr).mono fun t ht => by simp [ht]
  | nested _ ih => exact ih hr
  | print _ hc | branch _ hc | branchElse _ hc | loop _ hc =>
    exact (hc.hasName hr).mono fun t ht => by simp [ht]
  | assign _ _ he => exact (he.hasName hr).mono fun t ht => by simp [ht]
  | evaluate he => exact he.hasName hr

/-- The statements of a block are those directly inside of it. -/
theorem mem_nested_of_statements (h : Derives inLoop .block ts n) {child : Node}
    (hc : child ∈ n.statements) : child ∈ n.nested := by
  obtain ⟨ns, rfl⟩ := h.exists_block (.inr rfl)
  exact hc

/-- What is directly inside of a phrase is derived from a stretch of its tokens. -/
theorem hasStatement_nested (h : Derives inLoop phrase ts n) {child : Node}
    (hc : child ∈ n.nested) : HasStatement ts child := by
  induction h with
  | program _ ih => exact ih hc
  | nil | print | input | leave | assign | evaluate => cases hc
  | semicolon _ _ ih => exact (ih hc).mono (List.suffix_cons _ _).isInfix
  | cons hn _ _ ih =>
    rcases List.mem_cons.1 hc with rfl | hc
    · exact ⟨_, _, (List.prefix_append _ _).isInfix, hn⟩
    · exact (ih hc).mono (List.suffix_append _ _).isInfix
  | block _ _ _ ih => exact (ih hc).mono ⟨[_], [_], rfl⟩
  | branch _ _ ht ih =>
    rcases List.mem_append.1 hc with hc | hc
    · exact (ih (ht.mem_nested_of_statements hc)).mono (List.suffix_append _ _).isInfix
    · cases hc
  | branchElse _ _ ht _ he iht ihe =>
    rcases List.mem_append.1 hc with hc | hc
    · exact (iht (ht.mem_nested_of_statements hc)).mono ⟨_, _, rfl⟩
    · exact (ihe (he.mem_nested_of_statements hc)).mono
        ((List.suffix_cons _ _).trans (List.suffix_append _ _)).isInfix
  | loop _ _ hb ih =>
    exact (ih (hb.mem_nested_of_statements hc)).mono (List.suffix_append _ _).isInfix
  | nested _ ih => exact ih hc

/-- What is inside of a statement is derived from a stretch of its tokens. -/
theorem hasStatement_enclosed {inner : Node} {outer : List Node} (he : n.Encloses inner outer)
    (h : Derives inLoop .statement ts n) : HasStatement ts inner := by
  induction he generalizing inLoop ts with
  | refl => exact ⟨_, _, List.infix_rfl, h⟩
  | nested hchild _ ih =>
    obtain ⟨b, us, hus, hd⟩ := h.hasStatement_nested hchild
    exact (ih hd).mono hus

/-- A statement that is not a block has the position of its first token. -/
theorem mark_eq (h : Derives inLoop .statement ts n) :
    (∃ ns, n = .block ns) ∨ ∃ t us, ts = t :: us ∧ n.mark = .of t.position := by
  cases h with
  | nested hb => exact .inl (hb.exists_block (.inr rfl))
  | _ => exact .inr ⟨_, _, rfl, rfl⟩

end Derives
end Grammar

/-- A statement inside of a parsed program is derived from a stretch of the tokens. -/
theorem Node.Encloses.exists_derives {n inner : Node} {outer : List Node}
    (he : n.Encloses inner outer) {f : FrontEnd} {text : String} {program : Node}
    (hparse : f.parse text = .ok program) (hn : n ∈ program.nested) :
    ∃ inLoop ts p us, tokenize text = .whole ts p ∧ us <:+: ts ∧
      Grammar.Derives inLoop .statement us inner ∧ ∀ t ∈ us, t.StandsIn text := by
  obtain ⟨ts, p, hts, hlegible, hd⟩ := FrontEnd.derives_of_parse hparse
  obtain ⟨_, vs, hvs, hdn⟩ := hd.hasStatement_nested hn
  obtain ⟨inLoop, us, hus, hdi⟩ := (hdn.hasStatement_enclosed he).mono hvs
  refine ⟨inLoop, ts, p, us, hts, hus, hdi, fun t ht => ?_⟩
  have hmem := hus.subset ht
  refine standsIn_of_mem ?_ (Symbol.Legible.isFinish (hlegible t hmem))
  rw [hts]
  exact List.mem_append_left _ hmem

theorem Node.innermostMark_cons {n : Node} {outer : List Node} (h : n.mark.isKnown = true) :
    innermostMark (n :: outer) = n.mark := by
  simp [innermostMark, h]

/-- Whether a statement is read from tokens of the text that begin with the given one. -/
def Node.IsReadAt (n : Node) (text : String) (t : Token) : Prop :=
  ∃ inLoop ts p us, tokenize text = .whole ts p ∧ t :: us <:+: ts ∧
    Grammar.Derives inLoop .statement (t :: us) n

open BigStep

/-- What is promised of the statement that gives an error its place, if the statements `ns` of
a text are executed in the world `w`. -/
structure GivesPlace (limit : Limit) (text : String) (ns : List Node) (w : World) (n : Node)
    (e : Error) : Prop where
  kind : n.kind ∈ ["PrintStmt", "InputStmt", "Assign", "IfStmt", "WhileStmt", "ExprStmt"]
  /-- It is the innermost statement under way. -/
  innermost : ∃ outer, FailsAmid limit ns w (n :: outer) (.ofCause e.cause)
  /-- The error has arisen in the statement itself, such as in its condition. -/
  arises : Arises limit n (.ofCause e.cause)
  /-- An iteration too many is one of the loop. -/
  loop : e.cause.family = .iterationLimit → n.kind = "WhileStmt"
  /-- The error stands at the first token of the statement. -/
  mark : ∃ t, n.IsReadAt text t ∧ t.StandsIn text ∧ e.mark = .of t.position

/-- Failures arise in these statements only, and not in a block or a `break`. -/
theorem BigStep.Arises.kind_mem {limit : Limit} {n : Node} {f : Failure} (h : Arises limit n f) :
    n.kind ∈ ["PrintStmt", "InputStmt", "Assign", "IfStmt", "WhileStmt", "ExprStmt"] := by
  cases h <;> simp [Node.kind]

/-- A run of a parsed program that ends with an error ends at a place of the text. A variable
without a value is named there, in full. Any other error, nesting apart, has the place of
the innermost statement that was under way when it arose. -/
theorem errors_are_placed {f : FrontEnd} {text : String} {program : Node}
    (hparse : f.parse text = .ok program) {settings : Settings} {steps depth : Nat}
    {s s' : State} {e : Error}
    (hrun : runWithin settings steps depth program s = .error (.failure (.error e)) s') :
    (∀ x, e.cause = .undefinedVariable x →
      ∃ t ∈ (tokenize text).tokens, t.symbol = .ident x ∧ e.mark = .of t.position ∧
        ∃ before behind, text.toList = before ++ x.toList ++ behind ∧
          t.position = Position.start.after before) ∧
    ((∀ x, e.cause ≠ .undefinedVariable x) → e.cause.isNesting = false →
      ∃ n, GivesPlace settings.limit text program.nested ⟨s.toBuffer, .empty, 0⟩ n e) := by
  rcases exists_origin_of_run hparse hrun with
    hf | ⟨n, outer, f₀, hfails, ⟨child, hchild, hencloses⟩, harises, hf⟩
  · cases hf
    exact ⟨nofun, nofun⟩
  obtain ⟨inLoop, ts, p, us, hts, hus, hd, hstands⟩ := hencloses.exists_derives hparse hchild
  cases f₀ with
  | fault g => cases hf
  | error e₀ =>
    cases hf
    rcases harises.error_cases with ⟨name, x, hmem, hname, hcause⟩ | ⟨he, _, hfamily, hloop⟩
    · obtain ⟨t, ht, y, hy, rfl, hm⟩ := hd.hasName hmem
      cases hname
      refine ⟨fun z hz => ⟨t, (hstands t ht).isRead, ?_⟩, fun h => absurd hcause (h y)⟩
      cases hcause.symm.trans hz
      refine ⟨hy, ?_, (hstands t ht).exists_name hy⟩
      -- The error came with its place and keeps it.
      change e₀.mark.orElse _ = _
      simp [hm, Mark.orElse]
    · refine ⟨fun y hy => absurd (congrArg Cause.family hy) hfamily, fun _ _ => ⟨n, ?_⟩⟩
      rcases hd.mark_eq with ⟨ns, rfl⟩ | ⟨t, us', rfl, hmark⟩
      · cases harises
      rw [he] at hfails harises
      refine ⟨harises.kind_mem, ⟨outer, hfails⟩, harises, hloop,
        t, ⟨inLoop, ts, p, us', hts, hus, hd⟩, hstands t List.mem_cons_self, ?_⟩
      -- The error had no place, and the innermost statement has one.
      change e₀.mark.orElse _ = _
      rw [Node.innermostMark_cons (hmark ▸ rfl), hmark, he]
      rfl

/-- A condition that is no truth value, in a loop. -/
def conditionText : String := "while (true) \x7b\n  if (1) \x7b \x7d\n\x7d"

def conditionTree : Node :=
  .program [.loop (.bool true)
    (.block [.branch (.number 1) (.block []) .absent (.of ⟨2, 3⟩)]) (.of ⟨1, 1⟩)]

/-- A variable without a value, behind one that has one. -/
def unboundText : String := "x = 1;\nprint(x + y)"

def unboundTree : Node :=
  .program [.assign (.str "x") (.number 1) (.of ⟨1, 1⟩),
    .print (.binary (.str "+") (.ident (.str "x") (.of ⟨2, 7⟩)) (.ident (.str "y") (.of ⟨2, 11⟩)))
      (.of ⟨2, 1⟩)]

theorem conditionText_and_unboundText_placed :
    (FrontEnd.parse .descent conditionText = .ok conditionTree ∧
      ∃ s', runWithin ⟨0, .atMost 5⟩ 6 walkingDepth conditionTree (.initial ⟨[], #[]⟩) =
          .error (.failure (.error ⟨.condition "if" "Number", .of ⟨2, 3⟩⟩)) s' ∧
        ∃ n, GivesPlace (.atMost 5) conditionText conditionTree.nested ⟨⟨[], #[]⟩, .empty, 0⟩ n
          ⟨.condition "if" "Number", .of ⟨2, 3⟩⟩) ∧
    FrontEnd.parse .descent unboundText = .ok unboundTree ∧
      ∃ s', runWithin ⟨0, .unlimited⟩ 1 walkingDepth unboundTree (.initial ⟨[], #[]⟩) =
          .error (.failure (.error ⟨.undefinedVariable "y", .of ⟨2, 11⟩⟩)) s' ∧
        ∃ t ∈ (tokenize unboundText).tokens, t.symbol = .ident "y" ∧
          Mark.of ⟨2, 11⟩ = .of t.position := by
  have hcondition : FrontEnd.parse .descent conditionText = .ok conditionTree := rfl
  have hunbound : FrontEnd.parse .descent unboundText = .ok unboundTree := rfl
  obtain ⟨s₁, hrun₁⟩ : ∃ s', runWithin ⟨0, .atMost 5⟩ 6 walkingDepth conditionTree
      (.initial ⟨[], #[]⟩) =
        .error (.failure (.error ⟨.condition "if" "Number", .of ⟨2, 3⟩⟩)) s' := ⟨_, rfl⟩
  obtain ⟨s₂, hrun₂⟩ : ∃ s', runWithin ⟨0, .unlimited⟩ 1 walkingDepth unboundTree
      (.initial ⟨[], #[]⟩) =
        .error (.failure (.error ⟨.undefinedVariable "y", .of ⟨2, 11⟩⟩)) s' := ⟨_, rfl⟩
  obtain ⟨t, ht, hname, hmark, _⟩ := (errors_are_placed hunbound hrun₂).1 "y" rfl
  exact ⟨⟨hcondition, s₁, hrun₁, (errors_are_placed hcondition hrun₁).2 nofun rfl⟩,
    hunbound, s₂, hrun₂, t, ht, hname, hmark⟩

end Scriptling
