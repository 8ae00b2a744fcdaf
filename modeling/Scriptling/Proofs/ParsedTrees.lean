import Scriptling.Proofs.FrontEnds
import Scriptling.Proofs.Writing

/-!
# Parsed trees

Whatever a front end accepts has been derived from the tokens of the text, all of which
are legible. So its tree is a program that a text can stand for: operators, names and
blocks are where they belong, and a `break` stands in a loop.
-/
namespace Scriptling

namespace Grammar

open Descent (Level)

/-- Legible tokens are derived as an expression that a text can stand for. -/
theorem Expression.isExpression {level : Level} {ts : List Token} {n : Node}
    (h : Expression level ts n) (hts : ∀ t ∈ ts, t.symbol.Legible) : n.IsExpression := by
  induction h with
  | tighter _ _ ih => exact ih hts
  | binary _ hop _ _ _ ihl ihr =>
    refine .binary (Writing.mem_binaryOperators hop) (ihl fun t ht => hts t ?_)
      (ihr fun t ht => hts t ?_) <;> simp [ht]
  | sign hop _ _ ih => exact .unary hop (ih fun t ht => hts t (List.mem_cons_of_mem _ ht))
  | update hop hx _ _ ih =>
    refine .update (hx ▸ hts _ List.mem_cons_self) hop (ih fun t ht => hts t ?_)
    simp [ht]
  | number hx => exact .number (hx ▸ hts _ List.mem_cons_self)
  | string hx => exact .string (hx ▸ hts _ List.mem_cons_self)
  | bool => exact .bool
  | ident hx => exact .ident (hx ▸ hts _ List.mem_cons_self)
  | paren _ _ _ ih =>
    refine ih fun t ht => hts t ?_
    simp [ht]

theorem Condition.isExpression {ts : List Token} {n : Node} (h : Condition ts n)
    (hts : ∀ t ∈ ts, t.symbol.Legible) : n.IsExpression := by
  cases h with
  | intro _ he _ =>
    refine he.isExpression fun t ht => hts t ?_
    simp [ht]

theorem Derives.exists_block {inLoop : Bool} {phrase : Phrase} {ts : List Token} {n : Node}
    (h : Derives inLoop phrase ts n) (hp : phrase = .items ∨ phrase = .block) :
    ∃ ns, n = .block ns := by
  induction h with
  | nil => exact ⟨_, rfl⟩
  | cons => exact ⟨_, rfl⟩
  | semicolon _ _ ih => exact ih (.inl rfl)
  | block _ _ _ ih => exact ih (.inl rfl)
  | _ => simp at hp

/-- The statements of a tree that is a block and a statement. -/
theorem statements_of_block {inLoop : Bool} {ns : List Node}
    (h : Node.IsStatement inLoop (.block ns)) : ∀ n ∈ ns, n.IsStatement inLoop := by
  cases h with
  | block hns => exact hns

/-- Legible tokens are derived as a phrase that a text can stand for. -/
theorem Derives.fits {inLoop : Bool} {phrase : Phrase} {ts : List Token} {n : Node}
    (h : Derives inLoop phrase ts n) (hts : ∀ t ∈ ts, t.symbol.Legible)
    (hp : phrase = .program → inLoop = false) : Writing.Fits inLoop phrase n := by
  induction h with
  | program _ ih =>
    cases hp rfl
    exact .intro (statements_of_block (ih hts nofun))
  | nil => exact .block nofun
  | semicolon _ _ ih => exact ih (fun t ht => hts t (List.mem_cons_of_mem _ ht)) nofun
  | cons _ _ ihn ihns =>
    have hn := ihn (fun t ht => hts t (List.mem_append_left _ ht)) nofun
    have hns := ihns (fun t ht => hts t (List.mem_append_right _ ht)) nofun
    exact .block (List.forall_mem_cons.2 ⟨hn, statements_of_block hns⟩)
  | block _ _ _ ih => exact ih (fun t ht => hts t (by simp [ht])) nofun
  | print _ hc => exact .print (hc.isExpression fun t ht => hts t (List.mem_cons_of_mem _ ht))
  | input _ hx => exact .input (hx ▸ hts _ (by simp))
  | branch _ hc ht iht =>
    obtain ⟨ns, rfl⟩ := ht.exists_block (.inr rfl)
    exact .branch (hc.isExpression fun t ht => hts t (by simp [ht]))
      (statements_of_block (iht (fun t ht => hts t (by simp [ht])) nofun))
  | branchElse _ hc ht _ he iht ihe =>
    obtain ⟨ns, rfl⟩ := ht.exists_block (.inr rfl)
    obtain ⟨es, rfl⟩ := he.exists_block (.inr rfl)
    exact .branchElse (hc.isExpression fun t ht => hts t (by simp [ht]))
      (statements_of_block (iht (fun t ht => hts t (by simp [ht])) nofun))
      (statements_of_block (ihe (fun t ht => hts t (by simp [ht])) nofun))
  | loop _ hc hb ih =>
    obtain ⟨ns, rfl⟩ := hb.exists_block (.inr rfl)
    exact .loop (hc.isExpression fun t ht => hts t (by simp [ht]))
      (statements_of_block (ih (fun t ht => hts t (by simp [ht])) nofun))
  | leave => exact .leave
  | nested _ ih => exact ih hts nofun
  | assign hx _ he =>
    exact .assign (hx ▸ hts _ List.mem_cons_self) (he.isExpression fun t ht => hts t (by simp [ht]))
  | evaluate he => exact .evaluate (he.isExpression hts)

end Grammar

open ShiftReduce

/-- What a front end accepts is what the machine makes of the tokens. -/
theorem FrontEnd.verdict_of_parse {f : FrontEnd} {text : String} {n : Node}
    (h : f.parse text = .ok n) :
    ∃ g, Machine.start.verdict (tokenize text) = .ok g ∧ g.node = n := by
  cases f with
  | descent => exact Descent.verdict_of_program_eq_ok (closed_tokenize text) h
  | grammar =>
    have ho : Outcome _ _ (.ok n) := h ▸ verdict_outcome fun e he => by cases h.symm.trans he
    cases hv : Machine.start.verdict (tokenize text) with
    | error e =>
      rw [hv] at ho
      cases ho
    | ok g =>
      rw [hv] at ho
      generalize hd : Except.map _ _ = d at ho
      cases ho with
      | accepted =>
        cases hd
        exact ⟨g, rfl, rfl⟩

/-- The machine accepts nothing before it has seen the end. -/
theorem ShiftReduce.Machine.exists_finish_of_judge {failure : Option Error} {m : Machine}
    {ts : List Token} {g : Grown} (h : m.judge failure ts = .ok g) :
    ∃ t ∈ ts, t.symbol.isFinish = true := by
  induction ts generalizing m with
  | nil => cases h
  | cons t ts ih =>
    rw [judge] at h
    split at h
    · rename_i hf
      exact ⟨t, List.mem_cons_self, hf⟩
    · split at h
      · obtain ⟨t', ht', hf⟩ := ih h
        exact ⟨t', List.mem_cons_of_mem _ ht', hf⟩
      · cases h

/-- A stream that ends with an error has no end. -/
theorem Stream.failure_of_finish {finish : Stream}
    (hf : (∃ t ∈ finish.tokens, t.symbol.isFinish = true) → finish.failure = none)
    {ls : List Lexeme} (h : ∃ t ∈ (ofLexemes finish ls).tokens, t.symbol.isFinish = true) :
    (ofLexemes finish ls).failure = none := by
  induction ls with
  | nil => exact hf h
  | cons l ls ih =>
    rw [ofLexemes] at h ⊢
    cases hs : l.symbol? with
    | none => simp [hs] at h
    | some s =>
      simp only [hs, List.mem_cons, exists_eq_or_imp, isFinish_of_symbol? hs] at h ⊢
      exact ih (by simpa using h)

/-- The tree of a text that is accepted is derived from the tokens of the text. -/
theorem FrontEnd.derives_of_parse {f : FrontEnd} {text : String} {n : Node}
    (h : f.parse text = .ok n) :
    ∃ ts p, tokenize text = .whole ts p ∧ (∀ t ∈ ts, t.symbol.Legible) ∧
      Grammar.Derives false .program ts n := by
  obtain ⟨g, hg, rfl⟩ := verdict_of_parse h
  have hfailure : (tokenize text).failure = none := by
    have hfinish := Machine.exists_finish_of_judge hg
    rw [tokenize_eq] at hfinish ⊢
    refine Stream.failure_of_finish ?_ hfinish
    unfold Scan.ending
    split
    · simp
    · exact fun _ => rfl
  obtain ⟨ts, p, hts, hlegible⟩ := tokenize_eq_whole hfailure
  rw [hts] at hg
  have haccepts := Machine.accepts_iff_derives p fun t ht =>
    Symbol.Legible.isFinish (hlegible t ht)
  exact ⟨ts, p, hts, hlegible, haccepts.2 g hg⟩

/-- The tree of a text that is accepted is a program that a text can stand for. -/
theorem FrontEnd.isProgram_of_parse {f : FrontEnd} {text : String} {n : Node}
    (h : f.parse text = .ok n) : n.IsProgram := by
  obtain ⟨ts, p, _, hlegible, hd⟩ := derives_of_parse h
  exact hd.fits hlegible fun _ => rfl

end Scriptling
