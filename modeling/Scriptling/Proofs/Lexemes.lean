import Scriptling.Proofs.Survey

/-!
# Lexemes of a text

What a lexeme is to the machine does not depend on whether it is given as a lexeme
or as the token that is made of it. The lexemes of a text stand one behind the
other, and whatever ends the text stands behind them all.
-/
namespace Scriptling

namespace Position

/-- The order of the text. -/
def Before (p q : Position) : Prop :=
  p.line < q.line ∨ (p.line = q.line ∧ p.column < q.column)

theorem Before.trans {p q r : Position} (h : p.Before q) (h' : q.Before r) : p.Before r := by
  unfold Before at *
  omega

theorem before_next (p : Position) (c : Char) : p.Before (p.next c) := by
  unfold Before next
  split
  · exact .inl (Nat.lt_succ_self _)
  · exact .inr ⟨rfl, Nat.lt_succ_self _⟩

theorem eq_or_before_after (p : Position) (text : List Char) :
    p.after text = p ∨ p.Before (p.after text) := by
  induction text generalizing p with
  | nil => exact .inl rfl
  | cons c text ih =>
    refine .inr ?_
    rcases ih (p.next c) with h | h
    · rw [after_cons, h]
      exact p.before_next c
    · exact (p.before_next c).trans h

theorem before_after (p : Position) {text : List Char} (h : text ≠ []) :
    p.Before (p.after text) := by
  cases text with
  | nil => contradiction
  | cons c text =>
    rw [after_cons]
    rcases eq_or_before_after (p.next c) text with h | h
    · rw [h]
      exact p.before_next c
    · exact (p.before_next c).trans h

end Position

/-- What the pieces of a text look like. -/
def Piece.Proper : Piece → Prop
  | .word text =>
    ∃ c rest, text = c :: rest ∧ isWordStart c = true ∧ ∀ d ∈ rest, isWordChar d = true
  | .string body => '"' ∉ body
  | .operator text => text ∈ pairs ∨ ∃ c ∈ singles, text = [c]
  | _ => True

theorem Cut.proper_of_operator {c : Char} {rest after : List Char} {p : Piece}
    (h : Cut.operator c rest = .piece p after) : p.Proper := by
  have single : ∀ {rest : List Char}, Cut.single c rest = .piece p after → p.Proper := by
    intro rest h
    unfold Cut.single at h
    split at h
    · rename_i hc
      cases h
      exact .inr ⟨c, hc, rfl⟩
    · cases h
  unfold Cut.operator at h
  split at h
  · split at h
    · rename_i hp
      cases h
      exact .inl hp
    · exact single h
  · exact single h

theorem proper_of_cut {c : Char} {rest after : List Char} {p : Piece}
    (h : cut c rest = .piece p after) : p.Proper := by
  unfold cut at h
  split at h
  · cases h
    trivial
  split at h
  · unfold Cut.comment at h
    split at h <;> cases h <;> trivial
  split at h
  · rename_i hw
    cases h
    exact ⟨c, _, rfl, hw, List.all_eq_true.1 List.all_takeWhile⟩
  split at h
  · unfold Cut.number at h
    repeat' split at h
    all_goals
      cases h
      trivial
  split at h
  · unfold Cut.string at h
    split at h <;> cases h
    intro hq
    have hall := List.all_eq_true.1 (List.all_takeWhile (p := fun x => decide (x ≠ '"'))) _ hq
    simp at hall
  · exact Cut.proper_of_operator h

/-- The pieces of a text are proper, and none is empty. -/
theorem proper_of_mem_cutAll {text : List Char} {p : Piece} (h : p ∈ (cutAll text).pieces) :
    p.Proper ∧ p.text ≠ [] := by
  have key : ∀ n (text : List Char), ∀ p ∈ (cutUpTo n text).pieces, p.Proper ∧ p.text ≠ [] := by
    intro n
    induction n with
    | zero => simp [cutUpTo]
    | succ n ih =>
      intro text
      cases text with
      | nil => simp [cutUpTo]
      | cons c rest =>
        simp only [cutUpTo]
        cases hc : cut c rest with
        | piece q after =>
          intro p hp
          rcases List.mem_cons.1 hp with rfl | hp
          · exact ⟨proper_of_cut hc, text_ne_nil_of_cut hc⟩
          · exact ih after p hp
        | unterminated => simp
        | unexpected => simp
  exact key text.length text p h

namespace Lexeme

theorem piece_mem_of_mem_place {p : Position} {pieces : List Piece} {l : Lexeme}
    (h : l ∈ place p pieces) : l.piece ∈ pieces ∧ l.piece.isLexeme = true := by
  induction pieces generalizing p with
  | nil => cases h
  | cons piece rest ih =>
    rw [place] at h
    split at h
    · rename_i hl
      rcases List.mem_cons.1 h with rfl | h
      · exact ⟨List.mem_cons_self, hl⟩
      · exact ⟨List.mem_cons_of_mem _ (ih h).1, (ih h).2⟩
    · exact ⟨List.mem_cons_of_mem _ (ih h).1, (ih h).2⟩

theorem position_of_mem_place {p : Position} {pieces : List Piece} {l : Lexeme}
    (h : l ∈ place p pieces) : l.position = p ∨ p.Before l.position := by
  induction pieces generalizing p with
  | nil => cases h
  | cons piece rest ih =>
    have hrest : l ∈ place (p.after piece.text) rest → l.position = p ∨ p.Before l.position := by
      intro h
      rcases ih h with hl | hl <;> rcases p.eq_or_before_after piece.text with ha | ha
      · exact .inl (hl.trans ha)
      · exact .inr (hl ▸ ha)
      · exact .inr (ha ▸ hl)
      · exact .inr (ha.trans hl)
    rw [place] at h
    split at h
    · rcases List.mem_cons.1 h with rfl | h
      · exact .inl rfl
      · exact hrest h
    · exact hrest h

/-- Lexemes stand one behind the other. -/
theorem pairwise_place {p : Position} {pieces : List Piece} (h : ∀ q ∈ pieces, q.text ≠ []) :
    (place p pieces).Pairwise fun l l' => l.position.Before l'.position := by
  induction pieces generalizing p with
  | nil => exact .nil
  | cons piece rest ih =>
    have hrest := ih (p := p.after piece.text) fun q hq => h q (List.mem_cons_of_mem _ hq)
    rw [place]
    split
    · refine .cons (fun l hl => ?_) hrest
      have hp := p.before_after (h piece List.mem_cons_self)
      rcases position_of_mem_place hl with he | hb
      · exact he ▸ hp
      · exact hp.trans hb
    · exact hrest

/-- The place where the pieces end is behind every lexeme. -/
theorem before_of_mem_place {p : Position} {pieces : List Piece} {l : Lexeme}
    (h : ∀ q ∈ pieces, q.text ≠ []) (hl : l ∈ place p pieces) :
    l.position.Before (p.after (pieces.flatMap Piece.text)) := by
  induction pieces generalizing p with
  | nil => cases hl
  | cons piece rest ih =>
    rw [List.flatMap_cons, Position.after_append]
    have hrest := ih (p := p.after piece.text) fun q hq => h q (List.mem_cons_of_mem _ hq)
    rw [place] at hl
    split at hl
    · rcases List.mem_cons.1 hl with rfl | hl
      · have hp := p.before_after (h piece List.mem_cons_self)
        rcases (p.after piece.text).eq_or_before_after (rest.flatMap Piece.text) with ha | ha
        · rw [ha]
          exact hp
        · exact hp.trans ha
      · exact hrest hl
    · exact hrest hl

end Lexeme

namespace ShiftReduce

theorem Terminal.ofText?_of_ofMark? {text : String} {t : Terminal} (h : ofMark? text = some t) :
    ofText? text = some t :=
  ofText?_of_text? (ofMark?_eq_some_iff.1 h).1

theorem Terminal.exists_of_operator {text : List Char}
    (h : text ∈ pairs ∨ ∃ c ∈ singles, text = [c]) :
    ∃ t, ofMark? (String.ofList text) = some t := by
  have hpairs : ∀ text ∈ pairs, (ofMark? (String.ofList text)).isSome = true := by decide
  have hsingles : singles.all (fun c => (ofMark? (String.ofList [c])).isSome) = true := by decide
  rcases h with h | ⟨c, h, rfl⟩
  · exact Option.isSome_iff_exists.1 (hpairs text h)
  · exact Option.isSome_iff_exists.1 (List.all_eq_true.1 hsingles c h)

theorem Terminal.exists_of_keyword {word : String} (h : word ∈ keywords) :
    ∃ t, ofMark? word = some t := by
  have key : ∀ word ∈ keywords, (ofMark? word).isSome = true := by decide
  exact Option.isSome_iff_exists.1 (key word h)

/-- A word is the text of no terminal unless it is a keyword or a truth value. -/
theorem Terminal.ofText?_word {word : String} {c : Char} (hc : word.toList.head? = some c)
    (hw : isWordStart c = true) (hk : word ∉ keywords) (ht : word ≠ "true")
    (hf : word ≠ "false") : ofText? word = none := by
  have hall : ∀ t ∈ all, ∀ text ∈ t.text?, text ∉ keywords → text ≠ "true" → text ≠ "false" →
      text.toList.head?.any isWordStart = false := by decide
  cases h : ofText? word with
  | none => rfl
  | some t =>
    have := hall t (mem_all t) word (text?_of_ofText? h) hk ht hf
    simp [hc, hw] at this

namespace Occurrence

theorem ofLexeme_eq {l : Lexeme} {t : Terminal} (h : Terminal.ofLexeme l = t)
    (hn : t ≠ .number ∧ t ≠ .string) : ofLexeme l = ⟨t, l.text, l.position, operandOf t l⟩ := by
  simp [ofLexeme, h, hn]

/-- A mark is to the machine what the lexeme of the same text is. -/
theorem ofToken?_mark {l : Lexeme} {t : Terminal} (h : Terminal.ofMark? l.text = some t)
    (hl : Terminal.ofLexeme l = (Terminal.ofText? l.text).getD .ident) :
    ofToken? ⟨.mark l.text, l.position⟩ = some (ofLexeme l) := by
  have ht : Terminal.ofLexeme l = t := by
    rw [hl, Terminal.ofText?_of_ofMark? h]
    rfl
  have hk := Terminal.isOperand_of_ofMark? h
  rw [ofLexeme_eq ht (by constructor <;> rintro rfl <;> cases hk)]
  simp only [ofToken?, h, Option.map_some]
  cases t <;> first | rfl | cases hk

theorem ofToken?_word {l : Lexeme} {c : Char} {rest : List Char}
    (hl : l.piece = .word (c :: rest)) (hc : isWordStart c = true) :
    ofToken? ⟨.ofWord l.text, l.position⟩ = some (ofLexeme l) := by
  have ht : Terminal.ofLexeme l = (Terminal.ofText? l.text).getD .ident := by
    simp [Terminal.ofLexeme, hl]
  by_cases hk : l.text ∈ keywords
  · obtain ⟨t, htext⟩ := Terminal.exists_of_keyword hk
    rw [Symbol.ofWord, if_pos (by simpa using hk)]
    exact ofToken?_mark htext ht
  by_cases htrue : l.text = "true"
  · have htr : Terminal.ofLexeme l = .truth := by rw [ht, htrue]; decide
    rw [ofLexeme_eq htr (by decide), htrue]
    rfl
  by_cases hfalse : l.text = "false"
  · have hfa : Terminal.ofLexeme l = .falsity := by rw [ht, hfalse]; decide
    rw [ofLexeme_eq hfa (by decide), hfalse]
    rfl
  · have hhead : l.text.toList.head? = some c := by simp [Lexeme.text, hl, Piece.text]
    have hid : Terminal.ofLexeme l = .ident := by
      rw [ht, Terminal.ofText?_word hhead hc hk htrue hfalse]
      rfl
    have hsym : Symbol.ofWord l.text = .ident l.text := by
      simp [Symbol.ofWord, hk, htrue, hfalse]
    rw [ofLexeme_eq hid (by decide), hsym]
    rfl

/-- A lexeme and its token are the same to the machine. -/
theorem ofToken?_of_symbol? {l : Lexeme} {s : Symbol} (hp : l.piece.Proper)
    (hs : l.symbol? = some s) : ofToken? ⟨s, l.position⟩ = some (ofLexeme l) := by
  cases hl : l.piece with
  | blank c => simp [Lexeme.symbol?, hl] at hs
  | comment body closed => simp [Lexeme.symbol?, hl] at hs
  | word text =>
    rw [hl] at hp
    obtain ⟨c, rest, rfl, hc, -⟩ := hp
    have hs' : l.symbol? = some (.ofWord l.text) := by
      simp only [Lexeme.symbol?, hl, Lexeme.text, Piece.text]
    cases hs.symm.trans hs'
    exact ofToken?_word hl hc
  | number text =>
    obtain ⟨piece, p⟩ := l
    cases hl
    obtain ⟨x, hx, rfl⟩ := Option.map_eq_some_iff.1 hs
    simp [ofToken?, ofLexeme, Terminal.ofLexeme, operandOf, hx]
  | string body =>
    obtain ⟨piece, p⟩ := l
    cases hl
    cases hs
    rfl
  | operator text =>
    rw [hl] at hp
    have htext : l.text = String.ofList text := by simp only [Lexeme.text, hl, Piece.text]
    have hs' : l.symbol? = some (.mark l.text) := by simp only [Lexeme.symbol?, hl, htext]
    cases hs.symm.trans hs'
    obtain ⟨t, ht⟩ := Terminal.exists_of_operator hp
    exact ofToken?_mark (htext ▸ ht) (by simp [Terminal.ofLexeme, hl])

/-- A number without a symbol is out of range. -/
theorem ofLexeme_of_symbol?_eq_none {l : Lexeme} (hl : l.piece.isLexeme = true)
    (hs : l.symbol? = none) :
    ofLexeme l = ⟨.number, "", l.position, some (.outOfRange l.position)⟩ := by
  obtain ⟨piece, p⟩ := l
  cases piece with
  | number text =>
    have hn : Lexeme.number? text = none := by simpa [Lexeme.symbol?] using hs
    simp [ofLexeme, Terminal.ofLexeme, operandOf, hn]
  | blank c => cases hl
  | comment body closed => cases hl
  | _ => cases hs

theorem regular_of_ofToken? {t : Token} {o : Occurrence} (h : ofToken? t = some o) :
    o.Regular := by
  refine ⟨isSome_operand h, fun hi => ?_⟩
  obtain ⟨x, hx⟩ := exists_ident h hi
  simp only [ofToken?, hx, Option.some.injEq] at h
  subst h
  rfl

theorem regular_ofLexeme {l : Lexeme} (hp : l.piece.Proper) (hl : l.piece.isLexeme = true) :
    (ofLexeme l).Regular := by
  cases hs : l.symbol? with
  | some s => exact regular_of_ofToken? (ofToken?_of_symbol? hp hs)
  | none =>
    rw [ofLexeme_of_symbol?_eq_none hl hs]
    exact ⟨rfl, nofun⟩

end Occurrence
end ShiftReduce
end Scriptling
