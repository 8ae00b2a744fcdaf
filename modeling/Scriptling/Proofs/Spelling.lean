import Scriptling.Proofs.Acceptance
import Scriptling.Proofs.Lexemes
import Scriptling.Proofs.NumberText
import Scriptling.Proofs.Patterns

/-!
# Spelling

A piece that a blank or the end of the text follows is cut off as it was written: its
own class goes as far as the blank, and no operator grows across one. Every symbol that
a text can hold is spelled by such a piece, so symbols with blanks between them are read
back as they are.
-/
namespace Scriptling

/-- Whether a text begins with a blank, if it is not empty. -/
def Apart (text : List Char) : Prop :=
  ∀ c ∈ text.head?, isBlank c = true

namespace Apart

variable {text : List Char}

theorem cases (h : Apart text) : text = [] ∨ ∃ c rest, text = c :: rest ∧ isBlank c = true := by
  cases text with
  | nil => exact .inl rfl
  | cons c rest => exact .inr ⟨c, rest, rfl, h c rfl⟩

/-- A run of characters that are no blanks ends where a blank follows it. -/
theorem run {p : Char → Bool} (hp : ∀ c, isBlank c = true → p c = false) {front : List Char}
    (hf : ∀ c ∈ front, p c = true) (h : Apart text) :
    (front ++ text).takeWhile p = front ∧ (front ++ text).dropWhile p = text := by
  have hstop : text.takeWhile p = [] ∧ text.dropWhile p = text := by
    rcases h.cases with rfl | ⟨c, rest, rfl, hc⟩
    · exact ⟨rfl, rfl⟩
    · simp [hp c hc]
  rw [List.takeWhile_append_of_pos hf, List.dropWhile_append_of_pos hf, hstop.1, hstop.2]
  exact ⟨List.append_nil _, rfl⟩

end Apart

theorem isBlank_of_isWordStart {c : Char} (h : isWordStart c = true) : isBlank c = false := by
  cases hb : isBlank c with
  | false => rfl
  | true =>
    rw [isWordStart_of_isBlank hb] at h
    cases h

theorem isBlank_of_isDigit {c : Char} (h : c.isDigit = true) : isBlank c = false := by
  cases hb : isBlank c with
  | false => rfl
  | true =>
    rw [isDigit_of_isBlank hb] at h
    cases h

theorem isNumeral_of_isBlank (c : Char) (h : isBlank c = true) : isNumeral c = false := by
  rw [isNumeral, isDigit_of_isBlank h, Bool.false_or, beq_eq_false_iff_ne]
  rintro rfl
  exact absurd h (by decide)

theorem isNumeral_of_isDigit {c : Char} (h : c.isDigit = true) : isNumeral c = true := by
  rw [isNumeral, h, Bool.true_or]

namespace Piece

/-- Whether a piece is cut off a text again wherever a blank or the end follows it. -/
def Intact (p : Piece) : Prop :=
  ∃ c rest, p.text = c :: rest ∧ ∀ after, Apart after → cut c (rest ++ after) = .piece p after

theorem intact_word {c : Char} {rest : List Char} (hc : isWordStart c = true)
    (hrest : ∀ d ∈ rest, isWordChar d = true) : Intact (.word (c :: rest)) := by
  refine ⟨c, rest, rfl, fun after ha => ?_⟩
  obtain ⟨htake, hdrop⟩ := ha.run (fun _ => isWordChar_of_isBlank) hrest
  have hhash : c ≠ '#' := by
    rintro rfl
    exact absurd hc (by decide)
  rw [cut, isBlank_of_isWordStart hc, if_neg Bool.false_ne_true, if_neg hhash, if_pos hc, htake,
    hdrop]

theorem intact_string {body : List Char} (h : '"' ∉ body) : Intact (.string body) := by
  refine ⟨'"', body ++ ['"'], rfl, fun after _ => ?_⟩
  have hbody : ∀ c ∈ body, decide (c ≠ '"') = true := by
    intro c hc
    rw [decide_eq_true_eq]
    rintro rfl
    exact h hc
  have hcut : cut '"' (body ++ ['"'] ++ after) = Cut.string (body ++ '"' :: after) := by
    rw [List.append_assoc, List.singleton_append]
    rfl
  have hdrop : (body ++ '"' :: after).dropWhile (fun x => decide (x ≠ '"')) = '"' :: after := by
    rw [List.dropWhile_append_of_pos hbody]
    rfl
  have htake : (body ++ '"' :: after).takeWhile (fun x => decide (x ≠ '"')) = body := by
    rw [List.takeWhile_append_of_pos hbody]
    exact List.append_nil _
  rw [hcut, Cut.string, hdrop, htake]

theorem cut_of_isDigit {c : Char} (hc : c.isDigit = true) (rest : List Char) :
    cut c rest = Cut.number c rest := by
  have hhash : c ≠ '#' := by
    rintro rfl
    exact absurd hc (by decide)
  rw [cut, isBlank_of_isDigit hc, if_neg Bool.false_ne_true, if_neg hhash,
    isWordStart_of_isDigit hc, if_neg Bool.false_ne_true, if_pos hc]

/-- Digits with a point between them, if there is a fraction, are one number. -/
theorem intact_number {whole fraction : List Char} (hne : whole ≠ [])
    (h : ∀ c ∈ whole ++ fraction, c.isDigit = true) :
    Intact (.number (Decimal.joined whole fraction)) := by
  have hnum : ∀ c ∈ whole ++ fraction, isNumeral c = true := fun c hc =>
    isNumeral_of_isDigit (h c hc)
  cases whole with
  | nil => contradiction
  | cons c ws =>
    have hws : ∀ d ∈ ws, isNumeral d = true := fun d hd => hnum d (by simp [hd])
    have hc : c.isDigit = true := h c (by simp)
    cases fraction with
    | nil =>
      refine ⟨c, ws, rfl, fun after ha => ?_⟩
      obtain ⟨htake, hdrop⟩ := ha.run isNumeral_of_isBlank hws
      rw [cut_of_isDigit hc, Cut.number, htake, hdrop]
      split
      · exact absurd (ha '.' rfl) (by decide)
      · rfl
    | cons f fs =>
      have hfs : ∀ d ∈ fs, isNumeral d = true := fun d hd => hnum d (by simp [hd])
      refine ⟨c, ws ++ '.' :: f :: fs, rfl, fun after ha => ?_⟩
      obtain ⟨htake, hdrop⟩ := ha.run isNumeral_of_isBlank hfs
      have hwhole : (ws ++ '.' :: f :: (fs ++ after)).takeWhile isNumeral = ws := by
        rw [List.takeWhile_append_of_pos hws]
        exact List.append_nil _
      have hpoint : (ws ++ '.' :: f :: (fs ++ after)).dropWhile isNumeral =
          '.' :: f :: (fs ++ after) := by
        rw [List.dropWhile_append_of_pos hws]
        rfl
      rw [cut_of_isDigit hc, List.append_assoc, List.cons_append, List.cons_append, Cut.number,
        hwhole, hpoint]
      simp only [h f (by simp), if_true, htake, hdrop]
      rfl

/-- No operator grows across a blank. -/
theorem intact_operator {text : List Char} (h : text ∈ pairs ∨ ∃ c ∈ singles, text = [c]) :
    Intact (.operator text) := by
  have hfirst : ∀ t ∈ pairs ++ singles.map ([·]), ∀ c ∈ t.head?, ∀ rest,
      cut c rest = Cut.operator c rest := by
    intro t ht c hc rest
    have key : ∀ t ∈ pairs ++ singles.map ([·]), (t.head?.all fun c => !isBlank c && c != '#' &&
        !isWordStart c && !c.isDigit && c != '"') = true := by decide
    have hk := key t ht
    rw [Option.mem_def.1 hc] at hk
    obtain ⟨⟨⟨⟨hb, hh⟩, hw⟩, hd⟩, hq⟩ : (((isBlank c = false ∧ c ≠ '#') ∧ isWordStart c = false) ∧
        c.isDigit = false) ∧ c ≠ '"' := by simpa using hk
    rw [cut, hb, if_neg Bool.false_ne_true, if_neg hh, hw, if_neg Bool.false_ne_true, hd,
      if_neg Bool.false_ne_true, if_neg hq]
  have hsecond : ∀ t ∈ pairs, (t.getLast?.all fun d => !isBlank d) = true := by decide
  rcases h with h | ⟨c, h, rfl⟩
  · have hlen : ∀ t ∈ pairs, t.length = 2 := by decide
    obtain ⟨c, d, rfl⟩ := List.length_eq_two.1 (hlen text h)
    refine ⟨c, [d], rfl, fun after _ => ?_⟩
    rw [hfirst [c, d] (List.mem_append_left _ h) c rfl, List.singleton_append, Cut.operator,
      if_pos h]
  · refine ⟨c, [], rfl, fun after ha => ?_⟩
    have hsingle : Cut.single c after = .piece (.operator [c]) after := if_pos h
    rw [hfirst [c] (List.mem_append_right _ (List.mem_map_of_mem h)) c rfl, List.nil_append]
    rcases ha.cases with rfl | ⟨d, rest, rfl, hd⟩
    · exact hsingle
    · have hpair : [c, d] ∉ pairs := fun hp => by
        have hblank : (!isBlank d) = true := hsecond _ hp
        rw [hd] at hblank
        cases hblank
      rw [Cut.operator, if_neg hpair]
      exact hsingle

end Piece

namespace Symbol

/-- Whether a text can hold a symbol. -/
def Legible : Symbol → Prop
  | .number x => Binary.isFinite x = true ∧ Binary.isNegative x = false
  | .string s => '"' ∉ s.toList
  | .ident name =>
    (Piece.word name.toList).Proper ∧ ofWord name = .ident name
  | .bool _ => True
  | .mark text => text ∈ keywords ∨ (Piece.operator text.toList).Proper
  | .finish => False

theorem Legible.isFinish {s : Symbol} (h : s.Legible) : s.isFinish = false := by
  cases s with
  | finish => exact h.elim
  | _ => rfl

/-- The piece with the text of the symbol, which stands for the symbol. -/
structure Spells (p : Piece) (s : Symbol) : Prop where
  isLexeme : p.isLexeme = true
  text : p.text = s.render.toList
  intact : p.Intact
  symbol? : ∀ position, Lexeme.symbol? ⟨p, position⟩ = some s

theorem spells_word {word : String} (h : (Piece.word word.toList).Proper) {s : Symbol}
    (hs : ofWord word = s) (hr : s.render = word) : Spells (.word word.toList) s := by
  obtain ⟨c, rest, hw, hc, hrest⟩ := h
  refine ⟨rfl, by rw [hr, Piece.text], hw ▸ Piece.intact_word hc hrest, fun _ => ?_⟩
  simp only [Lexeme.symbol?, String.ofList_toList, hs]

/-- Every legible symbol is spelled by its text. -/
theorem Legible.exists_spells {s : Symbol} (h : s.Legible) : ∃ p, Spells p s := by
  have hwords : ∀ word ∈ "true" :: "false" :: keywords, (Piece.word word.toList).Proper := by
    have key : ∀ word ∈ "true" :: "false" :: keywords, (word.toList.head?.any isWordStart &&
        word.toList.tail.all isWordChar) = true := by decide
    intro word hword
    have hk := key word hword
    rw [Bool.and_eq_true] at hk
    cases hw : word.toList with
    | nil => simp [hw] at hk
    | cons c rest => exact ⟨c, rest, rfl, by simpa [hw] using hk⟩
  cases s with
  | number x =>
    obtain ⟨whole, fraction, htext, hne, hdigit, hx⟩ := number?_formatNumber h.1 h.2
    refine ⟨.number (Decimal.joined whole fraction), rfl, htext.symm,
      Piece.intact_number hne hdigit, fun _ => ?_⟩
    simp only [Lexeme.symbol?, Lexeme.number?, hx, h.1, if_true, Option.map_some]
  | string s =>
    refine ⟨.string s.toList, rfl, ?_, Piece.intact_string h, fun _ => ?_⟩
    · simp [render, Piece.text]
    · simp only [Lexeme.symbol?, String.ofList_toList]
  | ident name => exact ⟨_, spells_word h.1 h.2 rfl⟩
  | bool b =>
    cases b with
    | false => exact ⟨_, spells_word (hwords "false" (by decide)) rfl rfl⟩
    | true => exact ⟨_, spells_word (hwords "true" (by decide)) rfl rfl⟩
  | mark text =>
    rcases h with h | h
    · refine ⟨_, spells_word (hwords text (by simp [h])) ?_ rfl⟩
      rw [ofWord, if_pos (by simpa using h)]
    · refine ⟨.operator text.toList, rfl, rfl, Piece.intact_operator h, fun _ => ?_⟩
      simp only [Lexeme.symbol?, String.ofList_toList]
  | finish => exact h.elim

theorem legible_ofWord {word : String} (h : (Piece.word word.toList).Proper) :
    (ofWord word).Legible := by
  unfold ofWord
  split
  · rename_i hk
    exact .inl (by simpa using hk)
  split
  · trivial
  split
  · trivial
  · rename_i hk ht hf
    exact ⟨h, by rw [ofWord, if_neg hk, if_neg ht, if_neg hf]⟩

end Symbol

/-- A literal has no sign. -/
theorem isNegative_of_number? {text : List Char} {x : Float} (h : Lexeme.number? text = some x) :
    Binary.isFinite x = true ∧ Binary.isNegative x = false := by
  unfold Lexeme.number? at h
  dsimp only at h
  split at h
  · rename_i hf
    cases h
    refine ⟨hf, ?_⟩
    have hle : Decimal.nearestBits (Decimal.ofLiteral text).digits
        (Decimal.ofLiteral text).exponent ≤ Binary.infinityBits :=
      Decimal.nearestBits_le_infinityBits _ _
    rw [Binary.isNegative, Decimal.toFloat]
    change decide (_ ≤ (Binary.ofMagnitude false _).toBits.toNat) = false
    rw [Binary.toNat_toBits_ofMagnitude hle, decide_eq_false_iff_not, Nat.not_le]
    exact Nat.lt_of_le_of_lt hle (by decide)
  · cases h

/-- What a proper piece stands for is legible. -/
theorem Symbol.legible_of_symbol? {l : Lexeme} {s : Symbol} (hp : l.piece.Proper)
    (hs : l.symbol? = some s) : s.Legible := by
  obtain ⟨piece, position⟩ := l
  cases piece with
  | blank c => cases hs
  | comment body closed => cases hs
  | word text =>
    cases hs
    exact Symbol.legible_ofWord (by rwa [String.toList_ofList])
  | number text =>
    obtain ⟨x, hx, rfl⟩ := Option.map_eq_some_iff.1 hs
    exact isNegative_of_number? hx
  | string body =>
    cases hs
    rw [Legible, String.toList_ofList]
    exact hp
  | operator text =>
    cases hs
    refine .inr ?_
    rwa [String.toList_ofList]

/-- The texts that hold the given symbols with blanks between them, and with any blanks
around them. -/
inductive Spaced : List Symbol → List Char → Prop where
  | nil : Spaced [] []
  | blank {c : Char} {ss : List Symbol} {text : List Char} :
    isBlank c = true → Spaced ss text → Spaced ss (c :: text)
  | cons {s : Symbol} {ss : List Symbol} {text : List Char} :
    Apart text → Spaced ss text → Spaced (s :: ss) (s.render.toList ++ text)

/-- A text of legible symbols is cut into the pieces that spell them. -/
theorem Spaced.lexemes {ss : List Symbol} {text : List Char} (h : Spaced ss text)
    (hs : ∀ s ∈ ss, s.Legible) :
    (cutAll text).rest = [] ∧
      ∀ p, (Lexeme.place p (cutAll text).pieces).map (·.symbol?) = ss.map some := by
  induction h with
  | nil => exact ⟨rfl, fun _ => rfl⟩
  | @blank c ss text hc _ ih =>
    have hcut : cut c text = .piece (.blank c) text := by rw [cut, if_pos hc]
    obtain ⟨hrest, hplace⟩ := ih hs
    rw [cutAll_cons, hcut]
    exact ⟨hrest, fun p => hplace _⟩
  | @cons s ss text ha _ ih =>
    obtain ⟨hrest, hplace⟩ := ih fun s' hs' => hs s' (List.mem_cons_of_mem _ hs')
    obtain ⟨piece, hspells⟩ := (hs s List.mem_cons_self).exists_spells
    obtain ⟨c, rest, htext, hcut⟩ := hspells.intact
    rw [← hspells.text, htext, List.cons_append, cutAll_cons, hcut text ha]
    refine ⟨hrest, fun p => ?_⟩
    rw [Lexeme.place, if_pos hspells.isLexeme, List.map_cons, hspells.symbol?, hplace,
      List.map_cons]

theorem Stream.ofLexemes_of_symbols {finish : Stream} {ls : List Lexeme} {ss : List Symbol}
    (h : ls.map (·.symbol?) = ss.map some) :
    ∃ ts : List Token, ofLexemes finish ls = { finish with tokens := ts ++ finish.tokens } ∧
      ts.map (·.symbol) = ss := by
  induction ls generalizing ss with
  | nil =>
    cases ss with
    | nil => exact ⟨[], rfl, rfl⟩
    | cons s ss => cases h
  | cons l ls ih =>
    cases ss with
    | nil => cases h
    | cons s ss =>
      simp only [List.map_cons, List.cons.injEq] at h
      obtain ⟨ts, hts, hsym⟩ := ih h.2
      refine ⟨⟨s, l.position⟩ :: ts, ?_, by rw [List.map_cons, hsym]⟩
      rw [ofLexemes, h.1]
      simp only [hts, List.cons_append]

/-- Legible symbols with blanks between them are read as they are. -/
theorem Spaced.tokenize_eq {ss : List Symbol} {text : String} (h : Spaced ss text.toList)
    (hs : ∀ s ∈ ss, s.Legible) :
    ∃ ts p, tokenize text = .whole ts p ∧ ts.map (·.symbol) = ss := by
  obtain ⟨hrest, hplace⟩ := h.lexemes hs
  have hfailure : (Scan.ofText text.toList).error? = none := by
    rw [Scan.error?, Scan.ofText, hrest]
    rfl
  obtain ⟨ts, hts, hsym⟩ := Stream.ofLexemes_of_symbols (hplace .start)
  refine ⟨ts, (Scan.ofText text.toList).stop, ?_, hsym⟩
  rw [tokenize, hfailure]
  exact hts

/-- A stream without an error has a token for each lexeme. -/
theorem Stream.symbols_of_ofLexemes {finish : Stream} {ls : List Lexeme}
    (h : (ofLexemes finish ls).failure = none) :
    finish.failure = none ∧
      ∃ ts : List Token, ofLexemes finish ls = { finish with tokens := ts ++ finish.tokens } ∧
        ls.map (·.symbol?) = ts.map (some ·.symbol) := by
  induction ls with
  | nil => exact ⟨h, [], rfl, rfl⟩
  | cons l ls ih =>
    rw [ofLexemes] at h
    cases hl : l.symbol? with
    | none =>
      rw [hl] at h
      cases h
    | some s =>
      rw [hl] at h
      obtain ⟨hf, ts, hts, hsym⟩ := ih h
      refine ⟨hf, ⟨s, l.position⟩ :: ts, ?_, by rw [List.map_cons, List.map_cons, hl, hsym]⟩
      rw [ofLexemes, hl]
      simp only [hts, List.cons_append]

/-- The tokens of a text that is read to its end are legible, but for the end. -/
theorem tokenize_eq_whole {text : String} (h : (tokenize text).failure = none) :
    ∃ ts p, tokenize text = .whole ts p ∧ ∀ t ∈ ts, t.symbol.Legible := by
  obtain ⟨hf, ts, hts, hsym⟩ := Stream.symbols_of_ofLexemes h
  have herror : (Scan.ofText text.toList).error? = none := by
    cases he : (Scan.ofText text.toList).error? with
    | none => rfl
    | some e =>
      rw [he] at hf
      cases hf
  refine ⟨ts, (Scan.ofText text.toList).stop, ?_, fun t ht => ?_⟩
  · rw [tokenize]
    refine hts.trans ?_
    rw [herror]
    rfl
  · have hmem : some t.symbol ∈ (Scan.ofText text.toList).lexemes.map (·.symbol?) := by
      rw [hsym]
      exact List.mem_map_of_mem ht
    obtain ⟨l, hl, hls⟩ := List.mem_map.1 hmem
    exact Symbol.legible_of_symbol?
      (proper_of_mem_cutAll (Lexeme.piece_mem_of_mem_place hl).1).1 hls

/-- Texts of symbols with one space between them. -/
theorem spaced_intercalate (ss : List Symbol) :
    Spaced ss ([' '].intercalate (ss.map (·.render.toList))) := by
  induction ss with
  | nil => exact .nil
  | cons s ss ih =>
    cases ss with
    | nil =>
      have h := Spaced.cons (s := s) (fun c hc => by cases hc) .nil
      simpa using h
    | cons s' ss =>
      rw [List.map_cons, List.map_cons, List.intercalate_cons_cons, List.append_assoc]
      refine .cons ?_ (.blank (by decide) ih)
      rintro c hc
      cases hc
      decide

theorem spaced_renderAll {ts : List Token} (p : Position)
    (h : ∀ t ∈ ts, t.symbol.Legible) :
    Spaced (ts.map (·.symbol)) (Token.renderAll (Stream.whole ts p).tokens).toList := by
  have hfilter : (Stream.whole ts p).tokens.filter (fun t => !t.symbol.isFinish) = ts := by
    rw [Stream.whole, List.filter_append, List.filter_eq_self.2]
    · exact List.append_nil ts
    · intro t ht
      rw [(h t ht).isFinish]
      rfl
  have hspaced := spaced_intercalate (ts.map (·.symbol))
  rw [List.map_map] at hspaced
  rw [Token.renderAll, hfilter, String.toList_intercalate, List.map_map]
  exact hspaced

/-- The texts of the tokens of a text, with a space between them, are read as the same
tokens again. -/
theorem tokenize_renderAll {text : String} (h : (tokenize text).failure = none) :
    (tokenize (Token.renderAll (tokenize text).tokens)).failure = none ∧
      (tokenize (Token.renderAll (tokenize text).tokens)).tokens.map (·.symbol) =
        (tokenize text).tokens.map (·.symbol) := by
  obtain ⟨ts, p, hts, hlegible⟩ := tokenize_eq_whole h
  rw [hts]
  obtain ⟨ts', p', hts', hsym⟩ := (spaced_renderAll p hlegible).tokenize_eq
    (List.forall_mem_map.2 hlegible)
  rw [hts']
  refine ⟨rfl, ?_⟩
  simp only [Stream.whole, List.map_append, hsym]
  rfl

/-- A name that begins like a keyword, a comment, operators that are parts of longer
ones, numbers without and with a fraction, and a string with a hash and a line break. -/
def crowdedText : String :=
  "iffy<=1_000.50#note#!- -=00.25;\"a#\nb\"while"

theorem tokenize_renderAll_crowdedText :
    (tokenize crowdedText).failure = none ∧
      (tokenize (Token.renderAll (tokenize crowdedText).tokens)).tokens.map (·.symbol) =
        (tokenize crowdedText).tokens.map (·.symbol) :=
  ⟨rfl, (tokenize_renderAll rfl).2⟩

end Scriptling
