import Scriptling.Proofs.Lexicon

/-!
# Texts are tiled by lexemes

A text that is read to its end is a sequence of lexemes with gaps before and between them,
and a last gap. Each lexeme is the longest one where it begins, so there is only one way to
lay a text out like this, and the tokens are what the lexemes stand for. Where a text cannot
be laid out to its end it is seen why: a quote is not closed, a number is too large or a
character begins nothing. Then the tokens are those of the lexemes before that place.
-/
namespace Scriptling

/-- A lexeme with the gap before it and the symbol that it stands for. -/
structure Tile where
  gap : List Char
  lexeme : List Char
  symbol : Symbol

def Tile.text (t : Tile) : List Char := t.gap ++ t.lexeme

/-- Whether a text is made of tiles with the given rest behind them. -/
inductive LaidOut : List Tile → List Char → List Char → Prop where
  | nil {rest : List Char} : LaidOut [] rest rest
  | cons {gap lexeme behind rest : List Char} {s : Symbol} {tiles : List Tile} : IsGap gap →
    IsLongest lexeme behind → Denotes lexeme s → LaidOut tiles rest behind →
    LaidOut (⟨gap, lexeme, s⟩ :: tiles) rest (gap ++ (lexeme ++ behind))

theorem LaidOut.text_eq {tiles : List Tile} {rest text : List Char} (h : LaidOut tiles rest text) :
    text = tiles.flatMap Tile.text ++ rest := by
  induction h with
  | nil => rfl
  | cons _ _ _ _ ih =>
    rw [List.flatMap_cons, Tile.text, List.append_assoc, List.append_assoc, ← ih]

/-- Why no tile can be laid on a text: it is a gap, or behind a gap something is wrong. -/
inductive EndsText : List Char → Option Cause → Prop where
  | gap {gap : List Char} : IsGap gap → EndsText gap none
  | openComment {gap body : List Char} : IsGap gap → '#' ∉ body → EndsText (gap ++ '#' :: body) none
  | unterminated {gap body : List Char} : IsGap gap → '"' ∉ body →
    EndsText (gap ++ '"' :: body) (some .unterminatedString)
  | outOfRange {gap number behind : List Char} : IsGap gap → IsNumber number →
    IsLongest number behind → Binary.isInfinite (literalValue number) = true →
    EndsText (gap ++ (number ++ behind)) (some .numberOutOfRange)
  | unexpected {gap behind : List Char} {c : Char} : IsGap gap → isBlank c = false → c ≠ '#' →
    c ≠ '"' → (∀ t, IsLexeme t → ¬ t <+: c :: behind) →
    EndsText (gap ++ c :: behind) (some (.unexpectedCharacter c))

/-- Tiles, what is left behind them, and what is wrong there. -/
structure Tiling where
  tiles : List Tile
  rest : List Char
  cause? : Option Cause

namespace Tiling

/-- Whether a text is laid out with tiles as far as possible. -/
def Covers (t : Tiling) (text : List Char) : Prop :=
  LaidOut t.tiles t.rest text ∧ EndsText t.rest t.cause?

/-- What the tiles stand for, and the end if nothing is wrong. -/
def symbols (t : Tiling) : List Symbol :=
  t.tiles.map Tile.symbol ++ if t.cause?.isNone then [.finish] else []

/-- Puts a tile before the others. -/
def lay (t : Tiling) (tile : Tile) : Tiling := { t with tiles := tile :: t.tiles }

theorem Covers.lay {t : Tiling} {gap lexeme behind : List Char} {s : Symbol}
    (h : t.Covers behind) (hgap : IsGap gap) (hlongest : IsLongest lexeme behind)
    (hs : Denotes lexeme s) : (t.lay ⟨gap, lexeme, s⟩).Covers (gap ++ (lexeme ++ behind)) :=
  ⟨.cons hgap hlongest hs h.1, h.2⟩

/-- The tiling of pieces that a gap stands before and a rest behind. -/
def assemble (rest : List Char) : List Char → List Piece → Tiling
  | gap, [] => ⟨[], gap ++ rest, Scan.failureOf rest⟩
  | gap, p :: ps =>
    if p.isLexeme then
      match p.symbol? with
      | some s => (assemble rest [] ps).lay ⟨gap, p.text, s⟩
      | none => ⟨[], gap ++ (p.text ++ (ps.flatMap Piece.text ++ rest)), some .numberOutOfRange⟩
    else assemble rest (gap ++ p.text) ps

/-- The tiling of a text that a gap stands before. -/
def ofText (gap text : List Char) : Tiling :=
  assemble (cutAll text).rest gap (cutAll text).pieces

section Pieces

variable {c : Char} {rest after : List Char} {p : Piece}

theorem ofText_nil (gap : List Char) : ofText gap [] = ⟨[], gap, none⟩ := by
  rw [ofText, cutAll_nil, assemble, List.append_nil]
  rfl

theorem ofText_gap (h : cut c rest = .piece p after) (hp : p.isLexeme = false)
    (gap : List Char) : ofText gap (c :: rest) = ofText (gap ++ p.text) after := by
  rw [ofText, cutAll_cons, h]
  simp [assemble, hp, ofText]

theorem ofText_lexeme (h : cut c rest = .piece p after) (hp : p.isLexeme = true) {s : Symbol}
    (hs : p.symbol? = some s) (gap : List Char) :
    ofText gap (c :: rest) = (ofText [] after).lay ⟨gap, p.text, s⟩ := by
  rw [ofText, cutAll_cons, h]
  simp [assemble, hp, hs, ofText]

theorem ofText_outOfRange (h : cut c rest = .piece p after) (hp : p.isLexeme = true)
    (hs : p.symbol? = none) (gap : List Char) :
    ofText gap (c :: rest) = ⟨[], gap ++ (p.text ++ after), some .numberOutOfRange⟩ := by
  rw [ofText, cutAll_cons, h]
  simp [assemble, hp, hs, text_append_cutAll]

theorem ofText_stuck (h : ∀ p after, cut c rest ≠ .piece p after) (gap : List Char) :
    ofText gap (c :: rest) = ⟨[], gap ++ c :: rest, Scan.failureOf (c :: rest)⟩ := by
  rw [ofText, cutAll_cons]
  cases hcut : cut c rest with
  | piece p after => exact absurd hcut (h p after)
  | unterminated => rfl
  | unexpected => rfl

end Pieces

/-- The pieces of a text lay it out as far as possible. -/
theorem covers_ofText {gap : List Char} (hgap : IsGap gap) (text : List Char) :
    (ofText gap text).Covers (gap ++ text) := by
  induction hlen : text.length using Nat.strongRecOn generalizing gap text with
  | ind n ih =>
    cases text with
    | nil =>
      rw [ofText_nil, List.append_nil]
      exact ⟨.nil, .gap hgap⟩
    | cons c rest =>
      have hshorter : ∀ {p after}, cut c rest = .piece p after → after.length < n := by
        intro p after hcut
        have := length_le_of_cut hcut
        rw [List.length_cons] at hlen
        omega
      have hcuts := cutsOff_cut c rest
      generalize hcut : cut c rest = k at hcuts
      cases hcuts with
      | @gap p after _ hp hpiece =>
        rw [ofText_gap hcut hp, ← text_append_of_cut hcut, ← List.append_assoc]
        exact ih after.length (hshorter hcut) (hgap.append hpiece) after rfl
      | openComment hc hrest =>
        subst hc
        have htext := text_append_of_cut hcut
        rw [List.append_nil] at htext
        rw [ofText_gap hcut rfl, ofText_nil, htext]
        exact ⟨.nil, .openComment hgap hrest⟩
      | @lexeme p after hp =>
        have hafter := ih after.length (hshorter hcut) .nil after rfl
        cases hs : p.symbol? with
        | some s =>
          rw [ofText_lexeme hcut hp.isLexeme hs, ← text_append_of_cut hcut]
          exact hafter.lay hgap hp.longest (hp.denotes s hs)
        | none =>
          obtain ⟨hnumber, hinfinite⟩ := hp.infinite hs
          rw [ofText_outOfRange hcut hp.isLexeme hs, ← text_append_of_cut hcut]
          exact ⟨.nil, .outOfRange hgap hnumber hp.longest hinfinite⟩
      | unterminated hc hrest =>
        subst hc
        rw [ofText_stuck (by simp [hcut])]
        exact ⟨.nil, .unterminated hgap hrest⟩
      | unexpected hblank hhash hquote hnone =>
        rw [ofText_stuck (by simp [hcut]), Scan.failureOf, if_neg hquote]
        exact ⟨.nil, .unexpected hgap hblank hhash hquote hnone⟩

/-- Gaps are passed over. -/
theorem ofText_append {gap : List Char} (h : IsGap gap) (before text : List Char) :
    ofText before (gap ++ text) = ofText (before ++ gap) text := by
  induction h generalizing before with
  | nil => rw [List.append_nil, List.nil_append]
  | @blank c gap hc _ ih =>
    have hcut : cut c (gap ++ text) = .piece (.blank c) (gap ++ text) := by
      rw [cut_eq, Opening.of_isBlank hc]
    rw [List.cons_append, ofText_gap hcut rfl, ih, List.append_assoc]
    rfl
  | @comment body gap hbody _ ih =>
    have hcut : cut '#' (body ++ '#' :: (gap ++ text)) =
        .piece (.comment body true) (gap ++ text) := comment_closed hbody (gap ++ text)
    have htext : '#' :: (body ++ '#' :: gap) ++ text = '#' :: (body ++ '#' :: (gap ++ text)) := by
      simp
    rw [htext, ofText_gap hcut rfl, ih, List.append_assoc]
    congr 1
    simp [Piece.text]

end Tiling

/-- The longest lexeme of a text is cut off it. -/
theorem IsLongest.exists_cut {lexeme behind : List Char} (h : IsLongest lexeme behind) :
    ∃ c rest p, lexeme ++ behind = c :: rest ∧ cut c rest = .piece p behind ∧ p.text = lexeme ∧
      p.Meaningful behind := by
  obtain ⟨o, ho⟩ := h.isLexeme
  obtain ⟨c, t, rfl, rfl⟩ := ho.exists_cons
  refine ⟨c, t ++ behind, ?_⟩
  have hcuts := cutsOff_cut c (t ++ behind)
  generalize hcut : cut c (t ++ behind) = k at hcuts
  cases hcuts with
  | gap hc _ _ =>
    rcases hc with hc | rfl
    · rw [Opening.of_isBlank hc] at ho
      exact ho.elim
    · exact ho.elim
  | openComment hc _ =>
    subst hc
    exact ho.elim
  | @lexeme p after hp =>
    obtain ⟨htext, rfl⟩ := hp.longest.unique h (text_append_of_cut hcut)
    exact ⟨p, rfl, rfl, htext, hp⟩
  | unterminated hc hrest =>
    subst hc
    obtain ⟨body, -, heq⟩ : IsString ('"' :: t) := ho
    rw [(List.cons.inj heq).2] at hrest
    simp at hrest
  | unexpected _ _ _ hnone => exact absurd (List.prefix_append _ _) (hnone _ h.isLexeme)

namespace Tiling

theorem eq_ofText_of_endsText {rest : List Char} {cause? : Option Cause}
    (h : EndsText rest cause?) : ⟨[], rest, cause?⟩ = ofText [] rest := by
  cases h with
  | gap hgap =>
    have := ofText_append hgap [] []
    rw [List.append_nil, ofText_nil] at this
    exact this.symm
  | @openComment gap body hgap hbody =>
    have hcut : cut '#' body = .piece (.comment body false) [] := comment_open hbody
    rw [ofText_append hgap, ofText_gap hcut rfl, ofText_nil]
    simp [Piece.text]
  | @unterminated gap body hgap hbody =>
    have hcut : cut '"' body = .unterminated := string_open hbody
    rw [ofText_append hgap, ofText_stuck (by simp [hcut])]
    rfl
  | @outOfRange gap number behind hgap hnumber hlongest hinfinite =>
    obtain ⟨c, rest, p, heq, hcut, rfl, hp⟩ := hlongest.exists_cut
    cases hs : p.symbol? with
    | some s =>
      have hfinite := (hp.denotes s hs).not_infinite hnumber
      rw [hfinite] at hinfinite
      cases hinfinite
    | none =>
      rw [ofText_append hgap, heq, ofText_outOfRange hcut hp.isLexeme hs,
        text_append_of_cut hcut]
      rfl
  | @unexpected gap behind c hgap hblank hhash hquote hnone =>
    have hstuck : ∀ p after, cut c behind ≠ .piece p after := by
      intro p after hcut
      have hcuts := cutsOff_cut c behind
      rw [hcut] at hcuts
      cases hcuts with
      | gap hc _ _ =>
        rcases hc with hc | hc
        · rw [hblank] at hc
          cases hc
        · exact hhash hc
      | openComment hc _ => exact hhash hc
      | lexeme hp =>
        exact hnone p.text hp.longest.isLexeme ⟨after, text_append_of_cut hcut⟩
    rw [ofText_append hgap, ofText_stuck hstuck, Scan.failureOf, if_neg hquote]
    rfl

/-- There is no other way to lay a text out. -/
theorem Covers.eq_ofText {t : Tiling} {text : List Char} (h : t.Covers text) :
    t = ofText [] text := by
  obtain ⟨tiles, rest, cause?⟩ := t
  obtain ⟨hlaid, hends⟩ := h
  dsimp only at hlaid hends
  induction hlaid with
  | nil => exact eq_ofText_of_endsText hends
  | @cons gap lexeme behind rest s tiles hgap hlongest hs _ ih =>
    obtain ⟨c, more, p, heq, hcut, rfl, hp⟩ := hlongest.exists_cut
    cases hsymbol : p.symbol? with
    | some s' =>
      obtain rfl := (hp.denotes s' hsymbol).unique hs
      rw [ofText_append hgap, heq, ofText_lexeme hcut hp.isLexeme hsymbol, ← ih hends]
      rfl
    | none =>
      obtain ⟨hnumber, hinfinite⟩ := hp.infinite hsymbol
      rw [hs.not_infinite hnumber] at hinfinite
      cases hinfinite

/-- The tokens of lexemes are what the tiles stand for. -/
theorem symbols_ofLexemes {finish : Stream} {rest : List Char}
    (htokens : finish.tokens.map Token.symbol =
      if (Scan.failureOf rest).isNone then [.finish] else [])
    (hfailure : finish.failure.map Error.cause = Scan.failureOf rest) (pieces : List Piece)
    (p : Position) (gap : List Char) :
    (Stream.ofLexemes finish (Lexeme.place p pieces)).tokens.map Token.symbol =
        (assemble rest gap pieces).symbols ∧
      (Stream.ofLexemes finish (Lexeme.place p pieces)).failure.map Error.cause =
        (assemble rest gap pieces).cause? := by
  induction pieces generalizing p gap with
  | nil => exact ⟨htokens, hfailure⟩
  | cons piece pieces ih =>
    cases hp : piece.isLexeme with
    | false =>
      rw [Lexeme.place, hp, assemble, hp]
      exact ih _ _
    | true =>
      obtain ⟨hsymbols, hcause⟩ := ih (p.after piece.text) []
      rw [Lexeme.place, hp, assemble, hp]
      cases hs : piece.symbol? with
      | none =>
        have hs' : Lexeme.symbol? ⟨piece, p⟩ = none := hs
        simp only [if_true, Stream.ofLexemes, hs']
        exact ⟨rfl, rfl⟩
      | some s =>
        have hs' : Lexeme.symbol? ⟨piece, p⟩ = some s := hs
        simp only [if_true, Stream.ofLexemes, hs']
        exact ⟨congrArg (s :: ·) hsymbols, hcause⟩

theorem symbols_tokenize (text : String) :
    (tokenize text).tokens.map Token.symbol = (ofText [] text.toList).symbols ∧
      (tokenize text).failure.map Error.cause = (ofText [] text.toList).cause? := by
  have herror : (Scan.ofText text.toList).error? =
      (Scan.failureOf (cutAll text.toList).rest).map
        (Error.located · (Scan.ofText text.toList).stop) := rfl
  refine symbols_ofLexemes ?_ ?_ _ _ _
  · rw [herror]
    cases Scan.failureOf (cutAll text.toList).rest <;> rfl
  · rw [herror]
    cases Scan.failureOf (cutAll text.toList).rest <;> rfl

end Tiling

/-- Reading a text tiles it by the longest lexemes. There is exactly one way to lay a text out
with gaps and longest lexemes as far as possible, and nothing of the text is lost in it. The
tokens are what these lexemes stand for, followed by the end if the text is laid out to its
end, and otherwise by the failure that says what is wrong at the place where it is not. -/
theorem tokenize_tiles_text (text : String) :
    ∃ t : Tiling, (∀ u : Tiling, u.Covers text.toList ↔ u = t) ∧
      text.toList = t.tiles.flatMap Tile.text ++ t.rest ∧
      (tokenize text).tokens.map Token.symbol = t.symbols ∧
      (tokenize text).failure.map Error.cause = t.cause? := by
  have hcovers := Tiling.covers_ofText .nil text.toList
  refine ⟨.ofText [] text.toList, fun u => ?_, hcovers.1.text_eq, Tiling.symbols_tokenize text⟩
  constructor
  · exact Tiling.Covers.eq_ofText
  · rintro rfl
    exact hcovers

/-- Two lexemes with a comment between them, and a character that begins none. -/
example : (Tiling.ofText [] "x1<=#c#&".toList).tiles.map Tile.text = [['x', '1'], ['<', '=']] ∧
    (Tiling.ofText [] "x1<=#c#&".toList).rest = ['#', 'c', '#', '&'] ∧
    (Tiling.ofText [] "x1<=#c#&".toList).cause? = some (.unexpectedCharacter '&') := by
  decide

end Scriptling
