import Scriptling.Proofs.Tiling

/-!
# Where tokens stand

The position that is carried along while a text is read is determined by the characters
before it: their line feeds, and those behind the last line feed. So every token stands
where the lexeme it was read from begins, a failure where the first character stands that
cannot be read, and the end behind the whole text. Only a text that ends inside a comment
ends one column further on.

`Reads` says what is read of a text from any position, one rule for each way in which a piece
can be taken off its front. The facts about whole texts follow by induction on it.
-/
namespace Scriptling

namespace Position

/-- The position of what stands behind the first characters of a text: one more line than there
are line feeds among them, one more column than there are characters behind the last of these. -/
def behind (before : List Char) : Position :=
  ⟨before.count '\n' + 1, (before.reverse.takeWhile (· ≠ '\n')).length + 1⟩

theorem behind_concat (before : List Char) (c : Char) :
    behind (before ++ [c]) = (behind before).next c := by
  unfold behind next
  by_cases hc : c = '\n'
  · simp [hc]
  · simp [hc]

theorem after_behind (before text : List Char) :
    (behind before).after text = behind (before ++ text) := by
  induction text generalizing before with
  | nil => rw [after_nil, List.append_nil]
  | cons c text ih =>
    rw [after_cons, ← behind_concat, ih, List.append_assoc]
    rfl

end Position

/-- Whether a text is a gap with a comment behind it that nothing closes. -/
def InComment (rest : List Char) : Prop :=
  ∃ gap body, IsGap gap ∧ '#' ∉ body ∧ rest = gap ++ '#' :: body

/-- Every comment of a gap has two marks. -/
theorem IsGap.even_count {gap : List Char} (h : IsGap gap) : gap.count '#' % 2 = 0 := by
  induction h with
  | nil => rfl
  | @blank c gap hc _ ih =>
    have hne : c ≠ '#' := by
      rintro rfl
      exact absurd hc (by decide)
    rwa [List.count_cons_of_ne hne]
  | @comment body gap hbody _ ih =>
    have hcount : ('#' :: (body ++ '#' :: gap)).count '#' = gap.count '#' + 2 := by
      simp [List.count_eq_zero_of_not_mem hbody]
    omega

theorem IsGap.not_inComment {rest : List Char} (h : IsGap rest) : ¬ InComment rest := by
  rintro ⟨gap, body, hgap, hbody, rfl⟩
  have hcount : (gap ++ '#' :: body).count '#' = gap.count '#' + 1 := by
    simp [List.count_eq_zero_of_not_mem hbody]
  have hwhole := h.even_count
  have hfront := hgap.even_count
  omega

namespace Stream

/-- What follows the last lexeme: the end, or what is wrong with the rest. -/
def closing (p : Position) (rest : List Char) : Stream :=
  match Scan.failureOf rest with
  | some cause => ⟨[], some (.located cause p)⟩
  | none => ⟨[⟨.finish, p⟩], none⟩

/-- Puts tokens before those of a stream. -/
def before (ts : List Token) (s : Stream) : Stream := { s with tokens := ts ++ s.tokens }

/-- What is read of a text that begins at the given position. -/
def ofText (p : Position) (text : List Char) : Stream :=
  let stop := p.after ((cutAll text).pieces.flatMap Piece.text)
  ofLexemes (closing ⟨stop.line, stop.column + Scan.endColumns (cutAll text).pieces⟩
    (cutAll text).rest) (Lexeme.place p (cutAll text).pieces)

end Stream

theorem tokenize_eq_ofText (text : String) : tokenize text = .ofText .start text.toList := by
  have herror : (Scan.ofText text.toList).error? =
      (Scan.failureOf (cutAll text.toList).rest).map
        (Error.located · (Scan.ofText text.toList).stop) := rfl
  simp only [tokenize, Stream.ofText, Stream.closing, herror]
  cases Scan.failureOf (cutAll text.toList).rest <;> rfl

/-- Only an open comment moves the end. -/
theorem Scan.endColumns_cons {p : Piece} (h : ∀ body, p ≠ .comment body false)
    (ps : List Piece) : endColumns (p :: ps) = endColumns ps := by
  unfold endColumns
  cases ps with
  | nil =>
    rw [List.getLast?_singleton, List.getLast?_nil]
    split
    · rename_i body heq
      exact absurd (Option.some.inj heq) (h body)
    · rfl
  | cons q qs => rw [List.getLast?_cons_cons]

/-- What is read of a text from a position on, piece by piece. -/
inductive Reads : Position → List Char → Stream → Prop where
  | finish {p : Position} : Reads p [] ⟨[⟨.finish, p⟩], none⟩
  | openComment {p : Position} {body : List Char} : '#' ∉ body →
    Reads p ('#' :: body) ⟨[⟨.finish, { p.after ('#' :: body) with
      column := (p.after ('#' :: body)).column + 1 }⟩], none⟩
  | gap {p : Position} {c : Char} {rest after : List Char} {piece : Piece} {s : Stream} :
    cut c rest = .piece piece after → piece.isLexeme = false → IsGap piece.text →
    Reads (p.after piece.text) after s → Reads p (c :: rest) s
  | lexeme {p : Position} {c : Char} {rest after : List Char} {piece : Piece} {symbol : Symbol}
    {s : Stream} : cut c rest = .piece piece after → piece.Meaningful after →
    piece.symbol? = some symbol → Reads (p.after piece.text) after s →
    Reads p (c :: rest) (s.before [⟨symbol, p⟩])
  | outOfRange {p : Position} {c : Char} {rest after : List Char} {piece : Piece} :
    cut c rest = .piece piece after → piece.Meaningful after → piece.symbol? = none →
    Reads p (c :: rest) ⟨[], some (.located .numberOutOfRange p)⟩
  | stuck {p : Position} {c : Char} {rest : List Char} {cause : Cause} :
    (∀ piece after, cut c rest ≠ .piece piece after) →
    Scan.failureOf (c :: rest) = some cause →
    Reads p (c :: rest) ⟨[], some (.located cause p)⟩

/-- A comment among the pieces of a gap is closed. -/
theorem closed_of_cut {c : Char} {rest after : List Char} {piece : Piece}
    (h : cut c rest = .piece piece after) (hgap : IsGap piece.text) (body : List Char) :
    piece ≠ .comment body false := by
  rintro rfl
  have hcuts := cutsOff_cut c rest
  rw [h] at hcuts
  cases hcuts with
  | gap hc _ _ =>
    rcases hc with hc | rfl
    · rw [cut_eq, Opening.of_isBlank hc] at h
      cases h
    by_cases hmem : '#' ∈ rest
    · obtain ⟨front, behind, rfl, hfront⟩ := List.eq_append_cons_of_mem hmem
      cases h.symm.trans (comment_closed hfront behind)
    · cases h.symm.trans (comment_open hmem)
      exact hgap.not_inComment ⟨[], rest, .nil, hmem, by simp [Piece.text]⟩
  | openComment _ hrest => exact hgap.not_inComment ⟨[], rest, .nil, hrest, by simp [Piece.text]⟩
  | lexeme hp => cases hp.isLexeme

namespace Stream

section Pieces

variable {c : Char} {rest after : List Char} {piece : Piece} (p : Position)

theorem ofText_gap (h : cut c rest = .piece piece after) (hp : piece.isLexeme = false)
    (hclosed : ∀ body, piece ≠ .comment body false) :
    ofText p (c :: rest) = ofText (p.after piece.text) after := by
  simp only [ofText, cutAll_cons, h, List.flatMap_cons, Position.after_append, Lexeme.place, hp,
    Scan.endColumns_cons hclosed, Bool.false_eq_true, if_false]

theorem ofText_lexeme (h : cut c rest = .piece piece after) (hp : piece.isLexeme = true)
    {symbol : Symbol} (hs : piece.symbol? = some symbol) :
    ofText p (c :: rest) = (ofText (p.after piece.text) after).before [⟨symbol, p⟩] := by
  have hclosed : ∀ body, piece ≠ .comment body false := by
    rintro body rfl
    cases hp
  have hs' : Lexeme.symbol? ⟨piece, p⟩ = some symbol := hs
  simp only [ofText, cutAll_cons, h, List.flatMap_cons, Position.after_append, Lexeme.place, hp,
    Scan.endColumns_cons hclosed, if_true, ofLexemes, hs']
  rfl

theorem ofText_outOfRange (h : cut c rest = .piece piece after) (hp : piece.isLexeme = true)
    (hs : piece.symbol? = none) :
    ofText p (c :: rest) = ⟨[], some (.located .numberOutOfRange p)⟩ := by
  have hs' : Lexeme.symbol? ⟨piece, p⟩ = none := hs
  simp only [ofText, cutAll_cons, h, Lexeme.place, hp, if_true, ofLexemes, hs']

theorem ofText_openComment {body : List Char} (h : '#' ∉ body) :
    ofText p ('#' :: body) = ⟨[⟨.finish, { p.after ('#' :: body) with
      column := (p.after ('#' :: body)).column + 1 }⟩], none⟩ := by
  have hcut : cut '#' body = .piece (.comment body false) [] := comment_open h
  have htext := text_append_of_cut hcut
  rw [List.append_nil] at htext
  simp only [ofText, cutAll_cons, hcut, cutAll_nil, List.flatMap_cons, List.flatMap_nil, htext,
    List.append_nil]
  rfl

theorem ofText_stuck (h : ∀ piece after, cut c rest ≠ .piece piece after) {cause : Cause}
    (hcause : Scan.failureOf (c :: rest) = some cause) :
    ofText p (c :: rest) = ⟨[], some (.located cause p)⟩ := by
  have hnone : cutAll (c :: rest) = ⟨[], c :: rest⟩ := by
    rw [cutAll_cons]
    cases hcut : cut c rest with
    | piece piece after => exact absurd hcut (h piece after)
    | unterminated => rfl
    | unexpected => rfl
  simp only [ofText, hnone, closing, hcause]
  rfl

end Pieces

end Stream

theorem Reads.eq_ofText {p : Position} {text : List Char} {s : Stream} (h : Reads p text s) :
    s = .ofText p text := by
  induction h with
  | finish => rfl
  | openComment hbody => exact (Stream.ofText_openComment _ hbody).symm
  | gap hcut hp hgap _ ih =>
    rw [Stream.ofText_gap _ hcut hp (closed_of_cut hcut hgap), ih]
  | lexeme hcut hp hs _ ih => rw [Stream.ofText_lexeme _ hcut hp.isLexeme hs, ih]
  | outOfRange hcut hp hs => rw [Stream.ofText_outOfRange _ hcut hp.isLexeme hs]
  | stuck hstuck hcause => rw [Stream.ofText_stuck _ hstuck hcause]

theorem reads_ofText (p : Position) (text : List Char) : Reads p text (.ofText p text) := by
  induction hlen : text.length using Nat.strongRecOn generalizing p text with
  | ind n ih =>
    cases text with
    | nil => exact .finish
    | cons c rest =>
      have hafter : ∀ {piece after}, cut c rest = .piece piece after →
          ∀ q, Reads q after (.ofText q after) := by
        intro piece after hcut q
        have := length_le_of_cut hcut
        rw [List.length_cons] at hlen
        exact ih after.length (by omega) q after rfl
      have hcuts := cutsOff_cut c rest
      generalize hcut : cut c rest = k at hcuts
      cases hcuts with
      | gap _ hp hpiece =>
        rw [Stream.ofText_gap p hcut hp (closed_of_cut hcut hpiece)]
        exact .gap hcut hp hpiece (hafter hcut _)
      | openComment hc hrest =>
        subst hc
        rw [Stream.ofText_openComment p hrest]
        exact .openComment hrest
      | @lexeme piece after hp =>
        cases hs : piece.symbol? with
        | some symbol =>
          rw [Stream.ofText_lexeme p hcut hp.isLexeme hs]
          exact .lexeme hcut hp hs (hafter hcut _)
        | none =>
          rw [Stream.ofText_outOfRange p hcut hp.isLexeme hs]
          exact .outOfRange hcut hp hs
      | unterminated hc _ =>
        subst hc
        rw [Stream.ofText_stuck p (by simp [hcut]) rfl]
        exact .stuck (by simp [hcut]) rfl
      | unexpected hblank hhash hquote _ =>
        rw [Stream.ofText_stuck p (by simp [hcut]) rfl]
        exact .stuck (by simp [hcut]) rfl

/-- The tokens of tiles with the given text before them. -/
def Tile.tokens (before : List Char) : List Tile → List Token
  | [] => []
  | t :: tiles => ⟨t.symbol, .behind (before ++ t.gap)⟩ :: tokens (before ++ t.text) tiles

/-- What ends the tokens of a text, given what stands before and behind its last tile. -/
inductive EndsStream (before rest : List Char) : Option Cause → Stream → Prop where
  | gap : IsGap rest → ¬ InComment rest →
    EndsStream before rest none ⟨[⟨.finish, .behind (before ++ rest)⟩], none⟩
  | inComment : InComment rest →
    EndsStream before rest none ⟨[⟨.finish, { Position.behind (before ++ rest) with
      column := (Position.behind (before ++ rest)).column + 1 }⟩], none⟩
  | failure {gap more : List Char} {c : Char} {cause : Cause} : rest = gap ++ c :: more →
    IsGap gap → isBlank c = false → c ≠ '#' →
    EndsStream before rest (some cause) ⟨[], some (.located cause (.behind (before ++ gap)))⟩

/-- Where no gap begins there is neither a blank nor a comment. -/
theorem not_gap_of_cut {c : Char} {rest : List Char}
    (h : ∀ piece after, cut c rest = .piece piece after → piece.isLexeme = true) :
    isBlank c = false ∧ c ≠ '#' := by
  constructor
  · rw [Bool.eq_false_iff]
    intro hblank
    have hcut : cut c rest = .piece (.blank c) rest := by rw [cut_eq, Opening.of_isBlank hblank]
    cases h _ _ hcut
  · rintro rfl
    by_cases hmem : '#' ∈ rest
    · obtain ⟨body, after, rfl, hbody⟩ := List.eq_append_cons_of_mem hmem
      cases h _ _ (comment_closed hbody after)
    · cases h _ _ (comment_open hmem)

namespace Tiling

/-- What is read of a text that is laid out with tiles and has another one before it: their
tokens where their lexemes begin, and what ends them. -/
def ReadAs (t : Tiling) (before : List Char) (s : Stream) : Prop :=
  ∃ finish, EndsStream (before ++ t.tiles.flatMap Tile.text) t.rest t.cause? finish ∧
    s = finish.before (Tile.tokens before t.tiles)

theorem readAs_of_endsStream {before rest : List Char} {cause? : Option Cause} {finish : Stream}
    (h : EndsStream before rest cause? finish) : ReadAs ⟨[], rest, cause?⟩ before finish := by
  refine ⟨finish, ?_, rfl⟩
  rwa [List.flatMap_nil, List.append_nil]

theorem ReadAs.lay {t : Tiling} {before : List Char} {tile : Tile} {s : Stream}
    (h : t.ReadAs (before ++ tile.text) s) :
    (t.lay tile).ReadAs before (s.before [⟨tile.symbol, .behind (before ++ tile.gap)⟩]) := by
  obtain ⟨finish, hends, rfl⟩ := h
  refine ⟨finish, ?_, rfl⟩
  rwa [Tiling.lay, List.flatMap_cons, ← List.append_assoc]

end Tiling

theorem Reads.readAs {p : Position} {text : List Char} {s : Stream} (h : Reads p text s)
    {before gap : List Char} (hgap : IsGap gap) (hp : p = .behind (before ++ gap)) :
    (Tiling.ofText gap text).ReadAs before s := by
  induction h generalizing before gap with
  | finish =>
    rw [Tiling.ofText_nil, hp]
    exact Tiling.readAs_of_endsStream (.gap hgap hgap.not_inComment)
  | @openComment p body hbody =>
    have hcut : cut '#' body = .piece (.comment body false) [] := comment_open hbody
    have htext := text_append_of_cut hcut
    rw [List.append_nil] at htext
    rw [Tiling.ofText_gap hcut rfl, Tiling.ofText_nil, htext, hp, Position.after_behind,
      List.append_assoc]
    exact Tiling.readAs_of_endsStream (.inComment ⟨gap, body, hgap, hbody, rfl⟩)
  | gap hcut hpiece htext _ ih =>
    rw [Tiling.ofText_gap hcut hpiece]
    refine ih (hgap.append htext) ?_
    rw [hp, Position.after_behind, List.append_assoc]
  | lexeme hcut hpiece hs _ ih =>
    rw [Tiling.ofText_lexeme hcut hpiece.isLexeme hs, hp]
    refine .lay (ih .nil ?_)
    rw [hp, Position.after_behind, List.append_nil, List.append_assoc]
    rfl
  | outOfRange hcut hpiece hs =>
    obtain ⟨hblank, hhash⟩ := not_gap_of_cut fun _ _ h => by
      cases hcut.symm.trans h
      exact hpiece.isLexeme
    rw [Tiling.ofText_outOfRange hcut hpiece.isLexeme hs, text_append_of_cut hcut, hp]
    exact Tiling.readAs_of_endsStream (.failure rfl hgap hblank hhash)
  | stuck hstuck hcause =>
    obtain ⟨hblank, hhash⟩ := not_gap_of_cut fun _ _ h => absurd h (hstuck _ _)
    rw [Tiling.ofText_stuck hstuck, hcause, hp]
    exact Tiling.readAs_of_endsStream (.failure rfl hgap hblank hhash)

/-- Tokens stand where they are read. A text is laid out with tiles, and each of its tokens is
what a tile stands for, at the position that the characters before its lexeme give. If
something is wrong behind the tiles, the error is at the position of the first character
there that belongs to no gap. Otherwise the end is at the position behind the whole text, one
column further on if the text ends inside a comment. -/
theorem tokenize_places_tokens (text : String) :
    ∃ t : Tiling, t.Covers text.toList ∧ t.ReadAs [] (tokenize text) := by
  refine ⟨.ofText [] text.toList, Tiling.covers_ofText .nil text.toList, ?_⟩
  rw [tokenize_eq_ofText]
  exact (reads_ofText .start text.toList).readAs .nil rfl

/-- A string over two lines, a token behind it, and a comment that nothing closes. -/
example : (tokenize "\"a\nb\" x\n#").tokens.map Token.position = [⟨1, 1⟩, ⟨2, 4⟩, ⟨3, 3⟩] := by
  decide

end Scriptling
