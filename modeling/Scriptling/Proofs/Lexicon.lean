import Scriptling.Proofs.Spelling

/-!
# Words, numbers, strings and operators

What a lexeme is, apart from how a text is cut. The four classes of lexemes differ in their
first characters, and so do they from blanks and comments. Hence all lexemes that a text begins
with are of one class, and the longest of them is the one that is cut off.
-/
namespace Scriptling

/-- What a character begins. -/
inductive Opening where
  | blank
  | comment
  | word
  | number
  | string
  | operator
deriving DecidableEq

namespace Opening

def of (c : Char) : Opening :=
  if isBlank c then .blank
  else if c = '#' then .comment
  else if isWordStart c then .word
  else if c.isDigit then .number
  else if c = '"' then .string
  else .operator

end Opening

/-- A first character of one class, and further ones of another. -/
def IsRun (first more : Char → Bool) (t : List Char) : Prop :=
  ∃ c rest, t = c :: rest ∧ first c = true ∧ ∀ d ∈ rest, more d = true

def IsWord (t : List Char) : Prop := IsRun isWordStart isWordChar t

/-- Digits and underscores behind a digit, and perhaps as many again behind a point. -/
def IsNumber (t : List Char) : Prop :=
  IsRun Char.isDigit isNumeral t ∨
    ∃ whole fraction, IsRun Char.isDigit isNumeral whole ∧ IsRun Char.isDigit isNumeral fraction ∧
      t = whole ++ '.' :: fraction

def IsString (t : List Char) : Prop := ∃ body, '"' ∉ body ∧ t = '"' :: (body ++ ['"'])

def IsOperator (t : List Char) : Prop := t ∈ pairs ∨ ∃ c ∈ singles, t = [c]

/-- The lexemes of a class. -/
def Opening.Forms : Opening → List Char → Prop
  | .word => IsWord
  | .number => IsNumber
  | .string => IsString
  | .operator => IsOperator
  | .blank | .comment => fun _ => False

/-- Whether a text is a word, a number, a string or an operator. -/
def IsLexeme (t : List Char) : Prop := ∃ o : Opening, o.Forms t

/-- Whether no longer lexeme begins where this one does, with the given text behind it. -/
structure IsLongest (lexeme behind : List Char) : Prop where
  isLexeme : IsLexeme lexeme
  length_le : ∀ t, IsLexeme t → t <+: lexeme ++ behind → t.length ≤ lexeme.length

/-- The number that a literal stands for. -/
def literalValue (t : List Char) : Float := (Decimal.ofLiteral t).toFloat

/-- What the lexemes of a class stand for. Numbers that are too large stand for nothing. -/
def Opening.Denotes : Opening → List Char → Symbol → Prop
  | .word, t, s => IsWord t ∧ s = .ofWord (String.ofList t)
  | .number, t, s =>
    IsNumber t ∧ Binary.isInfinite (literalValue t) = false ∧ s = .number (literalValue t)
  | .string, t, s => ∃ body, '"' ∉ body ∧ t = '"' :: (body ++ ['"']) ∧ s = .string (.ofList body)
  | .operator, t, s => IsOperator t ∧ s = .mark (String.ofList t)
  | .blank, _, _ | .comment, _, _ => False

/-- Whether a lexeme stands for a symbol. -/
def Denotes (t : List Char) (s : Symbol) : Prop := ∃ o : Opening, o.Denotes t s

/-- Blanks and closed comments. -/
inductive IsGap : List Char → Prop where
  | nil : IsGap []
  | blank {c : Char} {gap : List Char} : isBlank c = true → IsGap gap → IsGap (c :: gap)
  | comment {body gap : List Char} : '#' ∉ body → IsGap gap →
    IsGap ('#' :: (body ++ '#' :: gap))

theorem IsGap.append {gap gap' : List Char} (h : IsGap gap) (h' : IsGap gap') :
    IsGap (gap ++ gap') := by
  induction h with
  | nil => exact h'
  | blank hc _ ih => exact .blank hc ih
  | @comment body gap hbody _ ih =>
    have heq : '#' :: (body ++ '#' :: gap) ++ gap' = '#' :: (body ++ '#' :: (gap ++ gap')) := by
      simp
    rw [heq]
    exact .comment hbody ih

namespace Opening

/-- Which characters begin what. -/
def Begins : Opening → Char → Prop
  | .blank, c => isBlank c = true
  | .comment, c => c = '#'
  | .word, c => isWordStart c = true
  | .number, c => c.isDigit = true
  | .string, c => c = '"'
  | .operator, c => isBlank c = false ∧ c ≠ '#' ∧ c ≠ '"'

theorem begins_of (c : Char) : (of c).Begins c := by
  unfold of
  repeat' split
  all_goals first
    | assumption
    | exact ⟨Bool.eq_false_iff.2 ‹_›, ‹_›, ‹_›⟩

theorem of_isBlank {c : Char} (h : isBlank c = true) : of c = .blank := by
  rw [of, if_pos h]

theorem of_isWordStart {c : Char} (h : isWordStart c = true) : of c = .word := by
  have hhash : c ≠ '#' := by
    rintro rfl
    exact absurd h (by decide)
  rw [of, isBlank_of_isWordStart h, if_neg Bool.false_ne_true, if_neg hhash, if_pos h]

theorem of_isDigit {c : Char} (h : c.isDigit = true) : of c = .number := by
  have hhash : c ≠ '#' := by
    rintro rfl
    exact absurd h (by decide)
  rw [of, isBlank_of_isDigit h, if_neg Bool.false_ne_true, if_neg hhash,
    isWordStart_of_isDigit h, if_neg Bool.false_ne_true, if_pos h]

/-- The first character of a lexeme tells its class. -/
theorem Forms.exists_cons {o : Opening} {t : List Char} (h : o.Forms t) :
    ∃ c rest, t = c :: rest ∧ of c = o := by
  cases o with
  | word =>
    obtain ⟨c, rest, rfl, hc, -⟩ := h
    exact ⟨c, rest, rfl, of_isWordStart hc⟩
  | number =>
    rcases h with ⟨c, rest, rfl, hc, -⟩ | ⟨_, fraction, ⟨c, rest, rfl, hc, -⟩, -, rfl⟩
    · exact ⟨c, rest, rfl, of_isDigit hc⟩
    · exact ⟨c, rest ++ '.' :: fraction, rfl, of_isDigit hc⟩
  | string =>
    obtain ⟨body, -, rfl⟩ := h
    exact ⟨'"', body ++ ['"'], rfl, by decide⟩
  | operator =>
    have hfirst : ∀ t ∈ pairs ++ singles.map ([·]), t.head?.map of = some .operator := by decide
    have hmem : t ∈ pairs ++ singles.map ([·]) := by
      rcases h with h | ⟨c, h, rfl⟩
      · exact List.mem_append_left _ h
      · exact List.mem_append_right _ (List.mem_map_of_mem h)
    have hhead := hfirst t hmem
    cases t with
    | nil => cases hhead
    | cons c rest => exact ⟨c, rest, rfl, Option.some.inj hhead⟩
  | blank => exact h.elim
  | comment => exact h.elim

theorem Forms.unique {o o' : Opening} {t : List Char} (h : o.Forms t) (h' : o'.Forms t) :
    o = o' := by
  obtain ⟨c, rest, rfl, rfl⟩ := h.exists_cons
  obtain ⟨_, _, heq, rfl⟩ := h'.exists_cons
  cases heq
  rfl

theorem Denotes.forms {o : Opening} {t : List Char} {s : Symbol} (h : o.Denotes t s) :
    o.Forms t := by
  cases o with
  | word => exact h.1
  | number => exact h.1
  | string =>
    obtain ⟨body, hbody, rfl, -⟩ := h
    exact ⟨body, hbody, rfl⟩
  | operator => exact h.1
  | blank => exact h.elim
  | comment => exact h.elim

end Opening

/-- A lexeme stands for one symbol only. -/
theorem Denotes.unique {t : List Char} {s s' : Symbol} (h : Denotes t s) (h' : Denotes t s') :
    s = s' := by
  obtain ⟨o, ho⟩ := h
  obtain ⟨o', ho'⟩ := h'
  obtain rfl := ho.forms.unique ho'.forms
  cases o with
  | word => exact ho.2.trans ho'.2.symm
  | number => exact ho.2.2.trans ho'.2.2.symm
  | string =>
    obtain ⟨body, -, rfl, rfl⟩ := ho
    obtain ⟨body', -, heq, rfl⟩ := ho'
    have hbody := List.append_cancel_right (List.cons.inj heq).2
    rw [hbody]
  | operator => exact ho.2.trans ho'.2.symm
  | blank => exact ho.elim
  | comment => exact ho.elim

/-- A number that stands for something is not infinite. -/
theorem Denotes.not_infinite {t : List Char} {s : Symbol} (h : Denotes t s) (hn : IsNumber t) :
    Binary.isInfinite (literalValue t) = false := by
  obtain ⟨o, ho⟩ := h
  have hforms : Opening.number.Forms t := hn
  obtain rfl := ho.forms.unique hforms
  exact ho.2.1

/-- All lexemes that a text begins with are of one class. -/
theorem IsLexeme.forms {t : List Char} (h : IsLexeme t) {c : Char} {rest : List Char}
    (ht : t <+: c :: rest) : ∃ t', t = c :: t' ∧ t' <+: rest ∧ (Opening.of c).Forms t := by
  obtain ⟨o, ho⟩ := h
  obtain ⟨d, t', rfl, rfl⟩ := ho.exists_cons
  obtain ⟨rfl, ht'⟩ := List.cons_prefix_cons.1 ht
  exact ⟨t', rfl, ht', ho⟩

/-- Of the lexemes that a text begins with one is the longest. -/
theorem IsLongest.unique {lexeme lexeme' behind behind' : List Char} (h : IsLongest lexeme behind)
    (h' : IsLongest lexeme' behind') (heq : lexeme ++ behind = lexeme' ++ behind') :
    lexeme = lexeme' ∧ behind = behind' := by
  have hle : lexeme'.length ≤ lexeme.length :=
    h.length_le lexeme' h'.isLexeme (heq ▸ List.prefix_append _ _)
  have hge : lexeme.length ≤ lexeme'.length :=
    h'.length_le lexeme h.isLexeme (heq ▸ List.prefix_append _ _)
  exact List.append_inj heq (Nat.le_antisymm hge hle)

section Cutting

variable {c : Char} {rest after : List Char} {p : Piece}

theorem cut_eq (c : Char) (rest : List Char) :
    cut c rest =
      match Opening.of c with
      | .blank => .piece (.blank c) rest
      | .comment => Cut.comment rest
      | .word => .piece (.word (c :: rest.takeWhile isWordChar)) (rest.dropWhile isWordChar)
      | .number => Cut.number c rest
      | .string => Cut.string rest
      | .operator => Cut.operator c rest := by
  unfold cut Opening.of
  repeat' split
  all_goals first | rfl | contradiction

theorem prefix_takeWhile {p : Char → Bool} {t text : List Char} (h : t <+: text)
    (ht : ∀ d ∈ t, p d = true) : t <+: text.takeWhile p := by
  obtain ⟨behind, rfl⟩ := h
  rw [List.takeWhile_append_of_pos ht]
  exact List.prefix_append _ _

theorem longest_word (hc : isWordStart c = true) (rest : List Char) :
    IsLongest (c :: rest.takeWhile isWordChar) (rest.dropWhile isWordChar) := by
  refine ⟨⟨.word, c, _, rfl, hc, List.all_eq_true.1 List.all_takeWhile⟩, fun t ht hpre => ?_⟩
  rw [List.cons_append, List.takeWhile_append_dropWhile] at hpre
  obtain ⟨t', rfl, hpre', hforms⟩ := ht.forms hpre
  rw [Opening.of_isWordStart hc] at hforms
  obtain ⟨_, _, heq, -, hmore⟩ := hforms
  cases heq
  exact Nat.succ_le_succ (prefix_takeWhile hpre' hmore).length_le

/-- A run of characters ends where another one follows. -/
theorem span_append_cons {p : Char → Bool} {run : List Char} {d : Char}
    (hrun : ∀ c ∈ run, p c = true) (hd : p d = false) (behind : List Char) :
    (run ++ d :: behind).takeWhile p = run ∧ (run ++ d :: behind).dropWhile p = d :: behind := by
  rw [List.takeWhile_append_of_pos hrun, List.dropWhile_append_of_pos hrun]
  simp [hd]

theorem isRun_takeWhile (hc : c.isDigit = true) (rest : List Char) :
    IsRun Char.isDigit isNumeral (c :: rest.takeWhile isNumeral) :=
  ⟨c, _, rfl, hc, List.all_eq_true.1 List.all_takeWhile⟩

/-- What is cut off is a number, and it goes at least as far as its first run. -/
theorem exists_number (hc : c.isDigit = true) (rest : List Char) :
    ∃ t after, Cut.number c rest = .piece (.number t) after ∧ IsNumber t ∧
      (c :: rest.takeWhile isNumeral) <+: t := by
  have hwhole := isRun_takeWhile hc rest
  unfold Cut.number
  split
  · rename_i d behind _
    split
    · rename_i hd
      exact ⟨_, _, rfl, .inr ⟨_, _, hwhole, isRun_takeWhile hd behind, rfl⟩,
        List.prefix_append _ _⟩
    · exact ⟨_, _, rfl, .inl hwhole, List.prefix_refl _⟩
  · exact ⟨_, _, rfl, .inl hwhole, List.prefix_refl _⟩

/-- A point with a digit behind it belongs to the number. -/
theorem number_of_point {whole fraction : List Char} {d : Char}
    (hwhole : ∀ c ∈ whole, isNumeral c = true) (hd : d.isDigit = true) :
    Cut.number c (whole ++ '.' :: d :: fraction) =
      .piece (.number (c :: whole ++ '.' :: d :: fraction.takeWhile isNumeral))
        (fraction.dropWhile isNumeral) := by
  obtain ⟨htake, hdrop⟩ := span_append_cons hwhole (by decide : isNumeral '.' = false)
    (d :: fraction)
  rw [Cut.number, htake, hdrop]
  simp only [hd, if_true]

theorem longest_number (hc : c.isDigit = true) (rest : List Char) :
    ∃ t after, Cut.number c rest = .piece (.number t) after ∧ IsNumber t ∧ IsLongest t after := by
  obtain ⟨number, after, h, hnumber, hwhole⟩ := exists_number hc rest
  have htext : number ++ after = c :: rest :=
    text_append_of_cut ((Piece.cut_of_isDigit hc rest).trans h)
  refine ⟨number, after, h, hnumber, ⟨.number, hnumber⟩, fun t ht hpre => ?_⟩
  rw [htext] at hpre
  obtain ⟨t', rfl, hpre', hforms⟩ := ht.forms hpre
  rw [Opening.of_isDigit hc] at hforms
  rcases hforms with ⟨_, _, heq, -, hmore⟩ | ⟨whole, fraction, hrun, hrun', heq⟩
  · cases heq
    have hle := Nat.succ_le_succ (prefix_takeWhile hpre' hmore).length_le
    exact Nat.le_trans hle hwhole.length_le
  · obtain ⟨_, ws, rfl, -, hws⟩ := hrun
    obtain ⟨d, fs, rfl, hd, hfs⟩ := hrun'
    rw [List.cons_append] at heq
    obtain ⟨rfl, rfl⟩ := List.cons.inj heq
    obtain ⟨behind, rfl⟩ := hpre'
    rw [List.append_assoc, List.cons_append, List.cons_append, number_of_point hws hd] at h
    cases h
    have hle := (prefix_takeWhile (List.prefix_append fs behind) hfs).length_le
    simp only [List.length_cons, List.length_append, List.cons_append]
    omega

theorem all_ne_of_not_mem {q : Char} {body : List Char} (h : q ∉ body) :
    ∀ d ∈ body, decide (d ≠ q) = true := by
  intro d hd
  rw [decide_eq_true_eq]
  rintro rfl
  exact h hd

theorem span_of_not_mem {q : Char} {body : List Char} (h : q ∉ body) (after : List Char) :
    (body ++ q :: after).takeWhile (fun d => decide (d ≠ q)) = body ∧
      (body ++ q :: after).dropWhile (fun d => decide (d ≠ q)) = q :: after :=
  span_append_cons (all_ne_of_not_mem h) (by simp) after

/-- A comment ends with the next hash. -/
theorem comment_closed {body : List Char} (h : '#' ∉ body) (after : List Char) :
    Cut.comment (body ++ '#' :: after) = .piece (.comment body true) after := by
  obtain ⟨htake, hdrop⟩ := span_of_not_mem h after
  rw [Cut.comment, htake, hdrop]

/-- A comment without another hash ends with the text. -/
theorem comment_open {body : List Char} (h : '#' ∉ body) :
    Cut.comment body = .piece (.comment body false) [] := by
  have htake := List.takeWhile_eq_self_iff.2 (all_ne_of_not_mem h)
  have hdrop := List.dropWhile_eq_nil_iff.2 (all_ne_of_not_mem h)
  rw [Cut.comment, htake, hdrop]

theorem string_closed {body : List Char} (h : '"' ∉ body) (after : List Char) :
    Cut.string (body ++ '"' :: after) = .piece (.string body) after := by
  obtain ⟨htake, hdrop⟩ := span_of_not_mem h after
  rw [Cut.string, htake, hdrop]

theorem string_open {body : List Char} (h : '"' ∉ body) : Cut.string body = .unterminated := by
  have hdrop := List.dropWhile_eq_nil_iff.2 (all_ne_of_not_mem h)
  rw [Cut.string, hdrop]

theorem longest_string {body : List Char} (hbody : '"' ∉ body) (after : List Char) :
    IsLongest ('"' :: (body ++ ['"'])) after := by
  refine ⟨⟨.string, body, hbody, rfl⟩, fun t ht hpre => ?_⟩
  obtain ⟨_, _, _, hforms⟩ := ht.forms hpre
  obtain ⟨body', hbody', rfl⟩ : IsString t := hforms
  -- Both strings end with the first quote.
  obtain ⟨after', heq⟩ := (List.cons_prefix_cons.1 hpre).2
  have htext : body' ++ '"' :: after' = body ++ '"' :: after := by
    simpa using heq
  have hcut := string_closed hbody' after'
  rw [htext, string_closed hbody after] at hcut
  cases hcut
  exact Nat.le_refl _

/-- An operator that a text begins with is its first two characters or its first one. -/
theorem operator_of_prefix (hc : Opening.of c = .operator) {t : List Char} (ht : IsLexeme t)
    (hpre : t <+: c :: rest) :
    (∃ d after, rest = d :: after ∧ [c, d] ∈ pairs ∧ t = [c, d]) ∨ (c ∈ singles ∧ t = [c]) := by
  have hpairs : ∀ t ∈ pairs, t.length = 2 := by decide
  obtain ⟨_, _, _, hforms⟩ := ht.forms hpre
  rw [hc] at hforms
  rcases hforms with h | ⟨d, hd, rfl⟩
  · obtain ⟨a, d, rfl⟩ := List.length_eq_two.1 (hpairs t h)
    obtain ⟨rfl, after, rfl⟩ := List.cons_prefix_cons.1 hpre
    exact .inl ⟨d, after, rfl, h, rfl⟩
  · obtain ⟨rfl, -⟩ := List.cons_prefix_cons.1 hpre
    exact .inr ⟨hd, rfl⟩

theorem longest_pair (hc : Opening.of c = .operator) {d : Char} (h : [c, d] ∈ pairs)
    (after : List Char) : IsLongest [c, d] after := by
  refine ⟨⟨.operator, .inl h⟩, fun t ht hpre => ?_⟩
  rcases operator_of_prefix hc ht hpre with ⟨_, _, _, _, rfl⟩ | ⟨_, rfl⟩
  · exact Nat.le_refl 2
  · exact Nat.le_succ 1

theorem longest_single (hc : Opening.of c = .operator) (h : c ∈ singles)
    (hpair : ∀ d after, rest = d :: after → [c, d] ∉ pairs) : IsLongest [c] rest := by
  refine ⟨⟨.operator, .inr ⟨c, h, rfl⟩⟩, fun t ht hpre => ?_⟩
  rcases operator_of_prefix hc ht hpre with ⟨d, after, heq, hmem, _⟩ | ⟨_, rfl⟩
  · exact absurd hmem (hpair d after heq)
  · exact Nat.le_refl 1

/-- A literal stands for a finite number or for an infinity. -/
theorem number?_eq (t : List Char) :
    Lexeme.number? t =
      if Binary.isInfinite (literalValue t) then none else some (literalValue t) := by
  have hle : Decimal.nearestBits (Decimal.ofLiteral t).digits (Decimal.ofLiteral t).exponent ≤
      Binary.infinityBits := Decimal.nearestBits_le_infinityBits _ _
  have hbits : Binary.magnitudeBits (literalValue t) ≤ Binary.infinityBits := by
    change (Binary.ofMagnitude false _).toBits.toNat % _ ≤ _
    rw [Binary.toNat_toBits_ofMagnitude hle]
    exact Nat.le_trans (Nat.mod_le _ _) hle
  have hfinite : Binary.isFinite (literalValue t) = !Binary.isInfinite (literalValue t) := by
    rw [Binary.isFinite, Binary.isInfinite, ← decide_not, decide_eq_decide]
    omega
  unfold Lexeme.number?
  change (if Binary.isFinite (literalValue t) then some (literalValue t) else none) = _
  rw [hfinite]
  cases Binary.isInfinite (literalValue t) <;> rfl

/-- The symbol of a piece, wherever that stands. -/
def Piece.symbol? (p : Piece) : Option Symbol := Lexeme.symbol? ⟨p, .start⟩

/-- A piece that is the longest lexeme where it stands, and what it stands for. Only a number
may stand for nothing. -/
structure Piece.Meaningful (p : Piece) (behind : List Char) : Prop where
  isLexeme : p.isLexeme = true
  longest : IsLongest p.text behind
  denotes : ∀ s, p.symbol? = some s → Denotes p.text s
  infinite : p.symbol? = none → IsNumber p.text ∧ Binary.isInfinite (literalValue p.text) = true

namespace Piece.Meaningful

theorem word {t : List Char} (h : IsWord t) (hlongest : IsLongest t after) :
    Meaningful (.word t) after where
  isLexeme := rfl
  longest := hlongest
  denotes := by
    rintro _ ⟨⟩
    exact ⟨.word, h, rfl⟩
  infinite := nofun

theorem number {t : List Char} (h : IsNumber t) (hlongest : IsLongest t after) :
    Meaningful (.number t) after := by
  have hsymbol : (Piece.number t).symbol? =
      (if Binary.isInfinite (literalValue t) then none else some (literalValue t)).map .number :=
    congrArg (Option.map Symbol.number) (number?_eq t)
  refine ⟨rfl, hlongest, fun s hs => ?_, fun hnone => ?_⟩
  · rw [hsymbol] at hs
    cases hinfinite : Binary.isInfinite (literalValue t) with
    | true =>
      rw [hinfinite] at hs
      cases hs
    | false =>
      rw [hinfinite] at hs
      cases hs
      exact ⟨.number, h, hinfinite, rfl⟩
  · refine ⟨h, ?_⟩
    cases hinfinite : Binary.isInfinite (literalValue t) with
    | true => exact hinfinite
    | false =>
      rw [hsymbol, hinfinite] at hnone
      cases hnone

theorem string {body : List Char} (h : '"' ∉ body) (after : List Char) :
    Meaningful (.string body) after where
  isLexeme := rfl
  longest := longest_string h after
  denotes := by
    rintro _ ⟨⟩
    exact ⟨.string, body, h, rfl, rfl⟩
  infinite := nofun

theorem operator {t : List Char} (h : IsOperator t) (hlongest : IsLongest t after) :
    Meaningful (.operator t) after where
  isLexeme := rfl
  longest := hlongest
  denotes := by
    rintro _ ⟨⟩
    exact ⟨.operator, h, rfl⟩
  infinite := nofun

end Piece.Meaningful

/-- What can be cut off a text that begins with the given character. -/
inductive CutsOff (c : Char) (rest : List Char) : Cut → Prop where
  | gap {p : Piece} {after : List Char} : isBlank c = true ∨ c = '#' → p.isLexeme = false →
    IsGap p.text → CutsOff c rest (.piece p after)
  | openComment : c = '#' → '#' ∉ rest → CutsOff c rest (.piece (.comment rest false) [])
  | lexeme {p : Piece} {after : List Char} : p.Meaningful after → CutsOff c rest (.piece p after)
  | unterminated : c = '"' → '"' ∉ rest → CutsOff c rest .unterminated
  | unexpected : isBlank c = false → c ≠ '#' → c ≠ '"' → (∀ t, IsLexeme t → ¬ t <+: c :: rest) →
    CutsOff c rest .unexpected

/-- The first two characters are tried as an operator before the first one. -/
theorem cutsOff_operator (hc : Opening.of c = .operator) (rest : List Char) :
    CutsOff c rest (Cut.operator c rest) := by
  have hsingle : (∀ d after, rest = d :: after → [c, d] ∉ pairs) →
      CutsOff c rest (Cut.single c rest) := by
    intro hpair
    unfold Cut.single
    split
    · rename_i h
      exact .lexeme (.operator (.inr ⟨c, h, rfl⟩) (longest_single hc h hpair))
    · rename_i h
      obtain ⟨hblank, hhash, hquote⟩ : Opening.operator.Begins c := hc ▸ Opening.begins_of c
      refine .unexpected hblank hhash hquote fun t ht hpre => ?_
      rcases operator_of_prefix hc ht hpre with ⟨d, after, heq, hmem, _⟩ | ⟨hmem, _⟩
      · exact hpair d after heq hmem
      · exact h hmem
  cases rest with
  | nil => exact hsingle nofun
  | cons d after =>
    by_cases hpair : [c, d] ∈ pairs
    · rw [Cut.operator, if_pos hpair]
      exact .lexeme (.operator (.inl hpair) (longest_pair hc hpair after))
    · rw [Cut.operator, if_neg hpair]
      refine hsingle ?_
      rintro _ _ ⟨⟩
      exact hpair

theorem cutsOff_cut (c : Char) (rest : List Char) : CutsOff c rest (cut c rest) := by
  have hbegins := Opening.begins_of c
  rw [cut_eq]
  cases ho : Opening.of c with
  | blank =>
    rw [ho] at hbegins
    exact .gap (.inl hbegins) rfl (.blank hbegins .nil)
  | comment =>
    rw [ho] at hbegins
    by_cases hhash : '#' ∈ rest
    · obtain ⟨body, after, rfl, hbody⟩ := List.eq_append_cons_of_mem hhash
      rw [comment_closed hbody after]
      exact .gap (.inr hbegins) rfl (.comment hbody .nil)
    · rw [comment_open hhash]
      exact .openComment hbegins hhash
  | word =>
    rw [ho] at hbegins
    exact .lexeme (.word ⟨c, _, rfl, hbegins, List.all_eq_true.1 List.all_takeWhile⟩
      (longest_word hbegins rest))
  | number =>
    rw [ho] at hbegins
    obtain ⟨t, after, hcut, hnumber, hlongest⟩ := longest_number hbegins rest
    rw [hcut]
    exact .lexeme (.number hnumber hlongest)
  | string =>
    rw [ho] at hbegins
    by_cases hquote : '"' ∈ rest
    · obtain ⟨body, after, rfl, hbody⟩ := List.eq_append_cons_of_mem hquote
      rw [string_closed hbody after]
      exact .lexeme (.string hbody after)
    · rw [string_open hquote]
      exact .unterminated hbegins hquote
  | operator => exact cutsOff_operator ho rest

end Cutting

end Scriptling
