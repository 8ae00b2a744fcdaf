import Scriptling.ShiftReduce.Scanner

/-!
# Patterns and pieces

The patterns of the grammar cut a text at the same places as `cut` does. Only one
pattern can match where a piece begins, since the classes of first characters are
disjoint, and no match has to be shortened for the sake of what follows it. A run
of blanks is one match and several pieces, which makes no difference to what is
left when blanks are dropped.
-/
namespace Scriptling

namespace CharRange

/-- Whether no range of one class meets a range of the other. -/
def disjoint (rs ss : List CharRange) : Bool :=
  rs.all fun r => ss.all fun s => decide (r.last < s.first) || decide (s.last < r.first)

theorem not_inRanges_of_disjoint {rs ss : List CharRange} (h : disjoint rs ss = true) {c : Char}
    (hc : inRanges rs c = true) : inRanges ss c = false := by
  obtain ⟨r, hr, hrc⟩ := List.any_eq_true.1 hc
  rw [inRanges, List.any_eq_false]
  intro s hs hsc
  have hrs := List.all_eq_true.1 (List.all_eq_true.1 h r hr) s hs
  rw [contains_iff] at hrc hsc
  simp only [Bool.or_eq_true, decide_eq_true_eq] at hrs
  omega

end CharRange

theorem isDigit_iff (c : Char) : c.isDigit = true ↔ 48 ≤ c.toNat ∧ c.toNat ≤ 57 := by
  simp only [Char.isDigit, Bool.and_eq_true, decide_eq_true_eq, ge_iff_le, UInt32.le_iff_toNat_le]
  rfl

theorem isAlpha_iff (c : Char) :
    c.isAlpha = true ↔ 65 ≤ c.toNat ∧ c.toNat ≤ 90 ∨ 97 ≤ c.toNat ∧ c.toNat ≤ 122 := by
  have hc : c.isAlpha = (decide (c.val ≥ 'A'.val ∧ c.val ≤ 'Z'.val) ||
      (decide (c.val ≥ 'a'.val) && decide (c.val ≤ 'z'.val))) := rfl
  simp only [hc, Bool.or_eq_true, Bool.and_eq_true, decide_eq_true_eq, ge_iff_le,
    UInt32.le_iff_toNat_le]
  rfl

theorem isWordStart_of_isDigit {c : Char} (h : c.isDigit = true) : isWordStart c = false := by
  have ha : isAscii c = true := by
    have := (isDigit_iff c).1 h
    simp only [isAscii, decide_eq_true_eq]
    omega
  simp [isWordStart, isDecimal, ha, h]

theorem isDigit_of_isBlank {c : Char} (h : isBlank c = true) : c.isDigit = false := by
  rw [Bool.eq_false_iff, ne_eq, isDigit_iff]
  intro hd
  have ha : isAscii c = true := by
    simp only [isAscii, decide_eq_true_eq]
    omega
  rw [isBlank, if_pos ha] at h
  simp only [isAsciiBlank, Bool.or_eq_true, decide_eq_true_eq] at h
  omega

theorem isWordChar_of_isBlank {c : Char} (h : isBlank c = true) : isWordChar c = false := by
  have hd := isDigit_of_isBlank h
  unfold isBlank at h
  unfold isWordChar
  split
  · rename_i ha
    rw [if_pos ha] at h
    simp only [isAsciiBlank, Bool.or_eq_true, decide_eq_true_eq] at h
    have halpha : c.isAlpha = false := by
      rw [Bool.eq_false_iff, ne_eq, isAlpha_iff]
      omega
    have hscore : (c == '_') = false := by
      rw [beq_eq_false_iff_ne]
      rintro rfl
      exact absurd h (by decide)
    rw [Char.isAlphanum, halpha, hd, hscore]
    rfl
  · rename_i ha
    rw [if_neg ha] at h
    exact CharRange.not_inRanges_of_disjoint (by decide +kernel) h

theorem isWordStart_of_isBlank {c : Char} (h : isBlank c = true) : isWordStart c = false := by
  rw [isWordStart, isWordChar_of_isBlank h, Bool.false_and]

namespace ShiftReduce

namespace Pattern

/-- Nothing is given back if what follows matches at once, or nowhere before. -/
theorem backOff_eq {p : Char → Bool} {k : List Char → Option Match} {text : List Char}
    (h : (k (text.dropWhile p)).isSome = true ∨ ∀ c rest, p c = true → k (c :: rest) = none) :
    backOff p k text = (k (text.dropWhile p)).map (.after (text.takeWhile p)) := by
  induction text with
  | nil => exact Option.map_id'.symm
  | cons c rest ih =>
    unfold backOff
    by_cases hc : p c = true
    · simp only [List.dropWhile_cons, List.takeWhile_cons, hc, if_true] at h ⊢
      rw [ih h, Option.map_map]
      rcases h with h | h
      · obtain ⟨m, hm⟩ := Option.isSome_iff_exists.1 h
        rw [hm]
        rfl
      · rw [h c rest hc, Option.or_none]
        rfl
    · simp only [List.dropWhile_cons, List.takeWhile_cons, hc]
      exact Option.map_id'.symm

theorem followedBy_one {p : Char → Bool} {s : Pattern} {k : List Char → Option Match} {c : Char}
    {rest : List Char} (hc : p c = true) :
    (seq (one p) s).followedBy k (c :: rest) = (s.followedBy k rest).map (.after [c]) := by
  rw [followedBy, followedBy, if_pos hc]

/-- A pattern for one character first matches no other first character. -/
theorem followedBy_one_eq_none {p : Char → Bool} {s : Pattern} {k : List Char → Option Match}
    {c : Char} {rest : List Char} (hc : p c = false) :
    (seq (one p) s).followedBy k (c :: rest) = none := by
  rw [followedBy, followedBy, if_neg (by simp [hc])]

/-- A character and a run of others, behind which the rest is sure to match. -/
theorem followedBy_run {p q : Char → Bool} {k : List Char → Option Match} {c : Char}
    {rest : List Char} (hc : p c = true) (hk : (k (rest.dropWhile q)).isSome = true) :
    (seq (one p) (many q)).followedBy k (c :: rest) =
      (k (rest.dropWhile q)).map (.after (c :: rest.takeWhile q)) := by
  rw [followedBy_one hc, followedBy, backOff_eq (.inl hk), Option.map_map]
  rfl

theorem match?_run {p q : Char → Bool} {c : Char} {rest : List Char} (hc : p c = true) :
    (seq (one p) (many q)).match? (c :: rest) =
      some ⟨c :: rest.takeWhile q, rest.dropWhile q⟩ := by
  rw [match?, followedBy_run hc rfl]
  simp [Match.after]

/-- The given text matches only itself. -/
theorem match?_literal (t text : List Char) :
    (literal t).match? text =
      if text.take t.length = t then some ⟨t, text.drop t.length⟩ else none := by
  induction t generalizing text with
  | nil => rfl
  | cons a t ih =>
    cases text with
    | nil => rfl
    | cons c rest =>
      unfold literal
      by_cases hc : c = a
      · subst hc
        rw [match?, followedBy_one (by simp), ← match?, ih]
        by_cases ht : rest.take t.length = t
        · simp [ht, Match.after]
        · simp [ht]
      · rw [match?, followedBy_one_eq_none (by simpa using hc)]
        simp [hc]

theorem followedBy_digits {k : List Char → Option Match} {c : Char} {rest : List Char}
    (hc : c.isDigit = true) (hk : (k (rest.dropWhile isNumeral)).isSome = true) :
    digits.followedBy k (c :: rest) =
      (k (rest.dropWhile isNumeral)).map (.after (c :: rest.takeWhile isNumeral)) :=
  followedBy_run hc hk

theorem followedBy_optional {r : Pattern} {k : List Char → Option Match} {text : List Char} :
    (optional r).followedBy k text = (r.followedBy k text).or (k text) := by
  rw [followedBy]

theorem match?_number {c : Char} (hc : c.isDigit = true) (rest : List Char) :
    ∃ m, number.match? (c :: rest) = some m ∧
      Cut.number c rest = .piece (.number m.text) m.rest := by
  rw [match?, number, followedBy, followedBy_digits hc (by simp [followedBy_optional]),
    followedBy_optional]
  unfold Cut.number
  rcases hd : rest.dropWhile isNumeral with _ | ⟨x, after⟩
  · exact ⟨_, rfl, by simp [Match.after]⟩
  · by_cases hx : x = '.'
    · subst hx
      rw [followedBy_one (by simp)]
      cases after with
      | nil => exact ⟨_, rfl, by simp [Match.after]⟩
      | cons d after =>
        by_cases hdig : d.isDigit = true
        · rw [followedBy_digits hdig rfl]
          exact ⟨_, rfl, by simp [Match.after, hdig]⟩
        · rw [digits, followedBy_one_eq_none (by simpa using hdig)]
          exact ⟨_, rfl, by simp [Match.after, hdig]⟩
    · rw [followedBy_one_eq_none (by simpa using hx)]
      refine ⟨_, rfl, ?_⟩
      split
      · rename_i h
        cases h
        exact absurd rfl hx
      · simp [Match.after]

/-- A run without a character ends at that character. -/
theorem eq_of_dropWhile_ne {x y : Char} {rest after : List Char}
    (h : rest.dropWhile (· ≠ x) = y :: after) : y = x := by
  have hy := List.head?_dropWhile_not (p := fun c => decide (c ≠ x)) rest
  rw [h] at hy
  simpa using hy

theorem match?_comment (rest : List Char) :
    ∃ body closed after, Cut.comment rest = .piece (.comment body closed) after ∧
      comment.match? ('#' :: rest) = some ⟨(Piece.comment body closed).text, after⟩ := by
  rw [match?, comment, followedBy_one (by simp), followedBy, followedBy,
    backOff_eq (.inl (by simp [followedBy_optional])), followedBy_optional]
  unfold Cut.comment
  rcases hd : rest.dropWhile (· ≠ '#') with _ | ⟨x, after⟩
  · exact ⟨_, _, _, rfl, by simp [followedBy, Match.after, Piece.text]⟩
  · obtain rfl := eq_of_dropWhile_ne hd
    exact ⟨_, _, _, rfl, by simp [followedBy, Match.after, Piece.text]⟩

/-- A string ends at the first quote, and there is no match if there is none. -/
theorem match?_string (rest : List Char) :
    (∃ body after, Cut.string rest = .piece (.string body) after ∧
      string.match? ('"' :: rest) = some ⟨(Piece.string body).text, after⟩) ∨
    Cut.string rest = .unterminated ∧ string.match? ('"' :: rest) = none := by
  rw [match?, string, followedBy_one (by simp), followedBy, followedBy, backOff_eq (.inr ?_)]
  · unfold Cut.string
    rcases hd : rest.dropWhile (· ≠ '"') with _ | ⟨x, after⟩
    · exact .inr ⟨rfl, by simp [followedBy]⟩
    · obtain rfl := eq_of_dropWhile_ne hd
      exact .inl ⟨_, _, rfl, by simp [followedBy, Match.after, Piece.text]⟩
  · intro c rest hc
    simpa [followedBy] using hc

end Pattern

namespace LexRule

theorem take?_of_match? {r : LexRule} {text : List Char} {m : Match}
    (h : r.pattern.match? text = some m) : r.take? text = some (r.piece? m.text, m) := by
  rw [take?, h]
  rfl

theorem take?_eq_none {r : LexRule} {text : List Char} (h : r.pattern.match? text = none) :
    r.take? text = none := by
  rw [take?, h]
  rfl

theorem mem_texts_two (t : List Char) : t ∈ texts.filter (·.length = 2) ↔ t ∈ pairs :=
  ⟨fun h => (by decide : texts.filter (·.length = 2) ⊆ pairs) h,
    fun h => (by decide : pairs ⊆ texts.filter (·.length = 2)) h⟩

theorem mem_texts_one (c : Char) : [c] ∈ texts.filter (·.length = 1) ↔ c ∈ singles := by
  have hsub : texts.filter (·.length = 1) ⊆ singles.map ([·]) := by decide
  have hsup : singles.map ([·]) ⊆ texts.filter (·.length = 1) := by decide
  constructor
  · intro h
    simpa using hsub h
  · intro h
    exact hsup (List.mem_map.2 ⟨c, h, rfl⟩)

/-- Of literals of one length only one can match. -/
theorem findSome?_literal {n : Nat} {ts : List (List Char)} (h : ∀ t ∈ ts, t.length = n)
    (text : List Char) :
    (ts.map literal).findSome? (·.take? text) =
      if text.take n ∈ ts then
        some (some (.operator (text.take n)), ⟨text.take n, text.drop n⟩)
      else none := by
  induction ts with
  | nil => rfl
  | cons t ts ih =>
    have ht : t.length = n := h t List.mem_cons_self
    have hm := Pattern.match?_literal t text
    rw [ht] at hm
    rw [List.map_cons, List.findSome?_cons]
    by_cases heq : text.take n = t
    · rw [if_pos heq] at hm
      rw [take?_of_match? hm, if_pos (by rw [heq]; exact List.mem_cons_self), heq]
      rfl
    · rw [if_neg heq] at hm
      rw [take?_eq_none hm]
      simp [ih fun t ht => h t (List.mem_cons_of_mem _ ht), heq]

/-- What the literals make of a text is what the operators make of it. -/
theorem findSome?_operator (c : Char) (rest : List Char) :
    ((texts.filter (·.length = 2)).map literal ++
      (texts.filter (·.length = 1)).map literal).findSome? (·.take? (c :: rest)) =
      match Cut.operator c rest with
      | .piece p after => some (some p, ⟨p.text, after⟩)
      | _ => none := by
  have hlen : ∀ n, ∀ t ∈ texts.filter (·.length = n), t.length = n := by
    intro n t ht
    simpa using (List.mem_filter.1 ht).2
  have hone : (match Cut.single c rest with
      | .piece p after => some (some p, Match.mk p.text after)
      | _ => none) = if c ∈ singles then some (some (.operator [c]), ⟨[c], rest⟩) else none := by
    unfold Cut.single
    by_cases hc : c ∈ singles
    · simp [hc, Piece.text]
    · simp [hc]
  rw [List.findSome?_append, findSome?_literal (hlen 2), findSome?_literal (hlen 1)]
  simp only [mem_texts_two, List.take_succ_cons, List.take_zero, mem_texts_one, List.drop_succ_cons,
    List.drop_zero]
  unfold Cut.operator
  cases rest with
  | nil =>
    have hshort : [c] ∉ pairs := fun h =>
      absurd ((by decide : ∀ t ∈ pairs, t.length = 2) _ h) (by simp)
    simp only [List.take_nil, if_neg hshort, Option.none_or]
    exact hone.symm
  | cons d after =>
    by_cases hp : [c, d] ∈ pairs
    · simp [hp, Piece.text]
    · simp only [List.take_succ_cons, List.take_zero, hp, if_false, Option.none_or]
      exact hone.symm

theorem isLexeme_of_operator {c : Char} {rest after : List Char} {p : Piece}
    (h : Cut.operator c rest = .piece p after) : p.isLexeme = true := by
  unfold Cut.operator Cut.single at h
  repeat' split at h
  all_goals cases h
  all_goals rfl

/-- No operator begins with a quote. -/
theorem operator_quote (rest : List Char) : Cut.operator '"' rest = .unexpected := by
  have hsingle : ∀ rest, Cut.single '"' rest = .unexpected := fun _ => if_neg (by decide)
  unfold Cut.operator
  split
  · rename_i d after
    have hpair : ['"', d] ∉ pairs := fun h =>
      absurd ((by decide : ∀ t ∈ pairs, t.head? ≠ some '"') _ h) (by simp)
    rw [if_neg hpair, hsingle]
  · exact hsingle _

/-- What the rules make of the front of a text is the piece that is cut off it, except
that they take a whole run of blanks. -/
theorem findSome?_all (c : Char) (rest : List Char) :
    all.findSome? (·.take? (c :: rest)) =
      if isBlank c then some (none, ⟨c :: rest.takeWhile isBlank, rest.dropWhile isBlank⟩)
      else
        match cut c rest with
        | .piece p after => some (if p.isLexeme then some p else none, ⟨p.text, after⟩)
        | _ => none := by
  have hnone : ∀ {p : Char → Bool} {s : Pattern} {f : List Char → Option Piece}, p c = false →
      (⟨.seq (.one p) s, f⟩ : LexRule).take? (c :: rest) = none := fun hc =>
    take?_eq_none (Pattern.followedBy_one_eq_none hc)
  have hnumber : ∀ {f}, c.isDigit = false → (⟨.number, f⟩ : LexRule).take? (c :: rest) = none :=
    fun hc => take?_eq_none (Pattern.followedBy_one_eq_none hc)
  rw [all, List.append_assoc, List.findSome?_append, findSome?_operator, general]
  simp only [List.findSome?_cons, List.findSome?_nil]
  unfold cut
  -- in each case of `cut`, the rules before the right one fail on the first character
  by_cases hb : isBlank c = true
  · have hhash : c ≠ '#' := by
      rintro rfl
      exact absurd hb (by decide)
    have hquote : c ≠ '"' := by
      rintro rfl
      exact absurd hb (by decide)
    rw [hnumber (isDigit_of_isBlank hb), Pattern.name, hnone (isWordStart_of_isBlank hb),
      Pattern.comment, hnone (by simpa using hhash), Pattern.string, hnone (by simpa using hquote),
      Pattern.blanks, take?_of_match? (Pattern.match?_run hb), if_pos hb]
    rfl
  rw [if_neg hb, if_neg hb]
  by_cases hhash : c = '#'
  · subst hhash
    obtain ⟨body, closed, after, hcut, hm⟩ := Pattern.match?_comment rest
    rw [hnumber (by decide), Pattern.name, hnone (by decide), take?_of_match? hm, if_pos rfl, hcut]
    rfl
  rw [if_neg hhash]
  by_cases hw : isWordStart c = true
  · have hd : c.isDigit = false := by
      rw [Bool.eq_false_iff]
      intro hd
      rw [isWordStart_of_isDigit hd] at hw
      cases hw
    rw [hnumber hd, Pattern.name, take?_of_match? (Pattern.match?_run hw), if_pos hw]
    rfl
  rw [if_neg hw]
  by_cases hd : c.isDigit = true
  · obtain ⟨m, hm, hcut⟩ := Pattern.match?_number hd rest
    rw [take?_of_match? hm, if_pos hd, hcut]
    rfl
  rw [if_neg hd, hnumber (by simpa using hd), Pattern.name, hnone (by simpa using hw),
    Pattern.comment, hnone (by simpa using hhash), Pattern.blanks, hnone (by simpa using hb)]
  by_cases hquote : c = '"'
  · subst hquote
    rw [if_pos rfl]
    rcases Pattern.match?_string rest with ⟨body, after, hcut, hm⟩ | ⟨hcut, hm⟩
    · rw [take?_of_match? hm, hcut]
      simp [unquote, Piece.text, Piece.isLexeme]
    · rw [take?_eq_none hm, hcut, operator_quote]
      rfl
  · rw [if_neg hquote, Pattern.string, hnone (by simpa using hquote)]
    simp only [Option.none_or]
    cases hcut : Cut.operator c rest with
    | piece p after => simp only [isLexeme_of_operator hcut, if_true]
    | unterminated => rfl
    | unexpected => rfl

end LexRule

/-- Blanks in front of a text move it on. -/
theorem cutAll_blanks {run : List Char} (hrun : ∀ c ∈ run, isBlank c = true) (p : Position)
    (text : List Char) :
    Lexeme.place p (cutAll (run ++ text)).pieces = Lexeme.place (p.after run) (cutAll text).pieces ∧
      (cutAll (run ++ text)).rest = (cutAll text).rest ∧
      (cutAll (run ++ text)).pieces.flatMap Piece.text =
        run ++ (cutAll text).pieces.flatMap Piece.text := by
  induction run generalizing p with
  | nil => exact ⟨rfl, rfl, rfl⟩
  | cons c run ih =>
    have hc : cut c (run ++ text) = .piece (.blank c) (run ++ text) := by
      rw [cut, if_pos (hrun c List.mem_cons_self)]
    obtain ⟨hl, hr, ht⟩ := ih (fun c hc => hrun c (List.mem_cons_of_mem _ hc)) (p.next c)
    rw [List.cons_append, cutAll_cons, hc]
    refine ⟨?_, hr, ?_⟩
    · rw [Position.after_cons, ← hl]
      rfl
    · rw [List.flatMap_cons, ht]
      rfl

/-- Matches and pieces give the same lexemes and end at the same place. -/
theorem scanUpTo_eq {n : Nat} {text : List Char} (p : Position) (h : text.length ≤ n) :
    scanUpTo n p text = ⟨Lexeme.place p (cutAll text).pieces, Scan.failureOf (cutAll text).rest,
      p.after ((cutAll text).pieces.flatMap Piece.text)⟩ := by
  induction n generalizing text p with
  | zero =>
    obtain rfl := List.length_eq_zero_iff.1 (Nat.le_zero.1 h)
    rfl
  | succ n ih =>
    cases text with
    | nil => rfl
    | cons c rest =>
      rw [List.length_cons] at h
      rw [scanUpTo, LexRule.findSome?_all]
      by_cases hb : isBlank c = true
      · -- one match for the run, one piece for each of its blanks
        have hrun : ∀ x ∈ c :: rest.takeWhile isBlank, isBlank x = true := by
          intro x hx
          rcases List.mem_cons.1 hx with rfl | hx
          · exact hb
          · exact List.all_eq_true.1 List.all_takeWhile x hx
        have hlen : (rest.dropWhile isBlank).length ≤ n := by
          have := (List.dropWhile_sublist (l := rest) isBlank).length_le
          omega
        have hsplit : c :: rest = (c :: rest.takeWhile isBlank) ++ rest.dropWhile isBlank := by
          rw [List.cons_append, List.takeWhile_append_dropWhile]
        obtain ⟨hl, hr, ht⟩ := cutAll_blanks hrun p (rest.dropWhile isBlank)
        rw [if_pos hb, hsplit, hl, hr, ht, Position.after_append]
        exact ih _ hlen
      · rw [if_neg hb, cutAll_cons]
        cases hcut : cut c rest with
        | piece piece after =>
          have hafter := length_le_of_cut hcut
          simp only [ih (p.after piece.text) (show after.length ≤ n by omega), Lexeme.place,
            List.flatMap_cons, Position.after_append]
          cases piece.isLexeme <;> rfl
        | unterminated => rfl
        | unexpected => rfl

/-- An open comment takes the whole text. -/
theorem rest_of_openComment {c : Char} {rest after body : List Char}
    (h : cut c rest = .piece (.comment body false) after) : after = [] := by
  unfold cut Cut.comment Cut.number Cut.string Cut.operator Cut.single at h
  repeat' split at h
  all_goals cases h
  rfl

/-- A text that cannot be cut to its end does not end in an open comment. -/
theorem endColumns_eq_zero {text : List Char} (h : (cutAll text).rest ≠ []) :
    Scan.endColumns (cutAll text).pieces = 0 := by
  have key : ∀ n (text : List Char), text.length ≤ n → (cutAll text).rest ≠ [] →
      Scan.endColumns (cutAll text).pieces = 0 := by
    intro n
    induction n with
    | zero =>
      intro text hn hr
      obtain rfl := List.length_eq_zero_iff.1 (Nat.le_zero.1 hn)
      exact absurd rfl hr
    | succ n ih =>
      intro text hn hr
      cases text with
      | nil => rfl
      | cons c rest =>
        rw [cutAll_cons] at hr ⊢
        cases hcut : cut c rest with
        | piece p after =>
          rw [hcut] at hr
          have hafter : Scan.endColumns (cutAll after).pieces = 0 :=
            ih after (Nat.le_trans (length_le_of_cut hcut) (Nat.le_of_succ_le_succ hn)) hr
          change Scan.endColumns (p :: (cutAll after).pieces) = 0
          cases hq : (cutAll after).pieces with
          | nil =>
            have hrest := text_append_cutAll after
            rw [hq, List.flatMap_nil, List.nil_append] at hrest
            rw [hrest] at hr
            simp only [Scan.endColumns, List.getLast?_singleton]
            split
            · rename_i body hp
              cases hp
              exact absurd (rest_of_openComment hcut) hr
            · rfl
          | cons q qs =>
            rw [hq] at hafter
            simpa only [Scan.endColumns, List.getLast?_cons_cons] using hafter
        | unterminated => rfl
        | unexpected => rfl
  exact key text.length text (Nat.le_refl _) h

/-- Both scanners find the same lexemes and the same error. -/
theorem scan_eq (text : List Char) :
    (scan text).lexemes = (Scan.ofText text).lexemes ∧
      (scan text).error? = (Scan.ofText text).error? := by
  have h := scanUpTo_eq .start (Nat.le_refl text.length)
  rw [scan, h]
  refine ⟨rfl, ?_⟩
  simp only [Scan.error?, Scan.ofText]
  by_cases hr : (cutAll text).rest = []
  · rw [hr]
    rfl
  · rw [endColumns_eq_zero hr]
    rfl

end ShiftReduce
end Scriptling
