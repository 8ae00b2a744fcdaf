import Scriptling.Proofs.JsonNumbers
import Scriptling.Text.Lines

/-!
# Reading what was written

The text of a JSON document reads back as the document, if its doubles are finite, its whole
numbers are not too long for the reader, no object has two fields of one name and nothing is
nested too deeply. Each value is read off the front of a text with the rest left over, by
induction on the value; between two values there are commas and new lines only, which belong to
neither.
-/
namespace Scriptling

/-- A text without carriage returns has its line ends as they should be. -/
theorem Lines.unify_of_not_mem {text : List Char} (h : '\r' ∉ text) : unify text = text := by
  fun_induction unify text with
  | case1 => rfl
  | case2 => simp at h
  | case3 => simp at h
  | case4 c rest _ _ ih => rw [ih fun hr => h (List.mem_cons_of_mem _ hr)]

namespace Json

/-- What can be written and read back. -/
inductive IsPlain : Json → Prop where
  | null : IsPlain .null
  | bool {b : Bool} : IsPlain (.bool b)
  | int {n : Int} : Decimal.width n.natAbs ≤ maxDigits → IsPlain (.int n)
  | float {x : Float} : Binary.isFinite x = true → IsPlain (.float x)
  | str {s : String} : IsPlain (.str s)
  | arr {items : List Json} : (∀ j ∈ items, IsPlain j) → IsPlain (.arr items)
  | obj {fields : List (String × Json)} : (fields.map Prod.fst).Nodup →
    (∀ f ∈ fields, IsPlain f.2) → IsPlain (.obj fields)

namespace Reader

section Strings

/-- The four digits of a control character stand for it. -/
theorem hex_of_lt {n : Nat} (h : n < 32) :
    ∃ a b c d, Quoted.hex 4 n = [a, b, c, d] ∧ hex4? a b c d = some n := by
  have hall : ∀ n < 32, hex4? ((Quoted.hex 4 n)[0]!) ((Quoted.hex 4 n)[1]!)
      ((Quoted.hex 4 n)[2]!) ((Quoted.hex 4 n)[3]!) = some n := by decide
  exact ⟨_, _, _, _, rfl, hall n h⟩

/-- Whether four digits follow wherever a text begins with their escape. -/
def EscapesWell (text : List Char) : Prop :=
  ∀ a b c d rest, text = '\\' :: 'u' :: a :: b :: c :: d :: rest → (hex4? a b c d).isSome = true

/-- A control character is no half of a pair. -/
theorem not_surrogate_of_lt {n : Nat} (h : n < 32) :
    isHighSurrogate n = false ∧ isLowSurrogate n = false := by
  simp only [isHighSurrogate, isLowSurrogate, decide_eq_false_iff_not]
  omega

theorem string_unit {a b c d : Char} {n : Nat} (h : hex4? a b c d = some n) (hn : n < 32)
    {text : List Char} (ht : EscapesWell text) (done : List Char) :
    string done ('\\' :: 'u' :: a :: b :: c :: d :: text) =
      string (Char.ofNat n :: done) text := by
  obtain ⟨hhigh, hlow⟩ := not_surrogate_of_lt hn
  have hunit : unitChar n = Char.ofNat n := by
    rw [unitChar, hhigh, hlow]
    rfl
  -- Before another escape of this kind the reader tries the two as a pair.
  by_cases hmore : ∃ a' b' c' d' rest, text = '\\' :: 'u' :: a' :: b' :: c' :: d' :: rest
  · obtain ⟨a', b', c', d', rest, rfl⟩ := hmore
    obtain ⟨low, hlow⟩ := Option.isSome_iff_exists.1 (ht a' b' c' d' rest rfl)
    rw [string, h, hlow]
    simp only [hhigh, Bool.false_and, Bool.false_eq_true, if_false, hunit]
  · rw [string, h]
    · simp only [hunit]
    · exact fun a' b' c' d' rest heq => hmore ⟨a', b', c', d', rest, heq⟩

theorem string_short {e c : Char} (h : shortEscape? e = some c) (done text : List Char) :
    string done ('\\' :: e :: text) = string (c :: done) text := by
  have hu : e ≠ 'u' := by
    rintro rfl
    cases h
  simp [string, h, hu]

theorem string_plain {c : Char} (hq : c ≠ '"') (hb : c ≠ '\\') (hc : 32 ≤ c.toNat)
    (done text : List Char) : string done (c :: text) = string (c :: done) text := by
  rw [string]
  · simp [hb, Nat.not_lt.2 hc]
  all_goals simp [hq, hb]

theorem EscapesWell.of_ne {c : Char} (h : c ≠ '\\') (text : List Char) :
    EscapesWell (c :: text) := by
  rintro _ _ _ _ _ ⟨⟩
  exact absurd rfl h

theorem EscapesWell.short {e c : Char} (h : shortEscape? e = some c) (text : List Char) :
    EscapesWell ('\\' :: e :: text) := by
  rintro _ _ _ _ _ ⟨⟩
  cases h

/-- Whether a text is read as one character, whatever was read before it and wherever escapes
are complete behind it. -/
def ReadsAs (text : List Char) (c : Char) : Prop :=
  (∀ rest, EscapesWell (text ++ rest)) ∧
    ∀ done rest, EscapesWell rest → string done (text ++ rest) = string (c :: done) rest

theorem ReadsAs.short {e c : Char} (h : shortEscape? e = some c) : ReadsAs ['\\', e] c :=
  ⟨fun rest => .short h rest, fun done rest _ => string_short h done rest⟩

theorem ReadsAs.unit {n : Nat} (h : n < 32) :
    ReadsAs ('\\' :: 'u' :: Quoted.hex 4 n) (Char.ofNat n) := by
  obtain ⟨a, b, c, d, htext, hvalue⟩ := hex_of_lt h
  rw [htext]
  refine ⟨fun rest => ?_, fun done rest hrest => string_unit hvalue h hrest done⟩
  rintro _ _ _ _ _ ⟨⟩
  exact Option.isSome_iff_exists.2 ⟨n, hvalue⟩

/-- Every character is read from its escape. -/
theorem readsAs_escape (c : Char) : ReadsAs (escape c) c := by
  have hshort : ∀ {e d : Char}, shortEscape? e = some d → c = d → ReadsAs ['\\', e] c := by
    rintro e d h rfl
    exact .short h
  have hvalue : ∀ {n : Nat}, c.toNat = n → c = Char.ofNat n := by
    rintro n rfl
    exact (Char.ofNat_toNat c).symm
  unfold escape
  split_ifs with hquote hback hfeed hreturn htab hbell hpage hcontrol
  · exact hshort rfl hquote
  · exact hshort rfl hback
  · exact hshort rfl hfeed
  · exact hshort rfl hreturn
  · exact hshort rfl htab
  · exact hshort rfl (hvalue hbell)
  · exact hshort rfl (hvalue hpage)
  · have hunit := ReadsAs.unit hcontrol
    rwa [Char.ofNat_toNat] at hunit
  · exact ⟨fun rest => .of_ne hback rest,
      fun done rest _ => string_plain hquote hback (Nat.not_lt.1 hcontrol) done rest⟩

theorem string_flatMap_escape (cs done rest : List Char) :
    string done (cs.flatMap escape ++ '"' :: rest) =
      some (String.ofList (done.reverse ++ cs), rest) := by
  have hall : EscapesWell (cs.flatMap escape ++ '"' :: rest) ∧ ∀ done,
      string done (cs.flatMap escape ++ '"' :: rest) =
        some (String.ofList (done.reverse ++ cs), rest) := by
    induction cs with
    | nil => exact ⟨.of_ne (by decide) rest, fun done => by simp [string]⟩
    | cons c cs ih =>
      obtain ⟨hwell, hread⟩ := ih
      obtain ⟨hescape, hc⟩ := readsAs_escape c
      rw [List.flatMap_cons, List.append_assoc]
      exact ⟨hescape _, fun done => by simp [hc done _ hwell, hread]⟩
  exact hall.2 done

/-- A string between its quotes is read off the front of a text. -/
theorem exists_string_stringText (s : String) (rest : List Char) :
    ∃ text, (stringText s).toList ++ rest = '"' :: text ∧ string [] text = some (s, rest) := by
  refine ⟨s.toList.flatMap escape ++ '"' :: rest, by simp [stringText], ?_⟩
  rw [string_flatMap_escape]
  simp

end Strings

section Values

/-- The characters that begin or end a container or stand between values. -/
def isOutline (c : Char) : Bool :=
  isSpace c || c == '[' || c == ']' || c == '{' || c == '}'

theorem scalar_of_isOutline {c : Char} (h : isOutline c = true) (cs : List Char) :
    scalar (c :: cs) = none := by
  simp only [isOutline, isSpace, Bool.or_eq_true, beq_iff_eq] at h
  rcases h with ((((((rfl | rfl) | rfl) | rfl) | rfl) | rfl) | rfl) | rfl <;> rfl

theorem exists_cons_of_scalar {text : List Char} {r : Json × List Char}
    (h : scalar text = some r) : ∃ c cs, text = c :: cs ∧ isOutline c = false := by
  cases text with
  | nil => cases h
  | cons c cs =>
    refine ⟨c, cs, rfl, ?_⟩
    by_contra hc
    rw [scalar_of_isOutline (by simpa using hc)] at h
    cases h

theorem value_of_scalar {text : List Char} {r : Json × List Char} (h : scalar text = some r)
    (room fuel : Nat) : value room (fuel + 1) text = .ok r := by
  obtain ⟨c, cs, rfl, hc⟩ := exists_cons_of_scalar h
  rw [value]
  · rw [h]
  all_goals
    rintro _ ⟨⟩
    cases hc

/-- Whether a value without parts is read off the front of a text. -/
theorem scalar_document {j : Json} (h : j.IsPlain) (hitems : ∀ items, j ≠ .arr items)
    (hfields : ∀ fields, j ≠ .obj fields) (depth : Nat) {rest : List Char}
    (hrest : Closes rest) : scalar ((document depth j).toList ++ rest) = some (j, rest) := by
  cases h with
  | null => simp [document, scalar, word?]
  | @bool b => cases b <;> simp [document, scalar, word?]
  | int hn => exact scalar_toString hn hrest
  | float hx => exact scalar_numberText hx hrest
  | @str s =>
    obtain ⟨text, htext, hread⟩ := exists_string_stringText s rest
    rw [document, htext, scalar, hread]
    rfl
  | arr => exact absurd rfl (hitems _)
  | obj => exact absurd rfl (hfields _)

theorem skip_cons {c : Char} (h : isSpace c = false) (cs : List Char) :
    skip (c :: cs) = c :: cs := by
  simp [skip, h]

theorem skip_space (cs : List Char) : skip (' ' :: cs) = skip cs := rfl

theorem skip_newline (depth : Nat) (text : List Char) :
    skip ((newline depth).toList ++ text) = skip text := by
  rw [skip, newline, String.toList_ofList, List.dropWhile_append_of_pos]
  · rfl
  · refine List.forall_mem_cons.2 ⟨rfl, fun c hc => ?_⟩
    rw [List.eq_of_mem_replicate hc]
    rfl

/-- A value does not begin like a space or like the end of an array. -/
theorem exists_cons_of_document {j : Json} (h : j.IsPlain) (depth : Nat) (rest : List Char) :
    ∃ c cs, (document depth j).toList ++ rest = c :: cs ∧ isSpace c = false ∧ c ≠ ']' := by
  by_cases hitems : ∃ items, j = .arr items
  · obtain ⟨items, rfl⟩ := hitems
    cases items <;> exact ⟨'[', _, by simp [document]; rfl, by decide⟩
  by_cases hfields : ∃ fields, j = .obj fields
  · obtain ⟨fields, rfl⟩ := hfields
    cases fields <;> exact ⟨'{', _, by simp [document]; rfl, by decide⟩
  have hscalar : scalar ((document depth j).toList ++ []) = some (j, []) :=
    scalar_document h (not_exists.1 hitems) (not_exists.1 hfields) depth nofun
  obtain ⟨c, cs, htext, hc⟩ := exists_cons_of_scalar hscalar
  rw [List.append_nil] at htext
  simp only [isOutline, Bool.or_eq_false_iff, beq_eq_false_iff_ne] at hc
  exact ⟨c, cs ++ rest, by rw [htext, List.cons_append], hc.1.1.1.1, hc.1.1.2⟩

/-- Whether a value is read off the front of a text, with as many levels as it has and as many
steps as it has characters. -/
structure ReadsBack (j : Json) : Prop where
  plain : j.IsPlain
  reads : ∀ {depth room fuel : Nat} {rest : List Char}, Closes rest → j.nesting ≤ room →
    (document depth j).toList.length ≤ fuel →
    value room fuel ((document depth j).toList ++ rest) = .ok (j, rest)

theorem ReadsBack.skip {j : Json} (h : ReadsBack j) {depth room fuel : Nat} {rest : List Char}
    (hrest : Closes rest) (hroom : j.nesting ≤ room)
    (hfuel : (document depth j).toList.length ≤ fuel) :
    value room fuel (Reader.skip ((document depth j).toList ++ rest)) = .ok (j, rest) := by
  obtain ⟨c, cs, htext, hc, -⟩ := exists_cons_of_document h.plain depth rest
  rw [htext, skip_cons hc, ← htext, h.reads hrest hroom hfuel]

theorem closes_comma (text : List Char) : Closes (',' :: text) := by
  rintro _ ⟨⟩
  exact .inl rfl

theorem closes_newline (depth : Nat) (text : List Char) :
    Closes ((newline depth).toList ++ text) := by
  rw [newline, String.toList_ofList]
  rintro _ ⟨⟩
  exact .inr rfl

theorem documentItems_cons (depth : Nat) (j : Json) (js : List Json) (rest : List Char) :
    (documentItems depth (j :: js)).toList ++ rest = ',' :: ((newline depth).toList ++
      ((document depth j).toList ++ ((documentItems depth js).toList ++ rest))) := by
  simp [documentItems]

section Steps

variable {j : Json} {depth room fuel : Nat} {rest : List Char}

theorem items_comma (hj : ReadsBack j) (hroom : j.nesting ≤ room) (done : List Json)
    (hfuel : (document depth j).toList.length ≤ fuel) :
    items room (fuel + 1) done
        ((newline depth).toList ++ ((document depth j).toList ++ ',' :: rest)) =
      items room fuel (j :: done) rest := by
  rw [items, skip_newline, hj.skip (closes_comma _) hroom hfuel]
  simp only [skip_cons (show isSpace ',' = false from rfl)]

theorem items_bracket (hj : ReadsBack j) (hroom : j.nesting ≤ room) (done : List Json)
    (outer : Nat) (hfuel : (document depth j).toList.length ≤ fuel) :
    items room (fuel + 1) done ((newline depth).toList ++ ((document depth j).toList ++
      ((newline outer).toList ++ ']' :: rest))) = .ok (.arr (j :: done).reverse, rest) := by
  rw [items, skip_newline, hj.skip (closes_newline _ _) hroom hfuel]
  simp only [skip_newline, skip_cons (show isSpace ']' = false from rfl)]

end Steps

/-- The items of an array are read one after the other, up to its end. -/
theorem items_documentItems {js : List Json} (hjs : ∀ j ∈ js, ReadsBack j) {j : Json}
    (hj : ReadsBack j) {room : Nat} (hroom : nestingOfItems (j :: js) ≤ room)
    (depth outer fuel : Nat) (done : List Json) (rest : List Char)
    (hfuel : (document depth j).toList.length + (documentItems depth js).toList.length < fuel) :
    items room fuel done ((newline depth).toList ++ ((document depth j).toList ++
      ((documentItems depth js).toList ++ ((newline outer).toList ++ ']' :: rest)))) =
      .ok (.arr (done.reverse ++ j :: js), rest) := by
  induction js generalizing j fuel done with
  | nil =>
    obtain ⟨fuel, rfl⟩ : ∃ k, fuel = k + 1 := ⟨fuel - 1, by omega⟩
    simp only [documentItems, String.toList_empty, List.nil_append]
    rw [items_bracket hj (Nat.max_le.1 hroom).1 done outer (by omega)]
    simp
  | cons j' js ih =>
    obtain ⟨fuel, rfl⟩ : ∃ k, fuel = k + 1 := ⟨fuel - 1, by omega⟩
    obtain ⟨hj', hjs⟩ := List.forall_mem_cons.1 hjs
    obtain ⟨hroom, hrooms⟩ := Nat.max_le.1 hroom
    have hlength := congrArg List.length (documentItems_cons depth j' js [])
    simp only [List.append_nil, List.length_cons, List.length_append] at hlength
    rw [documentItems_cons, items_comma hj hroom done (by omega)]
    refine (ih hjs hj' hrooms fuel (j :: done) (by omega)).trans ?_
    simp

theorem documentFields_cons (depth : Nat) (f : String × Json) (fs : List (String × Json))
    (rest : List Char) :
    (documentFields depth (f :: fs)).toList ++ rest = ',' :: ((newline depth).toList ++
      ((stringText f.1).toList ++ ':' :: ' ' :: ((document depth f.2).toList ++
        ((documentFields depth fs).toList ++ rest)))) := by
  simp [documentFields]

section Steps

variable {f : String × Json} {depth room fuel : Nat} {rest : List Char}

theorem fields_comma (hf : ReadsBack f.2) (hroom : f.2.nesting ≤ room)
    (done : List (String × Json)) (hfuel : (document depth f.2).toList.length ≤ fuel) :
    fields room (fuel + 1) done ((newline depth).toList ++ ((stringText f.1).toList ++
        ':' :: ' ' :: ((document depth f.2).toList ++ ',' :: rest))) =
      fields room fuel (setField f.1 f.2 done) rest := by
  obtain ⟨text, htext, hread⟩ := exists_string_stringText f.1
    (':' :: ' ' :: ((document depth f.2).toList ++ ',' :: rest))
  rw [fields, skip_newline, htext, skip_cons (show isSpace '"' = false from rfl)]
  simp only [hread, skip_cons (show isSpace ':' = false from rfl), skip_space,
    hf.skip (closes_comma _) hroom hfuel, skip_cons (show isSpace ',' = false from rfl)]

theorem fields_brace (hf : ReadsBack f.2) (hroom : f.2.nesting ≤ room)
    (done : List (String × Json)) (outer : Nat)
    (hfuel : (document depth f.2).toList.length ≤ fuel) :
    fields room (fuel + 1) done ((newline depth).toList ++ ((stringText f.1).toList ++
        ':' :: ' ' :: ((document depth f.2).toList ++ ((newline outer).toList ++ '}' :: rest)))) =
      .ok (.obj (setField f.1 f.2 done), rest) := by
  obtain ⟨text, htext, hread⟩ := exists_string_stringText f.1
    (':' :: ' ' :: ((document depth f.2).toList ++ ((newline outer).toList ++ '}' :: rest)))
  rw [fields, skip_newline, htext, skip_cons (show isSpace '"' = false from rfl)]
  simp only [hread, skip_cons (show isSpace ':' = false from rfl), skip_space,
    hf.skip (closes_newline _ _) hroom hfuel, skip_newline,
    skip_cons (show isSpace '}' = false from rfl)]

end Steps

theorem setField_of_not_mem {name : String} {value : Json} {fields : List (String × Json)}
    (h : name ∉ fields.map Prod.fst) : setField name value fields = fields ++ [(name, value)] := by
  induction fields with
  | nil => rfl
  | cons f rest ih =>
    rw [List.map_cons, List.mem_cons, not_or] at h
    rw [setField, if_neg (Ne.symm h.1), ih h.2, List.cons_append]

/-- Of fields with different names the next one goes to the end. -/
theorem setField_of_nodup {done fs : List (String × Json)} {f : String × Json}
    (h : ((done ++ f :: fs).map Prod.fst).Nodup) : setField f.1 f.2 done = done ++ [f] := by
  refine setField_of_not_mem fun hmem => ?_
  rw [List.map_append, List.map_cons] at h
  exact (List.nodup_append.1 h).2.2 _ hmem _ List.mem_cons_self rfl

/-- The fields of an object are read one after the other, up to its end. -/
theorem fields_documentFields {fs : List (String × Json)} (hfs : ∀ f ∈ fs, ReadsBack f.2)
    {f : String × Json} (hf : ReadsBack f.2) {room : Nat}
    (hroom : nestingOfFields (f :: fs) ≤ room) (depth outer fuel : Nat)
    {done : List (String × Json)} (hnames : ((done ++ f :: fs).map Prod.fst).Nodup)
    (rest : List Char)
    (hfuel : (document depth f.2).toList.length + (documentFields depth fs).toList.length <
      fuel) :
    fields room fuel done ((newline depth).toList ++ ((stringText f.1).toList ++ ':' :: ' ' ::
      ((document depth f.2).toList ++ ((documentFields depth fs).toList ++
        ((newline outer).toList ++ '}' :: rest))))) = .ok (.obj (done ++ f :: fs), rest) := by
  induction fs generalizing f fuel done with
  | nil =>
    obtain ⟨fuel, rfl⟩ : ∃ k, fuel = k + 1 := ⟨fuel - 1, by omega⟩
    simp only [documentFields, String.toList_empty, List.nil_append]
    rw [fields_brace hf (Nat.max_le.1 hroom).1 done outer (by omega), setField_of_nodup hnames]
  | cons f' fs ih =>
    obtain ⟨fuel, rfl⟩ : ∃ k, fuel = k + 1 := ⟨fuel - 1, by omega⟩
    obtain ⟨hf', hfs⟩ := List.forall_mem_cons.1 hfs
    obtain ⟨hroom, hrooms⟩ := Nat.max_le.1 hroom
    have hlength := congrArg List.length (documentFields_cons depth f' fs [])
    simp only [List.append_nil, List.length_cons, List.length_append] at hlength
    rw [documentFields_cons, fields_comma hf hroom done (by omega), setField_of_nodup hnames]
    have hnames' : ((done ++ [f] ++ f' :: fs).map Prod.fst).Nodup := by simpa using hnames
    refine (ih hfs hf' hrooms fuel hnames' (by omega)).trans ?_
    simp

theorem readsBack_of_scalar {j : Json} (h : j.IsPlain) (hitems : ∀ items, j ≠ .arr items)
    (hfields : ∀ fields, j ≠ .obj fields) : ReadsBack j := by
  refine ⟨h, fun {depth room fuel rest} hrest _ hfuel => ?_⟩
  obtain ⟨c, cs, htext, -⟩ := exists_cons_of_document h depth []
  have hlength := congrArg List.length htext
  simp only [List.append_nil, List.length_cons] at hlength
  obtain ⟨fuel, rfl⟩ : ∃ k, fuel = k + 1 := ⟨fuel - 1, by omega⟩
  exact value_of_scalar (scalar_document h hitems hfields depth hrest) room fuel

theorem readsBack_arr {items : List Json} (h : ∀ j ∈ items, ReadsBack j) :
    ReadsBack (.arr items) := by
  refine ⟨.arr fun j hj => (h j hj).plain, fun {depth room fuel rest} _ hroom hfuel => ?_⟩
  -- The array itself takes one of the levels, which leaves its items as many as they have.
  obtain ⟨room, rfl⟩ : ∃ k, room = k + 1 := ⟨room - 1, by rw [nesting] at hroom; omega⟩
  have hitems : nestingOfItems items ≤ room := Nat.le_of_succ_le_succ hroom
  cases items with
  | nil =>
    obtain ⟨fuel, rfl⟩ : ∃ k, fuel = k + 1 := ⟨fuel - 1, by simp [document] at hfuel; omega⟩
    simp [document, value, skip, isSpace]
  | cons j js =>
    obtain ⟨hj, hjs⟩ := List.forall_mem_cons.1 h
    have htext : ∀ rest, (document depth (.arr (j :: js))).toList ++ rest =
        '[' :: ((newline (depth + 1)).toList ++ ((document (depth + 1) j).toList ++
          ((documentItems (depth + 1) js).toList ++ ((newline depth).toList ++ ']' :: rest)))) := by
      simp [document]
    have hlength := congrArg List.length (htext [])
    simp only [List.append_nil, List.length_cons, List.length_append, List.length_nil] at hlength
    obtain ⟨fuel, rfl⟩ : ∃ k, fuel = k + 1 := ⟨fuel - 1, by omega⟩
    have hread := items_documentItems hjs hj hitems (depth + 1) depth fuel [] rest (by omega)
    obtain ⟨c, cs, hcs, hc, hclose⟩ := exists_cons_of_document hj.plain (depth + 1)
      ((documentItems (depth + 1) js).toList ++ ((newline depth).toList ++ ']' :: rest))
    rw [htext, value, if_neg (Nat.succ_ne_zero room), skip_newline, hcs, skip_cons hc]
    split
    · rename_i heq
      cases heq
      exact absurd rfl hclose
    · rw [← hcs]
      exact hread

theorem readsBack_obj {fs : List (String × Json)} (hnames : (fs.map Prod.fst).Nodup)
    (h : ∀ f ∈ fs, ReadsBack f.2) : ReadsBack (.obj fs) := by
  refine ⟨.obj hnames fun f hf => (h f hf).plain, fun {depth room fuel rest} _ hroom hfuel => ?_⟩
  obtain ⟨room, rfl⟩ : ∃ k, room = k + 1 := ⟨room - 1, by rw [nesting] at hroom; omega⟩
  have hfields : nestingOfFields fs ≤ room := Nat.le_of_succ_le_succ hroom
  cases fs with
  | nil =>
    obtain ⟨fuel, rfl⟩ : ∃ k, fuel = k + 1 := ⟨fuel - 1, by simp [document] at hfuel; omega⟩
    simp [document, value, skip, isSpace]
  | cons f fs =>
    obtain ⟨hf, hfs⟩ := List.forall_mem_cons.1 h
    have htext : ∀ rest, (document depth (.obj (f :: fs))).toList ++ rest =
        '{' :: ((newline (depth + 1)).toList ++ ((stringText f.1).toList ++ ':' :: ' ' ::
          ((document (depth + 1) f.2).toList ++ ((documentFields (depth + 1) fs).toList ++
            ((newline depth).toList ++ '}' :: rest))))) := by
      simp [document]
    have hlength := congrArg List.length (htext [])
    simp only [List.append_nil, List.length_cons, List.length_append, List.length_nil] at hlength
    obtain ⟨fuel, rfl⟩ : ∃ k, fuel = k + 1 := ⟨fuel - 1, by omega⟩
    have hread := fields_documentFields hfs hf hfields (depth + 1) depth fuel (show
      (([] ++ f :: fs).map Prod.fst).Nodup from hnames) rest (by omega)
    obtain ⟨text, hquote, -⟩ := exists_string_stringText f.1 (':' :: ' ' ::
      ((document (depth + 1) f.2).toList ++ ((documentFields (depth + 1) fs).toList ++
        ((newline depth).toList ++ '}' :: rest))))
    rw [hquote] at hread
    rw [htext, value, if_neg (Nat.succ_ne_zero room), skip_newline, hquote,
      skip_cons (show isSpace '"' = false from rfl)]
    exact hread

end Values

end Reader

open Reader in
theorem IsPlain.readsBack {j : Json} (h : j.IsPlain) : ReadsBack j := by
  induction h with
  | null => exact readsBack_of_scalar .null nofun nofun
  | bool => exact readsBack_of_scalar .bool nofun nofun
  | int hn => exact readsBack_of_scalar (.int hn) nofun nofun
  | float hx => exact readsBack_of_scalar (.float hx) nofun nofun
  | str => exact readsBack_of_scalar .str nofun nofun
  | arr _ ih => exact readsBack_arr ih
  | obj hnames _ ih => exact readsBack_obj hnames ih

/-- A plain value is read back from its document. -/
theorem read_print {j : Json} (h : j.IsPlain) {room : Nat} (hroom : j.nesting ≤ room) :
    read room j.print = .ok j := by
  obtain ⟨c, cs, htext, hc, -⟩ := Reader.exists_cons_of_document h 0 []
  rw [List.append_nil] at htext
  have hread : Reader.value room (2 * (document 0 j).toList.length + 1)
      ((document 0 j).toList ++ []) = .ok (j, []) := h.readsBack.reads nofun hroom (by omega)
  rw [List.append_nil] at hread
  rw [read, print, htext, Reader.skip_cons hc, ← htext, hread]
  rfl

section Scans

/-- A scan that passes over strings and over texts without escapes passes over documents. -/
theorem scan_document (scan : List Char → Bool)
    (hplain : ∀ text rest, '\r' ∉ text → '\\' ∉ text → scan (text ++ rest) = scan rest)
    (hstring : ∀ s rest, scan ((stringText s).toList ++ rest) = scan rest) {j : Json}
    (h : j.IsPlain) (depth : Nat) (rest : List Char) :
    scan ((document depth j).toList ++ rest) = scan rest := by
  have hcons : ∀ c rest, c ≠ '\r' → c ≠ '\\' → scan (c :: rest) = scan rest := fun c rest hr hb =>
    hplain [c] rest (mt List.mem_singleton.1 hr.symm) (mt List.mem_singleton.1 hb.symm)
  have hnewline : ∀ depth rest, scan ((newline depth).toList ++ rest) = scan rest :=
    fun depth rest => hplain _ rest (by simp [newline]) (by simp [newline])
  induction h generalizing depth rest with
  | null => simp [document, hcons]
  | @bool b => cases b <;> simp [document, hcons]
  | int =>
    exact hplain _ rest (not_mem_toString (by decide) (by decide) _)
      (not_mem_toString (by decide) (by decide) _)
  | float hx =>
    exact hplain _ rest (not_mem_numberText (by decide) (by decide) hx)
      (not_mem_numberText (by decide) (by decide) hx)
  | str => exact hstring _ rest
  | @arr items _ ih =>
    have hitems : ∀ (js : List Json),
        (∀ j ∈ js, ∀ depth rest, scan ((document depth j).toList ++ rest) = scan rest) →
        ∀ depth rest, scan ((documentItems depth js).toList ++ rest) = scan rest := by
      intro js hjs depth rest
      induction js with
      | nil => simp [documentItems]
      | cons j js ih =>
        obtain ⟨hj, hjs⟩ := List.forall_mem_cons.1 hjs
        simp [documentItems, hcons, hnewline, hj, ih hjs]
    cases items with
    | nil => simp [document, hcons]
    | cons j js =>
      obtain ⟨hj, hjs⟩ := List.forall_mem_cons.1 ih
      simp [document, hcons, hnewline, hj, hitems js hjs]
  | @obj fields _ _ ih =>
    have hfields : ∀ (fs : List (String × Json)),
        (∀ f ∈ fs, ∀ depth rest, scan ((document depth f.2).toList ++ rest) = scan rest) →
        ∀ depth rest, scan ((documentFields depth fs).toList ++ rest) = scan rest := by
      intro fs hfs depth rest
      induction fs with
      | nil => simp [documentFields]
      | cons f fs ih =>
        obtain ⟨hf, hfs⟩ := List.forall_mem_cons.1 hfs
        simp [documentFields, hcons, hnewline, hstring, hf, ih hfs]
    cases fields with
    | nil => simp [document, hcons]
    | cons f fs =>
      obtain ⟨hf, hfs⟩ := List.forall_mem_cons.1 ih
      simp [document, hcons, hnewline, hstring, hf, hfields fs hfs]

theorem return_not_mem_stringText (s : String) : '\r' ∉ (stringText s).toList := by
  have hescape : ∀ c, '\r' ∉ escape c := by
    intro c
    unfold escape
    split_ifs with _ _ _ hreturn _ _ _ hcontrol
    any_goals decide
    · have hall : ∀ n < 32, '\r' ∉ '\\' :: 'u' :: Quoted.hex 4 n := by decide
      exact hall _ hcontrol
    · simpa using Ne.symm hreturn
  simp [stringText, hescape]

/-- A document has no carriage return: in strings they are escaped, and lines end without
them. -/
theorem return_not_mem_print {j : Json} (h : j.IsPlain) : '\r' ∉ j.print.toList := by
  have hscan := scan_document (fun text => text.contains '\r')
    (fun text rest hr _ => by simp [hr])
    (fun s rest => by simp [return_not_mem_stringText s]) h 0 []
  simpa [print] using hscan

namespace Reader

theorem hasLone_cons {c : Char} (hc : c ≠ '\\') (rest : List Char) :
    hasLone false (c :: rest) = hasLone false rest := by
  simp [hasLone, hc]

theorem hasLone_append {text : List Char} (h : '\\' ∉ text) (rest : List Char) :
    hasLone false (text ++ rest) = hasLone false rest := by
  induction text with
  | nil => rfl
  | cons c text ih =>
    obtain ⟨hc, htext⟩ := not_or.1 (mt List.mem_cons.2 h)
    rw [List.cons_append, hasLone_cons (Ne.symm hc), ih htext]

/-- No character is written as half a pair. -/
theorem hasLone_escape (c : Char) (rest : List Char) :
    hasLone false (escape c ++ rest) = hasLone false rest := by
  unfold escape
  split_ifs with _ hback _ _ _ _ _ hcontrol
  any_goals rfl
  · obtain ⟨a, b, c, d, htext, hvalue⟩ := hex_of_lt hcontrol
    obtain ⟨hhigh, hlow⟩ := not_surrogate_of_lt hcontrol
    rw [htext]
    simp [hasLone, hvalue, hhigh, hlow]
  · exact hasLone_cons hback rest

theorem hasLone_stringText (s : String) (rest : List Char) :
    hasLone false ((stringText s).toList ++ rest) = hasLone false rest := by
  have hescapes : ∀ (cs rest : List Char),
      hasLone false (cs.flatMap escape ++ rest) = hasLone false rest := by
    intro cs rest
    induction cs with
    | nil => rfl
    | cons c cs ih => rw [List.flatMap_cons, List.append_assoc, hasLone_escape, ih]
  have hquote := hasLone_cons (show '"' ≠ '\\' by decide)
  simp [stringText, hquote, hescapes]

end Reader

/-- A document that was written has no half of a pair: the only units that are written are
control characters. -/
theorem hasLoneSurrogate_print {j : Json} (h : j.IsPlain) : hasLoneSurrogate j.print = false := by
  have hscan := scan_document (Reader.hasLone false)
    (fun text rest _ hb => Reader.hasLone_append hb rest) Reader.hasLone_stringText h 0 []
  rwa [List.append_nil] at hscan

end Scans

/-- A document is the same text when it is read as a file. -/
theorem normalize_print {j : Json} (h : j.IsPlain) : Lines.normalize j.print = j.print := by
  rw [Lines.normalize, Lines.unify_of_not_mem (return_not_mem_print h), String.ofList_toList]

end Json
end Scriptling
