import Scriptling.Proofs.DocumentRuns
import Scriptling.Proofs.ErrorPlaces

/-!
# Stored trees

The tree that is stored for a script runs as the script does. A front end derives trees from
legible tokens, and everything that such a tree is stored with is read back: literals are finite,
names and operators are texts, and no position is larger than the text is long. So the document
of the tree is read as it was written, and the tree is read from it as it was.
-/
namespace Scriptling

namespace Position

/-- Whether a position can be read back from a document. -/
def IsReadable (p : Position) : Prop :=
  Decimal.width p.line ≤ maxDigits ∧ Decimal.width p.column ≤ maxDigits

/-- Each character takes one line or one column at most. -/
theorem after_le {p : Position} {k : Nat} (hline : p.line ≤ k) (hcolumn : p.column ≤ k)
    (hk : 0 < k) (text : List Char) :
    (p.after text).line ≤ k + text.length ∧ (p.after text).column ≤ k + text.length := by
  induction text generalizing p k with
  | nil => exact ⟨hline, hcolumn⟩
  | cons c text ih =>
    have hnext : (p.next c).line ≤ k + 1 ∧ (p.next c).column ≤ k + 1 := by
      unfold next
      split
      · exact ⟨by dsimp only; omega, by dsimp only; omega⟩
      · exact ⟨by dsimp only; omega, by dsimp only; omega⟩
    have hall := ih hnext.1 hnext.2 (Nat.succ_pos k)
    simp only [after_cons, List.length_cons]
    omega

theorem isReadable_after {text : List Char}
    (h : text.length + 1 < 10 ^ maxDigits) : (start.after text).IsReadable := by
  have hle := after_le (p := start) (k := 1) (Nat.le_refl _) (Nat.le_refl _) Nat.one_pos text
  have hwidth : ∀ n, n ≤ 1 + text.length → Decimal.width n ≤ maxDigits :=
    fun n hn => (Decimal.width_le_iff (by decide)).2 (by omega)
  exact ⟨hwidth _ hle.1, hwidth _ hle.2⟩

end Position

namespace Node

/-- An object that ends with a position is plain if the rest of it is. -/
theorem isPlain_placed {fields : List (String × Json)} {p : Position} (hp : p.IsReadable)
    (hnames : (fields.map Prod.fst ++ ["line", "column"]).Nodup)
    (hfields : ∀ f ∈ fields, f.2.IsPlain) : (Json.obj (fields ++ markFields (.of p))).IsPlain := by
  refine .obj (by simpa [markFields] using hnames) fun f hf => ?_
  rcases List.mem_append.1 hf with hf | hf
  · exact hfields f hf
  · simp only [markFields, List.mem_cons, List.not_mem_nil, or_false] at hf
    rcases hf with rfl | rfl
    · exact .int hp.1
    · exact .int hp.2

theorem isPlain_block_iff {ns : List Node} :
    (Node.block ns).toDocument.IsPlain ↔ ∀ j ∈ documentsWith .float ns, j.IsPlain := by
  rw [toDocument, documentWith]
  constructor
  · intro h
    cases h with
    | obj _ hfields =>
      cases hfields _ (List.mem_cons_of_mem _ List.mem_cons_self) with
      | arr hitems => exact hitems
  · intro h
    refine .obj (show ["type", "statements"].Nodup by decide) ?_
    simp only [List.forall_mem_cons]
    exact ⟨.str, .arr h, nofun⟩

end Node

/-- Whether a token is stored in such a way that it can be read back. -/
def Token.IsStorable (t : Token) : Prop :=
  t.symbol.Legible ∧ t.position.IsReadable

namespace Grammar

open Descent (Level)

theorem Expression.isPlain {level : Level} {ts : List Token} {n : Node}
    (h : Expression level ts n) (hts : ∀ t ∈ ts, t.IsStorable) : n.toDocument.IsPlain := by
  induction h with
  | tighter _ _ ih => exact ih hts
  | binary _ _ _ _ _ ihl ihr =>
    refine .obj (by simp) ?_
    simp only [List.forall_mem_cons]
    exact ⟨.str, .str, ihl fun t ht => hts t (by simp [ht]), ihr fun t ht => hts t (by simp [ht]),
      nofun⟩
  | sign _ _ _ ih =>
    refine .obj (by simp) ?_
    simp only [List.forall_mem_cons]
    exact ⟨.str, .str, ih fun t ht => hts t (List.mem_cons_of_mem _ ht), nofun⟩
  | update _ _ _ _ ih =>
    refine Node.isPlain_placed (hts _ List.mem_cons_self).2 (by simp) ?_
    simp only [List.forall_mem_cons]
    exact ⟨.str, .str, .str, ih fun t ht => hts t (by simp [ht]), nofun⟩
  | number hx =>
    have hfinite := (hts _ List.mem_cons_self).1
    rw [hx] at hfinite
    refine .obj (by simp) ?_
    simp only [List.forall_mem_cons]
    exact ⟨.str, .float hfinite.1, nofun⟩
  | string =>
    refine .obj (by simp) ?_
    simp only [List.forall_mem_cons]
    exact ⟨.str, .str, nofun⟩
  | bool =>
    refine .obj (by simp) ?_
    simp only [List.forall_mem_cons]
    exact ⟨.str, .bool, nofun⟩
  | ident =>
    refine Node.isPlain_placed (hts _ List.mem_cons_self).2 (by simp) ?_
    simp only [List.forall_mem_cons]
    exact ⟨.str, .str, nofun⟩
  | paren _ _ _ ih => exact ih fun t ht => hts t (by simp [ht])

theorem Condition.isPlain {ts : List Token} {n : Node} (h : Condition ts n)
    (hts : ∀ t ∈ ts, t.IsStorable) : n.toDocument.IsPlain := by
  cases h with
  | intro _ he _ => exact he.isPlain fun t ht => hts t (by simp [ht])

/-- What is derived from storable tokens has a plain document. -/
theorem Derives.isPlain {inLoop : Bool} {phrase : Phrase} {ts : List Token} {n : Node}
    (h : Derives inLoop phrase ts n) (hts : ∀ t ∈ ts, t.IsStorable) : n.toDocument.IsPlain := by
  induction h with
  | program _ ih =>
    refine .obj (by simp) ?_
    simp only [List.forall_mem_cons]
    exact ⟨.str, .arr (Node.isPlain_block_iff.1 (ih hts)), nofun⟩
  | nil => exact Node.isPlain_block_iff.2 nofun
  | semicolon _ _ ih => exact ih fun t ht => hts t (List.mem_cons_of_mem _ ht)
  | cons _ _ ihn ihns =>
    refine Node.isPlain_block_iff.2 (List.forall_mem_cons.2 ⟨?_, Node.isPlain_block_iff.1 ?_⟩)
    · exact ihn fun t ht => hts t (List.mem_append_left _ ht)
    · exact ihns fun t ht => hts t (List.mem_append_right _ ht)
  | block _ _ _ ih => exact ih fun t ht => hts t (by simp [ht])
  | print _ hc =>
    refine Node.isPlain_placed (hts _ List.mem_cons_self).2 (by simp) ?_
    simp only [List.forall_mem_cons]
    exact ⟨.str, hc.isPlain fun t ht => hts t (List.mem_cons_of_mem _ ht), nofun⟩
  | input =>
    refine Node.isPlain_placed (hts _ List.mem_cons_self).2 (by simp) ?_
    simp only [List.forall_mem_cons]
    exact ⟨.str, .str, nofun⟩
  | branch _ hc _ iht =>
    refine Node.isPlain_placed (hts _ List.mem_cons_self).2 (by simp) ?_
    simp only [List.forall_mem_cons]
    exact ⟨.str, hc.isPlain fun t ht => hts t (by simp [ht]), iht fun t ht => hts t (by simp [ht]),
      .null, nofun⟩
  | branchElse _ hc _ _ _ iht ihe =>
    refine Node.isPlain_placed (hts _ (by simp)).2 (by simp) ?_
    simp only [List.forall_mem_cons]
    exact ⟨.str, hc.isPlain fun t ht => hts t (by simp [ht]), iht fun t ht => hts t (by simp [ht]),
      ihe fun t ht => hts t (by simp [ht]), nofun⟩
  | loop _ hc _ ih =>
    refine Node.isPlain_placed (hts _ List.mem_cons_self).2 (by simp) ?_
    simp only [List.forall_mem_cons]
    exact ⟨.str, hc.isPlain fun t ht => hts t (by simp [ht]), ih fun t ht => hts t (by simp [ht]),
      nofun⟩
  | @leave t =>
    have hplain : (Json.obj ([("type", .str "BreakStmt")] ++
        Node.markFields (.of t.position))).IsPlain :=
      Node.isPlain_placed (hts _ List.mem_cons_self).2 (by simp) (by simpa using .str)
    exact hplain
  | nested _ ih => exact ih hts
  | assign _ _ he =>
    refine Node.isPlain_placed (hts _ List.mem_cons_self).2 (by simp) ?_
    simp only [List.forall_mem_cons]
    exact ⟨.str, .str, he.isPlain fun t ht => hts t (by simp [ht]), nofun⟩
  | evaluate he =>
    refine Node.isPlain_placed (hts _ List.mem_cons_self).2 (by simp) ?_
    simp only [List.forall_mem_cons]
    exact ⟨.str, he.isPlain hts, nofun⟩

end Grammar

/-- The tree of a text is stored so that it can be read back, unless the text is so long that
the numbers of its lines and columns are too long for the reader. -/
theorem FrontEnd.isPlain_of_parse {f : FrontEnd} {text : String} {n : Node}
    (h : f.parse text = .ok n) (hsize : text.length + 1 < 10 ^ maxDigits) :
    n.toDocument.IsPlain := by
  obtain ⟨ts, p, hts, hlegible, hd⟩ := derives_of_parse h
  refine hd.isPlain fun t ht => ⟨hlegible t ht, ?_⟩
  have hmem : t ∈ (tokenize text).tokens := by
    rw [hts]
    exact List.mem_append_left _ ht
  obtain ⟨before, piece, behind, htext, hposition, -⟩ :=
    (standsIn_of_mem hmem (Symbol.Legible.isFinish (hlegible t ht))).isWritten
  have hlength := congrArg List.length htext
  simp only [List.length_append, String.length_toList] at hlength
  rw [hposition]
  exact Position.isReadable_after (by omega)

theorem Lines.length_unify_le (text : List Char) : (unify text).length ≤ text.length := by
  fun_induction unify text with
  | case1 => exact Nat.le_refl _
  | case2 _ ih =>
    simp only [List.length_cons]
    omega
  | case3 _ _ ih => exact Nat.succ_le_succ ih
  | case4 _ _ _ _ ih => exact Nat.succ_le_succ ih

namespace CommandLine

/-- The document that is stored for a tree holds the tree. -/
theorem holds_print {tree : Node} (h : tree.toDocument.IsPlain)
    (hnesting : tree.toDocument.nesting ≤ Json.maxNesting) : Holds tree.toDocument.print tree :=
  ⟨tree.toDocument, Json.read_print h hnesting, Node.ofDocument_documentWith tree⟩

/-- The tree of a script is stored in a file beside it, and running that file does what running
the script does. The nesting is that up to which a tree is stored at all. The length is one
with which the numbers of all lines and columns are short enough for the reader of documents. -/
theorem stored_tree_runs_as_script (o : Options) (script content stdin : String) {f : FrontEnd}
    {tree : Node} (hfrontEnd : o.frontEnd = some f)
    (hparse : f.parse (Lines.normalize content) = .ok tree)
    (hnesting : tree.toDocument.nesting ≤ Json.maxNesting)
    (hsize : content.length + 1 < 10 ^ maxDigits) :
    let target := Path.normalize script ++ ".ast.json"
    ∃ text, perform o (.storeTree script) (.text content) stdin =
        ⟨.exit 0, target ++ "\n", "", [(target, text)]⟩ ∧
      ∀ (o' : Options) (stdin' : String), o'.frontEnd = some f →
        perform o' (.runTree target) (.text text) stdin' =
          perform o' (.runScript script) (.text content) stdin' := by
  have hplain : tree.toDocument.IsPlain := by
    refine FrontEnd.isPlain_of_parse hparse ?_
    -- Line ends that are unified make a text no longer.
    have hle := Lines.length_unify_le content.toList
    rw [String.length_toList] at hle
    rw [Lines.normalize, String.length_ofList]
    omega
  refine ⟨tree.toDocument.print, ?_, fun o' stdin' ho' => ?_⟩
  · change withScript o.frontEnd (Lines.normalize content) (storeTree (Path.normalize script)) = _
    rw [hfrontEnd, withScript, hparse]
    exact if_neg (Nat.not_lt.2 hnesting)
  · rw [perform_runTree, Json.normalize_print hplain,
      runDocument_of_holds _ _ (holds_print hplain hnesting) (Json.hasLoneSurrogate_print hplain)]
    change _ = withScript o'.frontEnd (Lines.normalize content) _
    rw [ho', withScript, hparse]

/-- A script that reads a line and writes it twice. -/
def echoText : String :=
  "n = 0; input x;\nwhile (n < 2) \x7b n += 1; print(\"\\t\" + x) \x7d"

def echoTree : Node :=
  .program [.assign (.str "n") (.number 0) (.of ⟨1, 1⟩), .input (.str "x") (.of ⟨1, 8⟩),
    .loop (.binary (.str "<") (.ident (.str "n") (.of ⟨2, 8⟩)) (.number 2)) (.block [
      .evaluate (.update (.str "n") (.str "+") (.number 1) (.of ⟨2, 17⟩)) (.of ⟨2, 17⟩),
      .print (.binary (.str "+") (.string "\\t") (.ident (.str "x") (.of ⟨2, 38⟩)))
        (.of ⟨2, 25⟩)]) (.of ⟨2, 1⟩)]

theorem echoText_runs_when_stored :
    FrontEnd.parse .descent (Lines.normalize echoText) = .ok echoTree ∧
    echoTree.toDocument.nesting ≤ Json.maxNesting ∧
    echoText.length + 1 < 10 ^ maxDigits ∧
    ∃ text, perform .default (.storeTree "echo") (.text echoText) "" =
        ⟨.exit 0, "echo.ast.json\n", "", [("echo.ast.json", text)]⟩ ∧
      perform ⟨4, some .descent, .atMost 3, none, none, none, none⟩ (.runTree "echo.ast.json")
          (.text text) "a\n" =
        perform ⟨4, some .descent, .atMost 3, none, none, none, none⟩ (.runScript "echo")
          (.text echoText) "a\n" := by
  have hparse : FrontEnd.parse .descent (Lines.normalize echoText) = .ok echoTree := rfl
  have hnesting : echoTree.toDocument.nesting ≤ Json.maxNesting := by decide
  have hsize : echoText.length + 1 < 10 ^ maxDigits := by decide +kernel
  have hname : Path.normalize "echo" = "echo" := by decide +kernel
  refine ⟨hparse, hnesting, hsize, ?_⟩
  obtain ⟨text, hstore, hrun⟩ :=
    stored_tree_runs_as_script .default "echo" echoText "" rfl hparse hnesting hsize
  rw [hname] at hstore hrun
  exact ⟨text, hstore, hrun _ _ rfl⟩

end CommandLine
end Scriptling
