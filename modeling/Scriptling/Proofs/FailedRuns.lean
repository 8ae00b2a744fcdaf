import Scriptling.Proofs.Agreement
import Scriptling.Proofs.OperatorFailures
import Scriptling.Proofs.SoundRuns

/-!
# Where failures come from

Every failure of an execution has arisen in one statement: in the value that it computes,
in its condition, in the line that it reads or in the iteration that it counts. The other
statements under way only pass it on, so the failures of a run are those of statements.
-/
namespace Scriptling

namespace Node

theorem IsExpression.isProper {n : Node} (h : n.IsExpression) : n.IsProperExpression := by
  induction h with
  | number => exact .number
  | string => exact .string
  | bool => exact .bool
  | ident => exact .ident
  | binary _ _ _ ihl ihr => exact .binary ihl ihr
  | unary _ _ ih => exact .unary ih
  | update _ _ _ ih => exact .update ih

theorem IsStatement.isProper {inLoop : Bool} {n : Node} (h : n.IsStatement inLoop) :
    n.IsProperStatement := by
  induction h with
  | print he => exact .print he.isProper
  | input => exact .input
  | assign _ he => exact .assign he.isProper
  | branch hc _ iht => exact .branch hc.isProper iht
  | branchElse hc _ _ iht ihe => exact .branchElse hc.isProper iht ihe
  | loop hc _ ih => exact .loop hc.isProper ih
  | leave => exact .leave
  | block _ ih => exact .block ih
  | evaluate he => exact .evaluate he.isProper

/-- The variables that an expression reads, and where. -/
def reads : Node → List (Json × Mark)
  | .ident name m => [(name, m)]
  | .binary _ left right => left.reads ++ right.reads
  | .unary _ operand => operand.reads
  | .update name _ value m => (name, m) :: value.reads
  | _ => []

/-- The variables that a statement reads by itself, before any statement inside of it. -/
def uses : Node → List (Json × Mark)
  | .print value _ | .assign _ value _ | .evaluate value _ => value.reads
  | .branch condition _ _ _ | .loop condition _ _ => condition.reads
  | _ => []

/-- Whether the first statement is the second one or has it inside. The list has the statements
around the second one, from the inside out. -/
inductive Encloses : Node → Node → List Node → Prop where
  | refl {n : Node} : Encloses n n []
  | nested {n child inner : Node} {outer : List Node} : child ∈ n.nested →
    Encloses child inner outer → Encloses n inner (outer ++ [n])

end Node

namespace BigStep

/-- The failures of expressions that read the given variables. -/
inductive Unevaluable (names : List (Json × Mark)) : Failure → Prop where
  | undefined {name : Json} {m : Mark} {x : String} : (name, m) ∈ names →
    name.variableName? = some x → Unevaluable names (.error ⟨.undefinedVariable x, m⟩)
  | unnamed {name : Json} {m : Mark} : (name, m) ∈ names → name.variableName? = none →
    Unevaluable names (.fault (.notAName name.kind))
  | operandType {c : Cause} : c.family = .operandType → Unevaluable names (.ofCause c)
  | divisionByZero {c : Cause} : c.family = .divisionByZero → Unevaluable names (.ofCause c)
  | infiniteDividend : Unevaluable names (.fault .infiniteDividend)

namespace Unevaluable

variable {names names' : List (Json × Mark)} {f : Failure}

theorem mono (h : Unevaluable names f) (hsub : names ⊆ names') : Unevaluable names' f := by
  cases h with
  | undefined hmem hx => exact .undefined (hsub hmem) hx
  | unnamed hmem hx => exact .unnamed (hsub hmem) hx
  | operandType hc => exact .operandType hc
  | divisionByZero hc => exact .divisionByZero hc
  | infiniteDividend => exact .infiniteDividend

theorem of_read {w : World} {name : Json} {m : Mark} (hmem : (name, m) ∈ names)
    (h : w.read name m = .error f) : Unevaluable names f := by
  unfold World.read at h
  split at h
  · cases h
    exact .unnamed hmem ‹_›
  · split at h
    · cases h
    · cases h
      exact .undefined hmem ‹_›

theorem of_answered {r : Except Failure Value} (h : Answered r) (hr : r = .error f) :
    Unevaluable names f := by
  cases h with
  | value => cases hr
  | operandType hc =>
    cases hr
    exact .operandType hc
  | divisionByZero hc =>
    cases hr
    exact .divisionByZero hc

theorem of_applyBinary {op : String} {a b : Value} (h : applyBinary op a b = .error f) :
    Unevaluable names f := by
  by_cases hr : op = "%" ∧ a.LackRemainder b
  · obtain ⟨rfl, hlack⟩ := hr
    rw [applyBinary_of_lackRemainder hlack] at h
    cases h
    exact .infiniteDividend
  · exact of_answered ((answered_applyBinary op a b).2 hr) h

end Unevaluable

/-- An expression fails because of a variable that it reads or an operator. -/
theorem Evaluates.unevaluable {w w' : World} {n : Node} {f : Failure}
    (h : Evaluates w n w' (.error f)) : Unevaluable n.reads f := by
  generalize hr : Except.error f = r at h
  induction h with
  | number | string | bool | update => cases hr
  | ident => exact .of_read List.mem_cons_self hr.symm
  | binary => exact .of_applyBinary hr.symm
  | binaryLeft _ ih => exact (ih hr).mono (List.subset_append_left _ _)
  | binaryRight _ _ _ ih => exact (ih hr).mono (List.subset_append_right _ _)
  | unary => exact .of_answered (answered_applyUnary _ _) hr.symm
  | unaryOperand _ ih => exact ih hr
  | updateUnread hread => exact .of_read List.mem_cons_self (hread.trans hr.symm)
  | updateValue _ _ ih => exact (ih hr).mono (List.subset_cons_self _ _)
  | updateRefused _ _ happly =>
    cases hr
    exact .of_applyBinary happly

theorem Decides.unevaluable {construct : String} {w w' : World} {c : Node} {f : Failure}
    (h : Decides construct w c w' (.error f)) : Unevaluable c.reads f := by
  cases h with
  | other => exact .operandType rfl
  | fails hv => exact hv.unevaluable

/-- The failures that arise in a statement by itself. -/
inductive Arises (limit : Limit) : Node → Failure → Prop where
  | print {w w' : World} {e : Node} {m : Mark} {f : Failure} : Evaluates w e w' (.error f) →
    Arises limit (.print e m) f
  | inputUnnamed {name : Json} {m : Mark} : name.variableName? = none →
    Arises limit (.input name m) (.fault (.notAName name.kind))
  | inputEnds {name : Json} {m : Mark} :
    Arises limit (.input name m) (.ofCause (.endOfInput name.display))
  | assign {w w' : World} {name : Json} {e : Node} {m : Mark} {f : Failure} :
    Evaluates w e w' (.error f) → Arises limit (.assign name e m) f
  | assignUnnamed {name : Json} {e : Node} {m : Mark} : name.variableName? = none →
    Arises limit (.assign name e m) (.fault (.notAName name.kind))
  | branch {w w' : World} {c t e : Node} {m : Mark} {f : Failure} :
    Decides "if" w c w' (.error f) → Arises limit (.branch c t e m) f
  | condition {w w' : World} {c b : Node} {m : Mark} {f : Failure} :
    Decides "while" w c w' (.error f) → Arises limit (.loop c b m) f
  | limit {c b : Node} {m : Mark} {iterations : Nat} {f : Failure} :
    limit.refusal? iterations = some f → Arises limit (.loop c b m) f
  | evaluate {w w' : World} {e : Node} {m : Mark} {f : Failure} : Evaluates w e w' (.error f) →
    Arises limit (.evaluate e m) f

/-- Whether the failure that is the end of the given statements, if it is one, has arisen in
one of them or inside of it. -/
def ComesFrom (limit : Limit) (ns : List Node) : Ending → Prop
  | .failed path f => ∃ n ∈ ns, ∃ inner outer,
    path = inner :: outer ∧ n.Encloses inner outer ∧ Arises limit inner f
  | _ => True

namespace ComesFrom

variable {limit : Limit} {ns : List Node} {o : Ending}

theorem of_arises {n : Node} {f : Failure} (h : Arises limit n f) :
    ComesFrom limit [n] (.failed [n] f) :=
  ⟨n, List.mem_cons_self, n, [], rfl, .refl, h⟩

theorem mono {ns' : List Node} (h : ComesFrom limit ns o) (hsub : ns ⊆ ns') :
    ComesFrom limit ns' o := by
  cases o with
  | finished => trivial
  | leaving => trivial
  | failed path f =>
    obtain ⟨n, hn, hpath⟩ := h
    exact ⟨n, hsub hn, hpath⟩

theorem within {n : Node} (h : ComesFrom limit ns o) (hsub : ns ⊆ n.nested) :
    ComesFrom limit [n] (o.within n) := by
  cases o with
  | finished => trivial
  | leaving => trivial
  | failed path f =>
    obtain ⟨child, hchild, inner, outer, rfl, hencloses, harises⟩ := h
    exact ⟨n, List.mem_cons_self, inner, outer ++ [n], rfl, .nested (hsub hchild) hencloses,
      harises⟩

end ComesFrom

/-- Where the end of a task comes from. What arises in the condition of a loop or in counting
an iteration arises in the loop. -/
def Task.Accounts (limit : Limit) : Task → Ending → Prop
  | .statement n, o => ComesFrom limit [n] o
  | .sequence ns, o => ComesFrom limit ns o
  | .repetition c ns, o =>
    (∃ f, o = .failed [] f ∧ ∀ m, Arises limit (.loop c (.block ns) m) f) ∨ ComesFrom limit ns o

theorem name_of_store {w : World} {name : Json} {v : Value} {f : Failure}
    (h : w.store name v = .error f) :
    name.variableName? = none ∧ f = .fault (.notAName name.kind) := by
  unfold World.store at h
  split at h
  · cases h
    exact ⟨‹_›, rfl⟩
  · cases h

/-- Every failure has arisen in a statement. -/
theorem Executes.accounts {limit : Limit} {task : Task} {w w' : World} {o : Ending}
    (h : Executes limit task w w' o) : task.Accounts limit o := by
  -- The path of a failure grows by a statement exactly where the statement passes the failure
  -- on, which is what `Encloses` says of it.
  induction h with
  | print | input | assign | branchNone | leave | evaluate | nil => trivial
  | printValue hv => exact .of_arises (.print hv)
  | inputUnnamed _ hstore =>
    obtain ⟨hname, rfl⟩ := name_of_store hstore
    exact .of_arises (.inputUnnamed hname)
  | inputEnds => exact .of_arises .inputEnds
  | assignValue hv => exact .of_arises (.assign hv)
  | assignUnnamed _ hstore =>
    obtain ⟨hname, rfl⟩ := name_of_store hstore
    exact .of_arises (.assignUnnamed hname)
  | branchCondition hc => exact .of_arises (.branch hc)
  | branchThen _ _ ih => exact ih.within (List.subset_append_left _ _)
  | branchElse _ _ ih => exact ih.within (List.subset_append_right _ _)
  | loop _ ih =>
    rcases ih with ⟨f, rfl, harises⟩ | hfrom
    · exact .of_arises (harises _)
    · exact hfrom.within (List.Subset.refl _)
  | evaluateValue hv => exact .of_arises (.evaluate hv)
  | block _ ih => exact ih.within (List.Subset.refl _)
  | cons _ _ _ ih => exact ih.mono (List.subset_cons_self _ _)
  | consStops _ _ ih => exact ih.mono (by simp)
  | done | left => exact .inr trivial
  | condition hc => exact .inl ⟨_, rfl, fun _ => .condition hc⟩
  | refused _ hr => exact .inl ⟨_, rfl, fun _ => .limit hr⟩
  | again _ _ _ _ _ ih => exact ih
  | bodyFails _ _ _ ih => exact .inr ih

theorem refusal?_eq_some {limit : Limit} {iterations : Nat} {f : Failure}
    (h : limit.refusal? iterations = some f) :
    (∃ k, f = .ofCause (.iterationLimit k)) ∨
      ∃ kind, limit = .unusable kind ∧ f = .fault (.notALimit kind) := by
  unfold Limit.refusal? at h
  split at h
  · cases h
  · split at h
    · cases h
      exact .inl ⟨_, rfl⟩
    · cases h
  · cases h
    exact .inr ⟨_, rfl, rfl⟩

namespace Arises

variable {limit : Limit} {n : Node}

/-- What a statement can meet apart from the failures of its expression. -/
theorem unevaluable_or {f : Failure} (h : Arises limit n f) :
    Unevaluable n.uses f ∨ (∃ name, f = .ofCause (.endOfInput name)) ∨
      (∃ kind, f = .fault (.notAName kind)) ∨
      n.kind = "WhileStmt" ∧ ∃ iterations, limit.refusal? iterations = some f := by
  cases h with
  | print hv => exact .inl hv.unevaluable
  | inputUnnamed => exact .inr (.inr (.inl ⟨_, rfl⟩))
  | inputEnds => exact .inr (.inl ⟨_, rfl⟩)
  | assign hv => exact .inl hv.unevaluable
  | assignUnnamed => exact .inr (.inr (.inl ⟨_, rfl⟩))
  | branch hc => exact .inl hc.unevaluable
  | condition hc => exact .inl hc.unevaluable
  | limit hr => exact .inr (.inr (.inr ⟨rfl, _, hr⟩))
  | evaluate hv => exact .inl hv.unevaluable

/-- An error is about a variable that the statement reads, and stands there, or it has no
place yet. Only a loop exceeds the limit on iterations. -/
theorem error_cases {e : Error} (h : Arises limit n (.error e)) :
    (∃ name x, (name, e.mark) ∈ n.uses ∧ name.variableName? = some x ∧
      e.cause = .undefinedVariable x) ∨
    e = .unplaced e.cause ∧ e.cause.family.isEvaluation = true ∧
      e.cause.family ≠ .undefinedVariable ∧
      (e.cause.family = .iterationLimit → n.kind = "WhileStmt") := by
  rcases h.unevaluable_or with hu | ⟨_, hf⟩ | ⟨_, hf⟩ | ⟨hloop, _, hr⟩
  · generalize hf : Failure.error e = f at hu
    cases hu with
    | undefined hmem hx =>
      cases hf
      exact .inl ⟨_, _, hmem, hx, rfl⟩
    | operandType hc | divisionByZero hc =>
      cases hf
      exact .inr ⟨rfl, hc ▸ rfl, hc ▸ nofun, hc ▸ nofun⟩
    | unnamed => cases hf
    | infiniteDividend => cases hf
  · cases hf
    exact .inr ⟨rfl, rfl, nofun, nofun⟩
  · cases hf
  · rcases refusal?_eq_some hr with ⟨_, hf⟩ | ⟨_, _, hf⟩
    · cases hf
      exact .inr ⟨rfl, rfl, nofun, fun _ => hloop⟩
    · cases hf

theorem limit_eq_unusable {kind : String} (h : Arises limit n (.fault (.notALimit kind))) :
    limit = .unusable kind := by
  rcases h.unevaluable_or with hu | ⟨_, hf⟩ | ⟨_, hf⟩ | ⟨_, _, hr⟩
  · cases hu
  · cases hf
  · cases hf
  · rcases refusal?_eq_some hr with ⟨_, hf⟩ | ⟨_, hlimit, hf⟩
    · cases hf
    · cases hf
      exact hlimit

end Arises
end BigStep

open BigStep

/-- The end of a run adds to the trace only, unless it makes an error of what ended it. -/
theorem observed_of_conclude {settings : Settings} {body : Run Unit} {s s' : State} {f : Failure}
    (h : conclude settings body s = .error (.failure f) s') :
    f = .ofCause .strayBreak ∨ f = .ofCause .nestedTree ∨
      observed (body s) = (.error (.failure f), s'.world) := by
  unfold conclude at h
  rcases hb : body s with ⟨_, s₁⟩ | ⟨(e | g) | _ | _ | _, s₁⟩ <;> rw [hb] at h <;> cases h
  · refine .inr (.inr ?_)
    dsimp only
    split <;> rfl
  · exact .inr (.inr rfl)
  · exact .inl rfl
  · exact .inr (.inl rfl)

/-- A run that fails does so by the rules, unless a `break` or the depth of its tree has
ended it. -/
theorem exists_executes_of_runWithin {settings : Settings} {steps depth : Nat}
    {body : List Node} (hbody : ∀ n ∈ body, n.IsProperStatement) {s s' : State} {f : Failure}
    (h : runWithin settings steps depth (.program body) s = .error (.failure f) s') :
    f = .ofCause .strayBreak ∨ f = .ofCause .nestedTree ∨
      ∃ path f₀, Executes settings.limit (.sequence body) ⟨s.toBuffer, .empty, 0⟩ s'.world
        (.failed path f₀) ∧ f = f₀.placedAt (Node.innermostMark path) := by
  -- The trace is all that the first event changes.
  obtain ⟨s₁, hw, h⟩ : ∃ s₁ : State, s₁.world = ⟨s.toBuffer, .empty, 0⟩ ∧
      conclude settings (inOrder (exec settings steps depth) body) s₁ = .error (.failure f) s' := by
    change (do
      Run.record settings (.started body.length)
      conclude settings (inOrder (exec settings steps depth) body)) _ = _ at h
    unfold Run.record at h
    split at h
    · exact ⟨_, rfl, h⟩
    · exact ⟨_, rfl, h⟩
  rcases observed_of_conclude h with hf | hf | hf
  · exact .inl hf
  · exact .inr (.inl hf)
  · have hobeys := obeys_inOrder
      (fun n hn => obeys_exec settings steps depth (hbody n hn)) _ s₁ hw
    rw [hf] at hobeys
    obtain ⟨o, ho, hexecutes⟩ := hobeys rfl
    cases o with
    | finished => cases ho
    | leaving => cases ho
    | failed path f₀ =>
      cases ho
      exact .inr (.inr ⟨path, f₀, hexecutes, rfl⟩)

theorem Family.phase_of_isEvaluation {f : Family} (h : f.isEvaluation = true) :
    f.phase = "runtime" := by
  cases f with
  | lexical => cases h
  | syntactic => cases h
  | _ => rfl

/-- Whether statements fail by the rules, and in no other way than with the given statements
under way, the innermost first. -/
def BigStep.FailsAmid (limit : Limit) (ns : List Node) (w : World) (path : List Node)
    (f : Failure) : Prop :=
  (∃ w', Executes limit (.sequence ns) w w' (.failed path f)) ∧
    ∀ w' o, Executes limit (.sequence ns) w w' o → o = .failed path f

theorem BigStep.Executes.failsAmid {limit : Limit} {ns path : List Node} {w w' : World}
    {f : Failure} (h : Executes limit (.sequence ns) w w' (.failed path f)) :
    FailsAmid limit ns w path f :=
  ⟨⟨w', h⟩, fun _ _ ho => (h.unique ho).2.symm⟩

/-- A run of a parsed program that fails does so in one of its statements, unless the tree is
too deep. -/
theorem exists_origin_of_run {f : FrontEnd} {text : String} {program : Node}
    (hparse : f.parse text = .ok program) {settings : Settings} {steps depth : Nat}
    {s s' : State} {failure : Failure}
    (hrun : runWithin settings steps depth program s = .error (.failure failure) s') :
    failure = .ofCause .nestedTree ∨ ∃ inner outer f₀,
      FailsAmid settings.limit program.nested ⟨s.toBuffer, .empty, 0⟩ (inner :: outer) f₀ ∧
      (∃ n ∈ program.nested, n.Encloses inner outer) ∧ Arises settings.limit inner f₀ ∧
      failure = f₀.placedAt (Node.innermostMark (inner :: outer)) := by
  cases FrontEnd.isProgram_of_parse hparse with
  | intro hbody =>
    rcases exists_executes_of_runWithin (fun n hn => (hbody n hn).isProper) hrun with
      rfl | hf | ⟨path, f₀, hexecutes, hf⟩
    · exact absurd rfl (isExpected_of_runWithin (FrontEnd.isProgram_of_parse hparse) hrun).1
    · exact .inl hf
    · obtain ⟨n, hn, inner, outer, rfl, hencloses, harises⟩ := hexecutes.accounts
      exact .inr ⟨inner, outer, f₀, hexecutes.failsAmid, ⟨n, hn, hencloses⟩, harises, hf⟩

/-- A run of a parsed program fails with an evaluation error, with the remainder of an
infinity or because of a limit that is none. -/
theorem failure_of_run {f : FrontEnd} {text : String} {program : Node}
    (hparse : f.parse text = .ok program) {settings : Settings} {steps depth : Nat}
    {s s' : State} {failure : Failure}
    (hrun : runWithin settings steps depth program s = .error (.failure failure) s') :
    (∃ e, failure = .error e ∧ e.cause.family.isEvaluation = true) ∨
      failure = .fault .infiniteDividend ∨ ∃ kind, settings.limit = .unusable kind := by
  rcases exists_origin_of_run hparse hrun with rfl | ⟨inner, outer, f₀, _, _, harises, rfl⟩
  · exact .inl ⟨_, rfl, rfl⟩
  · cases f₀ with
    | error e =>
      refine .inl ⟨_, rfl, ?_⟩
      rcases harises.error_cases with ⟨_, _, _, _, hcause⟩ | ⟨_, hevaluation, _⟩
      · exact hcause ▸ rfl
      · exact hevaluation
    | fault g =>
      rcases isExpected_of_runWithin (FrontEnd.isProgram_of_parse hparse) hrun with
        rfl | ⟨kind, rfl⟩
      · exact .inr (.inl rfl)
      · exact .inr (.inr ⟨kind, harises.limit_eq_unusable⟩)

/-- Operators give values or evaluation errors, and runs of parsed programs fail with
evaluation errors. The one exception to both is the remainder of an infinity. -/
theorem failures_are_errors_but_for_infinite_remainders (op : String) (a b : Value) :
    Answered (applyUnary op a) ∧
    (Answered (applyBinary op a b) ↔ ¬ (op = "%" ∧ a.LackRemainder b)) ∧
    ∀ (f : FrontEnd) (text : String) (program : Node), f.parse text = .ok program →
      ∀ settings : Settings, (∀ kind, settings.limit ≠ .unusable kind) →
      ∀ (steps depth : Nat) (s s' : State) (failure : Failure),
        runWithin settings steps depth program s = .error (.failure failure) s' →
        failure = .fault .infiniteDividend ∨
          ∃ e, failure = .error e ∧ e.cause.family.isEvaluation = true ∧
            e.report.phase = "runtime" := by
  refine ⟨answered_applyUnary op a, answered_applyBinary op a b, ?_⟩
  intro f text program hparse settings hlimit steps depth s s' failure hrun
  rcases failure_of_run hparse hrun with ⟨e, rfl, he⟩ | rfl | ⟨kind, hkind⟩
  · exact .inr ⟨e, rfl, he, Family.phase_of_isEvaluation he⟩
  · exact .inl rfl
  · exact absurd hkind (hlimit kind)

/-- A division by zero. -/
def quotientText : String := "print(1 / 0)"

def quotientTree : Node :=
  .program [.print (.binary (.str "/") (.number 1) (.number 0)) (.of ⟨1, 1⟩)]

theorem quotientText_fails :
    Answered (applyBinary "/" (.number 1) (.number 0)) ∧
    FrontEnd.parse .descent quotientText = .ok quotientTree ∧
      ∃ failure s', runWithin ⟨0, .unlimited⟩ 1 walkingDepth quotientTree (.initial ⟨[], #[]⟩) =
          .error (.failure failure) s' ∧
        (failure = .fault .infiniteDividend ∨
          ∃ e, failure = .error e ∧ e.cause.family.isEvaluation = true ∧
            e.report.phase = "runtime") := by
  obtain ⟨_, hbinary, hruns⟩ :=
    failures_are_errors_but_for_infinite_remainders "/" (.number 1) (.number 0)
  have hparse : FrontEnd.parse .descent quotientText = .ok quotientTree := rfl
  obtain ⟨failure, s', hrun⟩ : ∃ failure s', runWithin ⟨0, .unlimited⟩ 1 walkingDepth quotientTree
      (.initial ⟨[], #[]⟩) = .error (.failure failure) s' := ⟨_, _, rfl⟩
  refine ⟨hbinary.2 fun h => absurd h.1 (by decide), hparse, failure, s', hrun, ?_⟩
  exact hruns .descent _ _ hparse ⟨0, .unlimited⟩ (fun _ => nofun) _ _ _ _ _ hrun

/-- Whether an execution is stopped by what is no error of a script. -/
def Stop.isFault : Stop → Bool
  | .failure (.fault _) => true
  | _ => false

/-- A power that is too large for a double, and its remainder. -/
def infiniteText : String := "print(10 ^ 400 % 2)"

def infiniteTree : Node :=
  .program [.print (.binary (.str "%") (.binary (.str "^") (.number 10) (.number 400))
    (.number 2)) (.of ⟨1, 1⟩)]

theorem infiniteText_faults :
    ¬ Answered (applyBinary "%" (.number (Binary.infinity false)) (.number 2)) ∧
    FrontEnd.parse .descent infiniteText = .ok infiniteTree ∧
      (stop? (runWithin ⟨0, .unlimited⟩ 1 walkingDepth infiniteTree (.initial ⟨[], #[]⟩))).any
        Stop.isFault = true := by
  refine ⟨?_, rfl, by decide +kernel⟩
  rw [answered_applyBinary]
  exact not_not_intro ⟨rfl, ⟨by decide, by decide⟩, by decide⟩

end Scriptling
