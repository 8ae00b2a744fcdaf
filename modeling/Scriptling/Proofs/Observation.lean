import Scriptling.Proofs.BigStep

/-!
# Actions in a world

What is seen of an action is its result and the world that it leaves; both depend on the
world in which it is taken and not on the trace. `Gives` says what an action does where
that is known exactly, `Ensures` what holds of it as long as no bound ends it.
-/
namespace Scriptling

/-- What a program works on in a state. -/
def State.world (s : State) : World := ⟨s.toBuffer, s.env, s.iterations⟩

/-- A name that a value can be read under is one that a value can be stored under. -/
theorem World.store_of_read {w : World} {name : Json} {m : Mark} {a : Value}
    (h : w.read name m = .ok a) (w' : World) (v : Value) : ∃ w'', w'.store name v = .ok w'' := by
  unfold read at h
  unfold store
  cases hx : name.variableName? with
  | none =>
    rw [hx] at h
    cases h
  | some x => exact ⟨_, rfl⟩

/-- What is seen of the end of an action, the trace aside. -/
def observed {α : Type} : EStateM.Result Stop State α → Except Stop α × World
  | .ok a s => (.ok a, s.world)
  | .error e s => (.error e, s.world)

/-- Whether a stop is due to the bounds that a run is given. -/
def Stop.isBound : Stop → Bool
  | .tooDeep | .outOfSteps => true
  | _ => false

/-- Whether no bound has ended an action. -/
def IsSettled {α : Type} : Except Stop α → Prop
  | .ok _ => True
  | .error e => e.isBound = false

/-- What a statement makes of the result of what it does. -/
def placed {α : Type} (m : Mark) : Except Stop α → Except Stop α
  | .error (.failure f) => .error (.failure (f.placedAt m))
  | x => x

/-- What a loop makes of the result of its body. -/
def caught : Except Stop Unit → Except Stop Bool
  | .ok _ => .ok false
  | .error .leaving => .ok true
  | .error e => .error e

theorem IsSettled.of_placed {α : Type} {m : Mark} {x : Except Stop α}
    (h : IsSettled (placed m x)) : IsSettled x := by
  rcases x with (f | _ | _ | _) | a <;> exact h

theorem IsSettled.of_caught {x : Except Stop Unit} (h : IsSettled (caught x)) : IsSettled x := by
  rcases x with (f | _ | _ | _) | a
  · exact h
  · rfl
  · exact h
  · exact h
  · exact h

namespace Run

variable {α β : Type}

theorem observed_placing (m : Mark) (r : Run α) (s : State) :
    observed (placing m r s) = (placed m (observed (r s)).1, (observed (r s)).2) := by
  unfold placing
  rcases r s with ⟨a, s'⟩ | ⟨(e | f) | _ | _ | _, s'⟩ <;> rfl

theorem observed_leaves (body : Run Unit) (s : State) :
    observed (leaves body s) = (caught (observed (body s)).1, (observed (body s)).2) := by
  unfold leaves
  rcases body s with ⟨a, s'⟩ | ⟨f | _ | _ | _, s'⟩ <;> rfl

theorem countIteration_refusal (settings : Settings) (s : State) :
    countIteration settings s =
      match settings.limit.refusal? s.counted.iterations with
      | none => .ok () s.counted
      | some f => .error (.failure f) s.counted := by
  obtain ⟨level, limit⟩ := settings
  rw [countIteration_apply]
  cases limit with
  | unlimited => rfl
  | atMost n =>
    dsimp only [Limit.refusal?]
    split <;> rfl
  | unusable kind => rfl

/-- Whether an action has the given result and leaves the world `w'`, if it is taken in the
world `w`. -/
def Gives (action : Run α) (w w' : World) (x : Except Stop α) : Prop :=
  ∀ s : State, s.world = w → observed (action s) = (x, w')

namespace Gives

variable {w w₁ w₂ : World}

theorem pure (a : α) : Gives (pure a) w w (.ok a) := by
  rintro s rfl
  rfl

theorem throw (e : Stop) : Gives (throw e : Run α) w w (.error e) := by
  rintro s rfl
  rfl

theorem bind {r : Run α} {k : α → Run β} {a : α} {x : Except Stop β}
    (h : r.Gives w w₁ (.ok a)) (hk : (k a).Gives w₁ w₂ x) : Gives (r >>= k) w w₂ x := by
  intro s hs
  have hr := h s hs
  cases hrs : r s with
  | ok a' s' =>
    rw [hrs] at hr
    cases hr
    rw [bind_of_ok hrs]
    exact hk s' rfl
  | error e s' =>
    rw [hrs] at hr
    cases hr

theorem bind_error {r : Run α} {k : α → Run β} {e : Stop} (h : r.Gives w w₁ (.error e)) :
    Gives (r >>= k) w w₁ (.error e) := by
  intro s hs
  have hr := h s hs
  cases hrs : r s with
  | ok a s' =>
    rw [hrs] at hr
    cases hr
  | error e' s' =>
    rw [hrs] at hr
    cases hr
    rw [bind_of_error hrs]
    rfl

theorem record (settings : Settings) (e : Event) : Gives (record settings e) w w (.ok ()) := by
  rintro s rfl
  unfold Run.record
  split <;> rfl

theorem write (line : String) : Gives (write line) w (w.write line) (.ok ()) := by
  rintro s rfl
  rfl

theorem readLine?_nil (h : w.pending = []) : Gives readLine? w w (.ok none) := by
  rintro s rfl
  change s.pending = [] at h
  rw [readLine?, bind_get, h]
  rfl

theorem readLine?_cons {line : String} {rest : List String} (h : w.pending = line :: rest) :
    Gives readLine? w { w with pending := rest } (.ok (some line)) := by
  rintro s rfl
  change s.pending = line :: rest at h
  rw [readLine?, bind_get, h]
  rfl

theorem setVariable_ok {name : Json} {v : Value} (h : w.store name v = .ok w₁) :
    Gives (setVariable name v) w w₁ (.ok ()) := by
  unfold World.store at h
  unfold Run.setVariable variableOf
  split at h
  · cases h
  · rename_i x hx
    cases h
    rw [hx]
    refine bind (.pure x) ?_
    rintro s rfl
    rfl

theorem setVariable_error {name : Json} {v : Value} {f : Failure} (h : w.store name v = .error f) :
    Gives (setVariable name v) w w (.error (.failure f)) := by
  unfold World.store at h
  unfold Run.setVariable variableOf
  split at h
  · rename_i hx
    cases h
    rw [hx]
    exact bind_error (.throw _)
  · cases h

theorem lookup {name : Json} {m : Mark} {r : Except Failure Value} (h : w.read name m = r) :
    Gives (lookup name m) w w (r.mapError .failure) := by
  subst h
  unfold World.read Run.lookup variableOf
  cases name.variableName? with
  | none => exact bind_error (.throw _)
  | some x =>
    refine bind (.pure x) ?_
    rintro s rfl
    rw [bind_get]
    dsimp only [State.world]
    cases s.env.get? x <;> rfl

theorem ofExcept {r r' : Except Failure α} (h : r = r') :
    Gives (ofExcept r) w w (r'.mapError .failure) := by
  subst h
  cases r with
  | ok a => exact .pure a
  | error f => exact .throw _

theorem countIteration_ok {settings : Settings}
    (h : settings.limit.refusal? w.counted.iterations = none) :
    Gives (countIteration settings) w w.counted (.ok ()) := by
  rintro s rfl
  rw [countIteration_refusal, show settings.limit.refusal? s.counted.iterations = none from h]
  rfl

theorem countIteration_error {settings : Settings} {f : Failure}
    (h : settings.limit.refusal? w.counted.iterations = some f) :
    Gives (countIteration settings) w w.counted (.error (.failure f)) := by
  rintro s rfl
  rw [countIteration_refusal, show settings.limit.refusal? s.counted.iterations = some f from h]
  rfl

theorem placing {r : Run α} {x : Except Stop α} (m : Mark) (h : r.Gives w w₁ x) :
    Gives (placing m r) w w₁ (placed m x) := by
  intro s hs
  rw [observed_placing, h s hs]

theorem leaves {body : Run Unit} {x : Except Stop Unit} (h : body.Gives w w₁ x) :
    Gives (leaves body) w w₁ (caught x) := by
  intro s hs
  rw [observed_leaves, h s hs]

theorem unique {action : Run α} {x y : Except Stop α} (h₁ : action.Gives w w₁ x)
    (h₂ : action.Gives w w₂ y) : w₁ = w₂ ∧ x = y := by
  have h := (h₁ ⟨w.toBuffer, w.env, w.iterations, .none⟩ rfl).symm.trans (h₂ _ rfl)
  exact ⟨congrArg Prod.snd h, congrArg Prod.fst h⟩

end Gives

/-- Whether `Q` holds of the world and the result that an action leaves in the world `w`,
unless a bound ends it. -/
def Ensures (action : Run α) (w : World) (Q : World → Except Stop α → Prop) : Prop :=
  ∀ s : State, s.world = w → IsSettled (observed (action s)).1 →
    Q (observed (action s)).2 (observed (action s)).1

namespace Ensures

variable {w w₁ : World}

theorem of_gives {r : Run α} {x : Except Stop α} {Q : World → Except Stop α → Prop}
    (h : r.Gives w w₁ x) (hQ : Q w₁ x) : r.Ensures w Q := by
  intro s hs _
  rw [h s hs]
  exact hQ

theorem throw_bound {e : Stop} (h : e.isBound = true) {Q : World → Except Stop α → Prop} :
    Ensures (throw e : Run α) w Q :=
  fun _ _ hsettled => Bool.noConfusion (h.symm.trans hsettled)

theorem mono {r : Run α} {P Q : World → Except Stop α → Prop} (h : r.Ensures w P)
    (hPQ : ∀ w' x, P w' x → Q w' x) : r.Ensures w Q :=
  fun s hs hsettled => hPQ _ _ (h s hs hsettled)

/-- What comes next is judged from the world that the first action leaves. -/
theorem bind {r : Run α} {k : α → Run β} {Q : World → Except Stop β → Prop}
    (h : r.Ensures w fun w' x =>
      match x with
      | .ok a => (k a).Ensures w' Q
      | .error e => Q w' (.error e)) : Ensures (r >>= k) w Q := by
  intro s hs hsettled
  have hr := h s hs
  cases hrs : r s with
  | ok a s' =>
    rw [bind_of_ok hrs] at hsettled ⊢
    rw [hrs] at hr
    exact hr trivial s' rfl hsettled
  | error e s' =>
    rw [bind_of_error hrs] at hsettled ⊢
    rw [hrs] at hr
    exact hr hsettled

theorem after {r : Run α} {k : α → Run β} {a : α} {Q : World → Except Stop β → Prop}
    (h : r.Gives w w₁ (.ok a)) (hk : (k a).Ensures w₁ Q) : Ensures (r >>= k) w Q :=
  .bind (.of_gives h hk)

theorem placing {r : Run α} {m : Mark} {Q : World → Except Stop α → Prop}
    (h : r.Ensures w fun w' x => Q w' (placed m x)) : Ensures (placing m r) w Q := by
  intro s hs hsettled
  rw [observed_placing] at hsettled ⊢
  exact h s hs hsettled.of_placed

theorem leaves {body : Run Unit} {Q : World → Except Stop Bool → Prop}
    (h : body.Ensures w fun w' x => Q w' (caught x)) : Ensures (leaves body) w Q := by
  intro s hs hsettled
  rw [observed_leaves] at hsettled ⊢
  exact h s hs hsettled.of_caught

end Ensures
end Run

end Scriptling
