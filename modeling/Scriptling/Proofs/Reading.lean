import Scriptling.Descent.Statement

/-!
# Readings of closed streams

A stream is closed if it has an end, or a failure where its tokens run out. On
such a stream a look ahead sees a token of the stream or meets the failure, and
nothing is ever added to the tokens.
-/
namespace Scriptling

namespace Symbol

theorem isMark_iff {s : Symbol} {text : String} : s.isMark text = true ↔ s = .mark text := by
  cases s <;> simp [isMark]

end Symbol

namespace Stream

/-- Whether a stream has an end, or a failure where its tokens run out. -/
def Closed (s : Stream) : Prop :=
  s.failure.isSome ∨ ∃ t ∈ s.tokens, t.symbol.isFinish

theorem Closed.cases {s : Stream} (h : s.Closed) :
    (∃ e, s = ⟨[], some e⟩) ∨ ∃ t rest failure, s = ⟨t :: rest, failure⟩ := by
  obtain ⟨tokens, failure⟩ := s
  cases tokens with
  | cons t rest => exact .inr ⟨t, rest, failure, rfl⟩
  | nil =>
    cases failure with
    | some e => exact .inl ⟨e, rfl⟩
    | none => simp [Closed] at h

theorem Closed.tail {t : Token} {rest : List Token} {failure : Option Error}
    (h : Closed ⟨t :: rest, failure⟩) (ht : t.symbol.isFinish = false) :
    Closed ⟨rest, failure⟩ := by
  simpa [Closed, ht] using h

end Stream

namespace Descent

variable {α β : Type} {t u : Token} {rest : List Token} {failure : Option Error} {e : Error}

@[simp] theorem run_peek_cons :
    peek.run ⟨t :: rest, failure⟩ = .ok (t, ⟨t :: rest, failure⟩) := rfl

@[simp] theorem run_peek_nil : peek.run ⟨[], some e⟩ = .error e := rfl

theorem run_peekSecond_cons (ht : t.symbol.isFinish = false) :
    peekSecond.run ⟨t :: u :: rest, failure⟩ = .ok (u, ⟨t :: u :: rest, failure⟩) := by
  change Except.ok ((Stream.tail ⟨t :: u :: rest, failure⟩).head, _) = _
  simp [Stream.tail, Stream.head, ht]

@[simp] theorem run_peekSecond_single : peekSecond.run ⟨[t], some e⟩ = .error e := rfl

theorem run_advance_cons (ht : t.symbol.isFinish = false) :
    advance.run ⟨t :: rest, failure⟩ = .ok ((), ⟨rest, failure⟩) := by
  change Except.ok ((), Stream.tail ⟨t :: rest, failure⟩) = _
  simp [Stream.tail, Stream.head, ht]

theorem run_bind_of_ok {r : Reading α} {k : α → Reading β} {s s' : Stream} {a : α}
    (h : r.run s = .ok (a, s')) : (r >>= k).run s = (k a).run s' := by
  rw [StateT.run_bind, h]
  rfl

theorem run_bind_eq_ok_iff {r : Reading α} {k : α → Reading β} {s : Stream} {x : β × Stream} :
    (r >>= k).run s = .ok x ↔ ∃ a s', r.run s = .ok (a, s') ∧ (k a).run s' = .ok x := by
  rw [StateT.run_bind]
  cases r.run s with
  | error e => simp [bind, Except.bind]
  | ok p =>
    constructor
    · intro h
      exact ⟨p.1, p.2, rfl, h⟩
    · rintro ⟨a, s', h, hk⟩
      cases h
      exact hk

theorem run_bind_eq_error_iff {r : Reading α} {k : α → Reading β} {s : Stream} :
    (r >>= k).run s = .error e ↔
      r.run s = .error e ∨ ∃ a s', r.run s = .ok (a, s') ∧ (k a).run s' = .error e := by
  rw [StateT.run_bind]
  cases r.run s with
  | error e => simp [bind, Except.bind]
  | ok p =>
    constructor
    · intro h
      exact .inr ⟨p.1, p.2, rfl, h⟩
    · rintro (h | ⟨a, s', h, hk⟩)
      · cases h
      · cases h
        exact hk

theorem run'_eq_ok_iff {r : Reading α} {s : Stream} {a : α} :
    r.run' s = .ok a ↔ ∃ rest, r.run s = .ok (a, rest) := by
  change Prod.fst <$> r.run s = .ok a ↔ _
  cases r.run s with
  | error e => simp [Functor.map, Except.map]
  | ok x => simp [Functor.map, Except.map, Prod.ext_iff]

theorem run'_eq_error_iff {r : Reading α} {s : Stream} :
    r.run' s = .error e ↔ r.run s = .error e := by
  change Prod.fst <$> r.run s = .error e ↔ _
  cases r.run s with
  | error e' => simp [Functor.map, Except.map]
  | ok x => simp [Functor.map, Except.map]

theorem operator?_eq_some_iff {ops : List String} {t : Token} {op : String} :
    operator? ops t = some op ↔ t.symbol = .mark op ∧ op ∈ ops := by
  unfold operator?
  split
  · rename_i text ht
    rw [ht, Symbol.mark.injEq]
    by_cases hm : text ∈ ops
    · rw [if_pos (List.contains_iff_mem.2 hm), Option.some.injEq]
      constructor
      · rintro rfl
        exact ⟨rfl, hm⟩
      · exact And.left
    · rw [if_neg (by simpa using hm)]
      constructor
      · nofun
      · rintro ⟨rfl, hop⟩
        exact (hm hop).elim
  · rename_i hno
    constructor
    · nofun
    · rintro ⟨ht, -⟩
      exact (hno op ht).elim

theorem isFinish_of_mark {t : Token} {text : String} (h : t.symbol = .mark text) :
    t.symbol.isFinish = false := by
  rw [h]
  rfl

theorem run_consume_cons {text : String} (ht : t.symbol = .mark text) :
    (consume text).run ⟨t :: rest, failure⟩ = .ok (t, ⟨rest, failure⟩) := by
  refine run_bind_eq_ok_iff.2 ⟨t, _, run_peek_cons, ?_⟩
  rw [if_pos (Symbol.isMark_iff.2 ht)]
  exact run_bind_eq_ok_iff.2 ⟨(), _, run_advance_cons (isFinish_of_mark ht), rfl⟩

end Descent
end Scriptling
