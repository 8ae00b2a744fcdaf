import Scriptling.Proofs.Moves

/-!
# Reading along with the machine

A reading follows the machine if both come to the same verdict. Where the reading
succeeds, the machine has got past the same tokens and judges the rest of the
stream as it judged the whole; where the reading fails, the machine refuses the
stream with the same error. Only a reading that runs out of its budget may fail
where the machine does not.
-/
namespace Scriptling

namespace Descent

open ShiftReduce

/-- What a reading does to a stream, and what the machine makes of it. -/
structure Follows {α : Type} (short : Prop) (r : Reading α) (m : Machine) (s : Stream)
    (post : α → Machine → Stream → Prop) : Prop where
  ok : ∀ a rest, r.run s = .ok (a, rest) →
    ∃ next : Machine, m.verdict s = next.verdict rest ∧ rest.Closed ∧
      rest.tokens.length ≤ s.tokens.length ∧ post a next rest
  error : ∀ e, r.run s = .error e → (e = tooDeep ∧ short) ∨ m.verdict s = .error e

namespace Follows

variable {α β : Type} {short : Prop} {r : Reading α} {m : Machine} {s : Stream}
  {post : α → Machine → Stream → Prop}

theorem mono {short' : Prop} {post' : α → Machine → Stream → Prop}
    (h : Follows short r m s post) (hs : short → short')
    (hp : ∀ a next rest, rest.tokens.length ≤ s.tokens.length →
      post a next rest → post' a next rest) :
    Follows short' r m s post' where
  ok a rest hr := by
    obtain ⟨next, hv, hc, hl, ha⟩ := h.ok a rest hr
    exact ⟨next, hv, hc, hl, hp a next rest hl ha⟩
  error e hr := (h.error e hr).imp_left fun ⟨he, hd⟩ => ⟨he, hs hd⟩

/-- A budget that is short for a part is short for the whole. -/
theorem weaken {short' : Prop} (h : Follows short r m s post) (hs : short → short') :
    Follows short' r m s post :=
  h.mono hs fun _ _ _ _ ha => ha

/-- The machine may be exchanged for one that judges the stream in the same way. -/
theorem of_verdict {m' : Machine} (h : Follows short r m' s post)
    (hv : m.verdict s = m'.verdict s) : Follows short r m s post where
  ok a rest hr := by
    rw [hv]
    exact h.ok a rest hr
  error e hr := by
    rw [hv]
    exact h.error e hr

theorem pure {a : α} (hs : s.Closed) (h : post a m s) : Follows short (pure a) m s post where
  ok _ _ hr := by
    cases hr
    exact ⟨m, rfl, hs, Nat.le_refl _, h⟩
  error _ hr := by cases hr

theorem throw {e : Error} (h : m.verdict s = .error e) :
    Follows short (throw e : Reading α) m s post where
  ok _ _ hr := by cases hr
  error _ hr := by
    cases hr
    exact .inr h

theorem bind {k : α → Reading β} {post' : β → Machine → Stream → Prop}
    (h : Follows short r m s post)
    (hk : ∀ a next rest, rest.Closed → rest.tokens.length ≤ s.tokens.length →
      post a next rest → Follows short (k a) next rest post') :
    Follows short (r >>= k) m s post' where
  ok b rest' hr := by
    obtain ⟨a, rest, ha, hb⟩ := run_bind_eq_ok_iff.1 hr
    obtain ⟨next, hv, hc, hl, hp⟩ := h.ok a rest ha
    obtain ⟨next', hv', hc', hl', hp'⟩ := (hk a next rest hc hl hp).ok b rest' hb
    exact ⟨next', hv.trans hv', hc', Nat.le_trans hl' hl, hp'⟩
  error e hr := by
    rcases run_bind_eq_error_iff.1 hr with he | ⟨a, rest, ha, he⟩
    · exact h.error e he
    · obtain ⟨next, hv, hc, hl, hp⟩ := h.ok a rest ha
      rw [hv]
      exact (hk a next rest hc hl hp).error e he

/-- Looking at a stream moves neither the reading nor the machine. -/
theorem look {look : Reading α} {a : α} {k : α → Reading β} {post' : β → Machine → Stream → Prop}
    (hl : look.run s = .ok (a, s)) (h : Follows short (k a) m s post') :
    Follows short (look >>= k) m s post' where
  ok b rest hr := by
    obtain ⟨a', s', ha, hb⟩ := run_bind_eq_ok_iff.1 hr
    cases hl.symm.trans ha
    exact h.ok b rest hb
  error e hr := by
    rcases run_bind_eq_error_iff.1 hr with he | ⟨a', s', ha, he⟩
    · cases hl.symm.trans he
    · cases hl.symm.trans ha
      exact h.error e he

/-- A reading that meets an error at once follows the machine if that meets it too. -/
theorem fail {k : α → Reading β} {post' : β → Machine → Stream → Prop} {e : Error}
    (hr : r.run s = .error e) (hv : m.verdict s = .error e) :
    Follows short (r >>= k) m s post' where
  ok b rest hb := by
    obtain ⟨a, s', ha, -⟩ := run_bind_eq_ok_iff.1 hb
    cases hr.symm.trans ha
  error e' he := by
    rcases run_bind_eq_error_iff.1 he with he | ⟨a, s', ha, -⟩
    · cases hr.symm.trans he
      exact .inr hv
    · cases hr.symm.trans ha

theorem peek (hs : s.Closed) {k : Token → Reading α}
    (hk : ∀ t rest failure, s = ⟨t :: rest, failure⟩ →
      Follows short (k t) m ⟨t :: rest, failure⟩ post) :
    Follows short (Descent.peek >>= k) m s post := by
  rcases hs.cases with ⟨e, rfl⟩ | ⟨t, rest, failure, rfl⟩
  · exact .fail run_peek_nil rfl
  · exact .look run_peek_cons (hk t rest failure rfl)

/-- The machine can read the next token wherever the one behind it is looked at. -/
theorem peekSecond {t : Token} {rest : List Token} {failure : Option Error} {next : Machine}
    (hs : Stream.Closed ⟨t :: rest, failure⟩) (ht : t.symbol.isFinish = false)
    (hm : m.read t = .ok next) {k : Token → Reading α}
    (hk : ∀ u rest', rest = u :: rest' →
      Follows short (k u) m ⟨t :: u :: rest', failure⟩ post) :
    Follows short (Descent.peekSecond >>= k) m ⟨t :: rest, failure⟩ post := by
  rcases (hs.tail ht).cases with ⟨e, h⟩ | ⟨u, rest', failure', h⟩
  · cases h
    refine .fail run_peekSecond_single ?_
    simp [Machine.verdict, Machine.judge, ht, hm]
  · cases h
    exact .look (run_peekSecond_cons ht) (hk u rest' rfl)

/-- The machine moves over a token that is taken. -/
theorem advance {t : Token} {rest : List Token} {failure : Option Error} {next : Machine}
    (hs : Stream.Closed ⟨t :: rest, failure⟩) (ht : t.symbol.isFinish = false)
    (hm : m.read t = .ok next) :
    Follows short Descent.advance m ⟨t :: rest, failure⟩
      (fun _ next' s' => next' = next ∧ s' = ⟨rest, failure⟩) where
  ok _ _ hr := by
    rw [run_advance_cons ht] at hr
    cases hr
    refine ⟨next, ?_, hs.tail ht, by simp, rfl, rfl⟩
    simp [Machine.verdict, Machine.judge, ht, hm]
  error e hr := by
    rw [run_advance_cons ht] at hr
    cases hr

/-- The machine moves over a keyword or operator that is consumed. -/
theorem consume {t : Token} {rest : List Token} {failure : Option Error} {next : Machine}
    {text : String} (hs : Stream.Closed ⟨t :: rest, failure⟩) (ht : t.symbol = .mark text)
    (hm : m.read t = .ok next) :
    Follows short (Descent.consume text) m ⟨t :: rest, failure⟩
      (fun u next' s' => u = t ∧ next' = next ∧ s' = ⟨rest, failure⟩) where
  ok _ _ hr := by
    rw [run_consume_cons ht] at hr
    cases hr
    refine ⟨next, ?_, hs.tail (isFinish_of_mark ht), by simp, rfl, rfl, rfl⟩
    rw [Machine.verdict_cons (isFinish_of_mark ht), hm]
  error e hr := by
    rw [run_consume_cons ht] at hr
    cases hr

end Follows
end Descent
end Scriptling
