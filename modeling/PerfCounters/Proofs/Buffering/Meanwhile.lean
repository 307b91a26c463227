import PerfCounters.Proofs.Buffering.Closing

/-! Between two steps of a call drains go on, but none starts: a buffer keeps the side that takes its records, and one
    without a drain in flight is left as it is. A call that waits for nothing is not disturbed by that, so it returns
    after as many steps as it has left. -/

namespace PerfCounters

open Service

variable {α : Type}

/-- What drains that go on leave of a buffer. -/
structure Buffer.Stands (b b' : Buffer α) : Prop where
  keeps : b.Keeps b'
  idle : b.drain = none → b' = b

theorem Buffer.Stands.refl (b : Buffer α) : b.Stands b := ⟨⟨rfl, rfl, rfl⟩, fun _ => rfl⟩

namespace Service

variable {s : Service α} {b : Buffer α} {id : BufferId}

theorem stands_enter (hs : s.Sound) (hb : s.buffer? id = some b) (target : BufferId) :
    ∃ b', (s.enter target).buffer? id = some b' ∧ b.Stands b' := by
  by_cases hid : id = target
  · subst hid
    exact ⟨_, buffer?_enter hs hb, (Buffer.enterDrain_kept (hs.sound hb)).2.1, Buffer.enterDrain_idle⟩
  · exact ⟨b, (buffer?_enter_of_ne hs hid).trans hb, .refl b⟩

theorem stands_finish (hs : s.Sound) (hb : s.buffer? id = some b) (target : BufferId) :
    ∃ b', (s.finish target).1.buffer? id = some b' ∧ b.Stands b' := by
  by_cases hid : id = target
  · subst hid
    rcases finish_cases hs id with ⟨heq, -⟩ | ⟨c, batch, h⟩
    · rw [heq]
      exact stands_enter hs hb id
    · obtain rfl := Option.some.inj (hb.symm.trans h.buffer)
      have hself := h.replaces.self
      rw [h.named hs] at hself
      obtain ⟨hsound, hkeeps, -, -⟩ := Buffer.enterDrain_kept (hs.sound hb)
      refine ⟨_, hself, hkeeps.trans (Buffer.endDrain_kept hsound h.entered _).2.1, fun hidle => ?_⟩
      have hentered := h.entered
      rw [Buffer.enterDrain_idle hidle, hidle] at hentered
      cases hentered
  · exact ⟨b, (buffer?_finish_of_ne hs hid).trans hb, .refl b⟩

end Service

/-- The call under way takes its next step. -/
def Event.isAdvance : Event α → Bool
  | .advance => true
  | .begin _ | .enter _ | .finish _ => false

namespace Session

variable {s : Session α} {p : Pending α} {e : Event α} {id : BufferId} {b : Buffer α}
  {entry : Call α × Except BufferError Answer} {n k : Nat}

/-- Until it takes its next step the call under way is what it was, unless the consumer fails on a batch. -/
theorem pending_meanwhile (hp : s.pending = some p) (he : e ≠ .advance) :
    (s.step e).history = s.history ∧ ((s.step e).pending = some p ∨ ∃ target, e = .finish target ∧
      (s.service.finish target).2 = false ∧ (s.step e).pending = some (p.refused target)) := by
  cases e with
  | begin call => simp only [Session.step, Session.begin, hp, true_and, true_or]
  | advance => exact absurd rfl he
  | enter target => exact ⟨rfl, Or.inl hp⟩
  | finish target =>
    simp only [Session.step, finish_under hp]
    refine ⟨trivial, ?_⟩
    cases hdelivered : (s.service.finish target).2 with
    | true => exact Or.inl rfl
    | false => exact Or.inr ⟨target, rfl, hdelivered, rfl⟩

theorem buffer_meanwhile (hs : s.service.Sound) (hp : s.pending = some p) (he : e ≠ .advance)
    (hb : s.service.buffer? id = some b) : ∃ b', (s.step e).service.buffer? id = some b' ∧ b.Stands b' := by
  cases e with
  | begin call =>
    simp only [Session.step, Session.begin, hp]
    exact ⟨b, hb, .refl b⟩
  | advance => exact absurd rfl he
  | enter target => exact stands_enter hs hb target
  | finish target =>
    simp only [Session.step, finish_under hp]
    exact stands_finish hs hb target

/-- A call that awaits no drain is not concerned by the consumer. -/
theorem pending_undisturbed (hp : s.pending = some p) (he : e ≠ .advance)
    (hstage : ∀ target rest goal, p.stage ≠ .await target rest goal) : (s.step e).pending = some p := by
  rcases (pending_meanwhile hp he).2 with hsame | ⟨target, -, -, hrefused⟩
  · exact hsame
  · rcases p.refused_cases target with heq | ⟨rest, goal, hawait, -⟩
    · rw [hrefused, heq]
    · exact absurd hawait (hstage target rest goal)

theorem history_step (s : Session α) (e : Event α) : s.history <+: (s.step e).history := by
  cases e with
  | begin call =>
    simp only [Session.step, Session.begin]
    split <;> exact List.prefix_rfl
  | advance =>
    simp only [Session.step]
    cases hp : s.pending with
    | none => exact ⟨[], by rw [advance_idle hp, List.append_nil]⟩
    | some p =>
      rcases advance_cases hp with ⟨-, heq⟩ | heq
      · exact ⟨[(p.call, p.result)], by rw [heq]⟩
      · exact ⟨[], by rw [heq, List.append_nil]⟩
  | enter target => exact List.prefix_rfl
  | finish target => exact List.prefix_rfl

/-- A call that stores is taken up if the buffer can hold the record. -/
theorem step_begin_emplace {r : Record α} (hidle : s.pending = none) (hb : s.service.buffer? id = some b)
    (hcan : b.canHold r.type = true) : s.step (.begin (.emplace id r)) =
      { s with pending := some { call := .emplace id r, stage := .reach (.store id r) } } := by
  simp only [Session.step, Session.begin, hidle, receive, configured_eq_ok.mpr hb, hcan, if_true]

/-- What has returned stays. -/
theorem returned_step (h : s.history[n]? = some entry) (e : Event α) : (s.step e).history[n]? = some entry := by
  obtain ⟨more, hmore⟩ := history_step s e
  rw [← hmore, List.getElem?_append_left (List.getElem?_eq_some_iff.mp h).1, h]

/-- The call that returns as the `n`-th one has this outcome and returns after so many steps. -/
inductive Returning (entry : Call α × Except BufferError Answer) (n : Nat) : Nat → Session α → Prop where
  | returned {s : Session α} (h : s.history[n]? = some entry) : Returning entry n 0 s
  | answering {s : Session α} {p : Pending α} (hp : s.pending = some p) (hstage : p.stage = .reach .answer)
      (hentry : (p.call, p.result) = entry) (hn : s.history.length = n) : Returning entry n 1 s
  | looking {s : Session α} {p : Pending α} {id : BufferId} (hp : s.pending = some p) (hstage : p.stage = .watermark id)
      (hentry : (p.call, p.result) = entry) (hn : s.history.length = n) : Returning entry n 2 s

theorem Returning.meanwhile (h : Returning entry n k s) (he : e ≠ .advance) : Returning entry n k (s.step e) := by
  cases h with
  | returned h => exact .returned (returned_step h e)
  | answering hp hstage hentry hn =>
    refine .answering (pending_undisturbed hp he fun _ _ _ h => ?_) hstage hentry ?_
    · rw [hstage] at h
      cases h
    · rwa [(pending_meanwhile hp he).1]
  | looking hp hstage hentry hn =>
    refine .looking (pending_undisturbed hp he fun _ _ _ h => ?_) hstage hentry ?_
    · rw [hstage] at h
      cases h
    · rwa [(pending_meanwhile hp he).1]

theorem Returning.advance (h : Returning entry n k s) : Returning entry n (k - 1) (s.step .advance) := by
  cases h with
  | returned h => exact .returned (returned_step h .advance)
  | answering hp hstage hentry hn =>
    refine .returned ?_
    simp [Session.step, Session.advance, hp, hstage, hentry, ← hn]
  | @looking _ p id hp hstage hentry hn =>
    have hnext : (p.next s.service).2 = p.goto (.reach .answer) := by
      simp only [Pending.next, hstage]
      split <;> rfl
    have hstep : s.step .advance =
        { s with service := (p.next s.service).1, pending := some (p.goto (.reach .answer)) } := by
      simp only [Session.step, Session.advance, hp, hstage, hnext]
    rw [hstep]
    exact .answering rfl rfl hentry hn

end Session

end PerfCounters
