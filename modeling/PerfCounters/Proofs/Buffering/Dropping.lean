import PerfCounters.Proofs.Buffering.Fill
import PerfCounters.Proofs.Buffering.Meanwhile

/-! Buffers that may drop records. A record is dropped for want of room only, never because of a drain in flight: a drain
    works on the side that takes no records. A batch says how many records were dropped before the consumer was called
    with it. -/

namespace PerfCounters

open Service

variable {α : Type}

namespace Buffer

variable {b b' : Buffer α} {ds : List (Delivery α)}

/-- What becomes of a record of this type where it may be dropped. -/
def verdict (b : Buffer α) (t : RecordType) : Outcome :=
  if b.settings.size < roundUp b.pending t.align + max t.size 8 then .dropped else .stored

theorem Keeps.verdict (h : b.Keeps b') (t : RecordType) : b'.verdict t = b.verdict t := by
  unfold Buffer.verdict Buffer.pending
  rw [h.settings, h.current]

theorem Measured.push_verdict {r : Record α} (h : b.Measured) (hs : b.Sound) (halign : r.type.PowerAligned)
    (hbound : r.type.align ≤ 64) : b.verdict r.type = if (b.push r).2 then .stored else .dropped := by
  have hstores := h.push_stores_iff hs halign
  rw [and_iff_right hbound, ← Nat.not_lt] at hstores
  unfold Buffer.verdict
  by_cases hroom : b.settings.size < roundUp b.pending r.type.align + max r.type.size 8
  · rw [if_pos hroom, if_neg fun hpush => hstores.mp hpush hroom]
  · rw [if_neg hroom, if_pos (hstores.mpr hroom)]

/-- The batch that the consumer is at. -/
def shown (b : Buffer α) : List (Batch α) := b.delivering?.toList.filter fun batch => !batch.records.isEmpty

theorem shown_idle (hd : b.drain = none) : b.shown = [] := by simp [shown, delivering?, hd]

theorem shown_of_batch {side : Side} {batch : Batch α} (hd : b.drain = some { side, batch := some batch }) :
    b.shown = if batch.records.isEmpty then [] else [batch] := by
  cases hempty : batch.records.isEmpty <;> simp [shown, delivering?, hd, hempty]

/-- A drain that begins to deliver shows a batch with the number of records dropped by then. -/
theorem shown_enterDrain (hs : b.Sound) :
    b.enterDrain.shown = b.shown ∨ ∃ batch, b.enterDrain.shown = b.shown ++ [batch] ∧ batch.drops = b.drops := by
  rcases enterDrain_cases hs with ⟨heq, -⟩ | ⟨hd, heq⟩
  · exact Or.inl (by rw [heq])
  · have hbefore : b.shown = [] := by simp [shown, delivering?, hd]
    have hafter : b.enterDrain.shown = if (b.batch b.side.other).records.isEmpty then [] else [b.batch b.side.other] :=
      shown_of_batch (by rw [heq]; rfl)
    rw [hbefore, hafter]
    split
    · exact Or.inl rfl
    · exact Or.inr ⟨_, rfl, rfl⟩

/-- The consumer is called with at most one batch at a time, and is at it until it has answered. -/
theorem Turns.shown (h : b.Turns b' ds) (hs : b.Sound) : ds.map Delivery.batch ++ b'.shown = b.shown ∨
    ∃ batch, ds.map Delivery.batch ++ b'.shown = b.shown ++ [batch] ∧ batch.drops = b.drops := by
  cases h with
  | rest => exact Or.inl rfl
  | start hd => exact Or.inl (by rw [shown_idle hd]; rfl)
  | enter => exact shown_enterDrain hs
  | @finish batch accepted hd =>
    have hnone := (endDrain_kept (enterDrain_kept hs).1 hd accepted).2.2.1
    have hall : (if batch.records.isEmpty then [] else [(⟨batch, accepted⟩ : Delivery α)]).map Delivery.batch ++
        (b.enterDrain.endDrain accepted).shown = b.enterDrain.shown := by
      rw [shown_idle hnone, List.append_nil, shown_of_batch hd]
      split <;> rfl
    rw [hall]
    exact shown_enterDrain hs

end Buffer

namespace Session

variable {s start : Session α} {id : BufferId} {b : Buffer α} {r : Record α} {n k : Nat}

/-- The number of records for which storing in a buffer was answered with `dropped`. -/
def dropped (s : Session α) (id : BufferId) : Nat := (s.emplaced id).countP fun x => x.2 == .dropped

/-- The batches of a buffer that the consumer was called with, oldest first: those that it has answered, and the one
that it is at. -/
def entered (s : Session α) (id : BufferId) : List (Batch α) :=
  (s.service.handed id).map Delivery.batch ++ (s.service.buffer? id).elim [] Buffer.shown

/-! ### The outcome of a call -/

/-- A call that stores in a buffer which may drop the record, by the number of steps it still takes. -/
inductive Discarding (id : BufferId) (b : Buffer α) (r : Record α) (n : Nat) : Nat → Session α → Prop where
  | asked {s : Session α} {b' : Buffer α}
      (hp : s.pending = some { call := .emplace id r, stage := .reach (.store id r) }) (hn : s.history.length = n)
      (hb : s.service.buffer? id = some b') (hkeeps : b.Keeps b') : Discarding id b r n 3 s
  | returning {s : Session α} {k : Nat} (h : Returning (.emplace id r, .ok (.emplaced (b.verdict r.type))) n k s) :
      Discarding id b r n k s

theorem Discarding.meanwhile (h : Discarding id b r n k s) (hregular : s.Regular) {e : Event α} (he : e ≠ .advance) :
    Discarding id b r n k (s.step e) := by
  cases h with
  | asked hp hn hb hkeeps =>
    obtain ⟨b'', hb'', hstands⟩ := buffer_meanwhile hregular.sound hp he hb
    exact .asked (pending_undisturbed hp he fun _ _ _ h => by cases h) (by rwa [(pending_meanwhile hp he).1]) hb''
      (hkeeps.trans hstands.keeps)
  | returning h => exact .returning (h.meanwhile he)

theorem Discarding.advance (h : Discarding id b r n k s) (hregular : s.Regular) (hmeasured : s.Measured)
    (hpolicy : b.settings.policy = .discard) (halign : r.type.PowerAligned) (hbound : r.type.align ≤ 64) :
    ∃ k' ≤ k - 1, Discarding id b r n k' (s.step .advance) := by
  cases h with
  | @asked _ b' hp hn hb hkeeps =>
    have hverdict := (hmeasured id b' hb).push_verdict (hregular.sound.sound hb) halign hbound
    rw [hkeeps.verdict] at hverdict
    have hstep : s.step .advance = { s with
        service := (Pending.store { call := .emplace id r, stage := .reach (.store id r) } s.service id r).1
        pending := some (Pending.store { call := .emplace id r, stage := .reach (.store id r) } s.service id r).2 } := by
      simp only [Session.step, Session.advance, hp, Pending.next]
    rcases Pending.store_cases { call := .emplace id r, stage := .reach (.store id r) } s.service id r with
      ⟨e, he, -⟩ | ⟨c, hc, ⟨hpush, heq⟩ | ⟨hpush, -, heq⟩ | ⟨-, hlossless, -⟩⟩
    · rw [configured_eq_ok.mpr hb] at he
      cases he
    · obtain rfl := Option.some.inj (hb.symm.trans hc)
      rw [hpush, if_pos rfl] at hverdict
      rw [hstep, heq]
      exact ⟨2, Nat.le_refl _, .returning (.looking rfl rfl (by rw [hverdict]) hn)⟩
    · obtain rfl := Option.some.inj (hb.symm.trans hc)
      rw [hpush, if_neg Bool.false_ne_true] at hverdict
      rw [hstep, heq]
      exact ⟨1, by decide, .returning (.answering rfl rfl (by rw [hverdict]; rfl) hn)⟩
    · obtain rfl := Option.some.inj (hb.symm.trans hc)
      rw [hkeeps.settings, hpolicy] at hlossless
      cases hlossless
  | returning h => exact ⟨_, Nat.le_refl _, .returning h.advance⟩

/-- The call returns once it has taken its steps, whatever else happens. -/
theorem Discarding.run (h : Discarding id b r n k s) (hregular : s.Regular) (hmeasured : s.Measured)
    (hpolicy : b.settings.policy = .discard) (halign : r.type.PowerAligned) (hbound : r.type.align ≤ 64)
    (events : List (Event α)) (hsteps : k ≤ events.countP Event.isAdvance) :
    (s.run events).history[n]? = some (.emplace id r, .ok (.emplaced (b.verdict r.type))) := by
  induction events generalizing k s with
  | nil =>
    obtain rfl : k = 0 := by simpa using hsteps
    cases h with
    | returning h =>
      cases h with
      | returned h => exact h
  | cons e events ih =>
    have hmeasured' := hmeasured.step hregular e
    rw [List.countP_cons] at hsteps
    by_cases he : e = .advance
    · subst he
      obtain ⟨k', hk', h'⟩ := h.advance hregular hmeasured hpolicy halign hbound
      refine ih h' (hregular.step _) hmeasured' ?_
      simp only [Event.isAdvance, if_true] at hsteps
      omega
    · have hno : e.isAdvance = false := by
        cases e with
        | advance => exact absurd rfl he
        | begin | enter | finish => rfl
      rw [hno] at hsteps
      exact ih (h.meanwhile hregular he) (hregular.step e) hmeasured' (by simpa using hsteps)

/-! ### What the consumer is called with -/

/-- The event with which the consumer is called with the `k`-th batch of a buffer, and the records dropped before it. -/
def Enters (start : Session α) (events : List (Event α)) (id : BufferId) (k : Nat) (batch : Batch α) : Prop :=
  ∃ before e after, events = before ++ e :: after ∧ ((start.run before).entered id).length = k ∧
    (start.run (before ++ [e])).entered id = (start.run before).entered id ++ [batch] ∧
    batch.drops = (start.run before).dropped id

theorem Enters.snoc {events : List (Event α)} {batch : Batch α} (h : Enters start events id k batch) (e : Event α) :
    Enters start (events ++ [e]) id k batch := by
  obtain ⟨before, first, after, rfl, hrest⟩ := h
  exact ⟨before, first, after ++ [e], by simp, hrest⟩

theorem dropCount_eq {service : Service α} (hb : service.buffer? id = some b) : service.dropCount id = .ok b.drops := by
  simp only [dropCount, configured_eq_ok.mpr hb, Except.map]

end Session

end PerfCounters
