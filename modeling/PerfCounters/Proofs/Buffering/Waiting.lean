import PerfCounters.Proofs.Buffering.Dropping

/-! Buffers that must not drop records. A call that finds no room drains the buffer and tries again, as often as it
    takes. Each drain of its own brings the retired side up; while the consumer fails on nothing, the second one brings
    up a side that the first one has emptied, and a side that the consumer has never failed on is bare before. So the
    call waits for two drains at the most. -/

namespace PerfCounters

open Service

variable {α : Type}

namespace Buffer

variable {b b' : Buffer α} {k : Nat}

/-- So many drains make the current side bare, unless the consumer fails on a batch. -/
def Within : Nat → Buffer α → Prop
  | 0, b => b.current.Bare
  | 1, b => b.Cleared
  | _ + 2, _ => True

theorem Within.startDrain (h : b.Within (k + 1)) (hd : b.drain = none) : b.startDrain.Within k := by
  match k with
  | 0 =>
    show b.startDrain.current.Bare
    rw [current_startDrain]
    exact h hd
  | 1 => exact cleared_startDrain b
  | _ + 2 => trivial

/-- Drains that are not refused bring no more drains about. -/
theorem Within.rests (h : b.Within k) (hrests : b.Rests b') (hs : b'.Sound) (hmeasured : b'.Measured) : b'.Within k := by
  match k with
  | 0 =>
    show b'.current.Bare
    rw [hrests.current]
    exact h
  | 1 =>
    intro hidle
    rcases hrests.ended hidle with rfl | hnil
    · exact h hidle
    · exact hmeasured.retired.bare hs.retired hnil
  | _ + 2 => trivial

end Buffer

namespace Service

variable {s : Service α} {id : BufferId}

/-- A drain that ends with a refusal has handed a batch to the consumer. -/
theorem finish_refused (hs : s.Sound) (h : (s.finish id).2 = false) :
    ∃ batch, (s.finish id).1.handed id = s.handed id ++ [⟨batch, false⟩] := by
  rcases finish_cases hs id with ⟨heq, -⟩ | ⟨b, batch, hfinishes⟩
  · rw [heq] at h
    cases h
  · have hhanded := hfinishes.handed id
    rw [h, if_pos rfl] at hhanded
    cases hempty : batch.records.isEmpty with
    | false => exact ⟨batch, by rw [hhanded, hempty]; rfl⟩
    | true =>
      -- A batch without records never reaches the consumer.
      have hbusy : b.isBusy = true := by
        rw [← (Buffer.enterDrain_kept (hs.sound hfinishes.buffer)).2.2.2, Buffer.isBusy, hfinishes.entered]
        rfl
      obtain ⟨same, hd, heq⟩ := finish_busy hs hfinishes.buffer hbusy
      rw [hfinishes.entered, Option.some.injEq, Drain.mk.injEq, Option.some.injEq] at hd
      rw [heq, ← hd.2] at h
      simp [leave, answer, hempty] at h

theorem idle_finish (hs : s.Sound) (id : BufferId) :
    ∀ b, (s.finish id).1.buffer? id = some b → b.isBusy = false := by
  intro b' hb'
  rcases finish_cases hs id with ⟨heq, hidle⟩ | ⟨b, batch, hfinishes⟩
  · cases hb : s.buffer? id with
    | none =>
      rw [heq] at hb'
      simp only [Service.enter, hb] at hb'
      cases hb'
    | some b =>
      rw [heq, buffer?_enter hs hb, Buffer.enterDrain_idle (hidle b hb)] at hb'
      obtain rfl := Option.some.inj hb'
      rw [Buffer.isBusy, hidle b hb]
      rfl
  · have hself := hfinishes.replaces.self
    rw [hfinishes.named hs, hb'] at hself
    obtain rfl := Option.some.inj hself
    rw [Buffer.isBusy, (Buffer.endDrain_kept (Buffer.enterDrain_kept (hs.sound hfinishes.buffer)).1
      hfinishes.entered _).2.2.1]
    rfl

end Service

namespace Session

variable {s : Session α} {e : Event α} {events : List (Event α)} {id : BufferId} {b : Buffer α} {r : Record α} {n k m : Nat}

/-! ### Batches that are accepted -/

theorem handed_step (hregular : s.Regular) (e : Event α) (id : BufferId) :
    s.service.handed id <+: (s.step e).service.handed id := by
  cases (hregular.happens e).changes hregular.sound id with
  | turned hturned =>
    cases hturned with
    | absent _ _ hlog => exact ⟨[], by rw [hlog, List.append_nil]⟩
    | buffer _ _ _ hlog => exact ⟨_, hlog.symm⟩
  | configured hnew => exact ⟨[], by rw [hnew.handed, List.append_nil]⟩
  | forgotten _ _ _ _ hlog | stored _ _ _ _ _ hlog | dropped _ _ _ _ _ hlog =>
    exact ⟨[], by rw [hlog, List.append_nil]⟩

theorem handed_run (hregular : s.Regular) (events : List (Event α)) (id : BufferId) :
    s.service.handed id <+: (s.run events).service.handed id :=
  hregular.run_keeps (P := fun t => s.service.handed id <+: t.service.handed id)
    (fun h hregular e => h.trans (handed_step hregular e id)) List.prefix_rfl events

/-- The consumer fails on no batch of a buffer that it answers meanwhile. -/
def Accepts (s : Session α) (events : List (Event α)) (id : BufferId) : Prop :=
  ∀ d ∈ ((s.run events).service.handed id).drop (s.service.handed id).length, d.accepted = true

theorem Accepts.tail (h : s.Accepts (e :: events) id) (hregular : s.Regular) : (s.step e).Accepts events id := fun d hd =>
  h d ((List.drop_sublist_drop_left _ (handed_step hregular e id).length_le).subset hd)

theorem Accepts.delivers (h : s.Accepts (.finish id :: events) id) (hregular : s.Regular) :
    (s.service.finish id).2 = true := by
  cases hdelivered : (s.service.finish id).2 with
  | true => rfl
  | false =>
    obtain ⟨batch, hhanded⟩ := finish_refused hregular.sound hdelivered
    obtain ⟨more, hmore⟩ := handed_run (hregular.step (.finish id)) events id
    have hservice : (s.step (.finish id)).service = (s.service.finish id).1 := rfl
    refine absurd (h ⟨batch, false⟩ ?_) Bool.false_ne_true
    rw [run_cons, ← hmore, hservice, hhanded, List.append_assoc, List.drop_left]
    exact List.mem_cons_self

/-! ### What a call waits for -/

/-- A drain in flight keeps the call under way from its next step. -/
def heldUp (s : Session α) : Bool :=
  s.pending.any fun p => match p.stage with
    | .retire id _ _ | .await id _ _ => (s.service.buffer? id).any Buffer.isBusy
    | .reach _ | .watermark _ | .kick _ => false

/-- The steps of the caller that no drain holds up. -/
def turns : Session α → List (Event α) → Nat
  | _, [] => 0
  | s, e :: events => (e.isAdvance && !s.heldUp).toNat + turns (s.step e) events

/-- The call under way waits for a drain that it has started. -/
def awaits (s : Session α) : Bool :=
  s.pending.any fun p => match p.stage with
    | .await _ _ _ => true
    | .reach _ | .watermark _ | .kick _ | .retire _ _ _ => false

/-- With this event a call that `n` others have returned before begins to wait for a drain that it has started. -/
def startsWait (n : Nat) (s : Session α) (e : Event α) : Bool := s.history.length == n && !s.awaits && (s.step e).awaits

/-- The drains of its own that a call waits for that `n` others have returned before. -/
def waits (n : Nat) : Session α → List (Event α) → Nat
  | _, [] => 0
  | s, e :: events => (startsWait n s e).toNat + waits n (s.step e) events

/-- A call that stores in a buffer which must not drop the record, by the number of drains of its own that it still
waits for and of the steps it still takes. -/
inductive Storing (id : BufferId) (r : Record α) (n : Nat) : Nat → Nat → Session α → Prop where
  | asked {s : Session α} {b : Buffer α} {k : Nat}
      (hp : s.pending = some { call := .emplace id r, stage := .reach (.store id r) }) (hn : s.history.length = n)
      (hb : s.service.buffer? id = some b) (hwithin : b.Within k) : Storing id r n k (3 * k + 3) s
  | retiring {s : Session α} {b : Buffer α} {k : Nat}
      (hp : s.pending = some { call := .emplace id r, stage := .retire id [] (.store id r) }) (hn : s.history.length = n)
      (hb : s.service.buffer? id = some b) (hwithin : b.Within (k + 1)) : Storing id r n (k + 1) (3 * k + 5) s
  | awaiting {s : Session α} {b : Buffer α} {k : Nat}
      (hp : s.pending = some { call := .emplace id r, stage := .await id [] (.store id r) }) (hn : s.history.length = n)
      (hb : s.service.buffer? id = some b) (hwithin : b.Within k) : Storing id r n k (3 * k + 4) s
  | returning {s : Session α} {m : Nat} (h : Returning (.emplace id r, .ok (.emplaced .stored)) n m s) :
      Storing id r n 0 m s

/-- A call that only has to return does not wait any more. -/
theorem Returning.startsWait {entry : Call α × Except BufferError Answer} (h : Returning entry n m s) (e : Event α) :
    Session.startsWait n s e = false := by
  by_cases he : e = .advance
  · subst he
    cases h with
    | returned h =>
      have hlt := (List.getElem?_eq_some_iff.mp h).1
      simp [Session.startsWait, Nat.ne_of_gt hlt]
    | answering hp hstage => simp [Session.startsWait, awaits, Session.step, Session.advance, hp, hstage]
    | @looking _ p id hp hstage =>
      have hnext : (p.next s.service).2.stage = .reach .answer := by
        simp only [Pending.next, hstage]
        split <;> rfl
      simp [Session.startsWait, awaits, Session.step, Session.advance, hp, hstage, hnext]
  · cases h with
    | returned h =>
      have hlt := (List.getElem?_eq_some_iff.mp h).1
      simp [Session.startsWait, Nat.ne_of_gt hlt]
    | answering hp hstage | looking hp hstage =>
      have hp' := pending_undisturbed hp he fun _ _ _ h => by rw [hstage] at h; cases h
      simp [Session.startsWait, awaits, hp', hstage]

theorem rests_meanwhile (hs : s.service.Sound) {p : Pending α} (hp : s.pending = some p) (he : e ≠ .advance)
    (hdelivers : e = .finish id → (s.service.finish id).2 = true) (hb : s.service.buffer? id = some b) :
    ∃ b', (s.step e).service.buffer? id = some b' ∧ b.Rests b' := by
  obtain ⟨b', hb', -⟩ := buffer_meanwhile hs hp he hb
  refine ⟨b', hb', ?_⟩
  cases e with
  | begin call =>
    simp only [Session.step, Session.begin, hp] at hb'
    obtain rfl := Option.some.inj (hb.symm.trans hb')
    exact .refl b
  | advance => exact absurd rfl he
  | enter target => exact Pending.rests_enter hs target id b b' hb hb'
  | finish target =>
    simp only [Session.step, finish_under hp] at hb'
    exact Pending.rests_finish hs (fun hid => by subst hid; exact hdelivers rfl) b b' hb hb'

/-- Between its steps the call stays where it is. -/
theorem Storing.meanwhile (h : Storing id r n k m s) (hregular : s.Regular) (hmeasured : s.Measured) (he : e ≠ .advance)
    (hdelivers : e = .finish id → (s.service.finish id).2 = true) :
    Storing id r n k m (s.step e) ∧ startsWait n s e = false := by
  have hregular' := hregular.step e
  have hmeasured' := hmeasured.step hregular e
  cases h with
  | asked hp hn hb hwithin =>
    obtain ⟨b', hb', hrests⟩ := rests_meanwhile hregular.sound hp he hdelivers hb
    have hp' := pending_undisturbed hp he fun _ _ _ h => by cases h
    exact ⟨.asked hp' (by rwa [(pending_meanwhile hp he).1]) hb'
      (hwithin.rests hrests (hregular'.sound.sound hb') (hmeasured' _ _ hb')), by simp [startsWait, awaits, hp']⟩
  | retiring hp hn hb hwithin =>
    obtain ⟨b', hb', hrests⟩ := rests_meanwhile hregular.sound hp he hdelivers hb
    have hp' := pending_undisturbed hp he fun _ _ _ h => by cases h
    exact ⟨.retiring hp' (by rwa [(pending_meanwhile hp he).1]) hb'
      (hwithin.rests hrests (hregular'.sound.sound hb') (hmeasured' _ _ hb')), by simp [startsWait, awaits, hp']⟩
  | awaiting hp hn hb hwithin =>
    obtain ⟨b', hb', hrests⟩ := rests_meanwhile hregular.sound hp he hdelivers hb
    obtain ⟨hhistory, hpending⟩ := pending_meanwhile hp he
    have hp' : (s.step e).pending = some { call := .emplace id r, stage := .await id [] (.store id r) } := by
      rcases hpending with hsame | ⟨target, rfl, hfalse, hrefused⟩
      · exact hsame
      · have hne : id ≠ target := fun hid => by
          subst hid
          rw [hdelivers rfl] at hfalse
          cases hfalse
        simpa [Pending.refused, hne] using hrefused
    exact ⟨.awaiting hp' (by rwa [hhistory]) hb' (hwithin.rests hrests (hregular'.sound.sound hb') (hmeasured' _ _ hb')),
      by simp [startsWait, awaits, hp]⟩
  | returning h => exact ⟨.returning (h.meanwhile he), h.startsWait e⟩

/-- A bare side stores what fits the size of its buffer. -/
theorem push_of_within {settings : Settings} (hregular : s.Regular) (hmeasured : s.Measured) (hbound : s.Bound id settings)
    (hb : s.service.buffer? id = some b) (hwithin : b.Within 0) (halign : r.type.PowerAligned)
    (hlimit : r.type.align ≤ 64) (hsize : max r.type.size 8 ≤ settings.size) : (b.push r).2 = true := by
  have hpending : b.pending = 0 := RecordBuffer.Bare.count hwithin
  rw [(hmeasured id b hb).push_stores_iff (hregular.sound.sound hb) halign, hpending,
    roundUp_zero (alignments_pos (halign.mem_alignments.mpr hlimit)), Nat.zero_add, (hbound.made hb).settings_eq]
  exact ⟨hlimit, hsize⟩

/-- A step of the caller brings the call on unless a drain holds it up, and a drain that it begins to wait for counts. -/
def Advances (s : Session α) (id : BufferId) (r : Record α) (n k m : Nat) : Prop :=
  ∃ k' m', Storing id r n k' m' (s.step .advance) ∧ k' + (startsWait n s .advance).toNat ≤ k ∧
    m' ≤ m - (!s.heldUp).toNat

/-- While a drain is in flight, a call that has to retire a side or waits for one stays where it is. -/
theorem advance_held {goal : Goal α}
    (hp : s.pending = some { call := .emplace id r, stage := .retire id [] goal } ∨
      s.pending = some { call := .emplace id r, stage := .await id [] goal })
    (hb : s.service.buffer? id = some b) (hbusy : b.isBusy = true) : s.step .advance = s ∧ s.heldUp = true := by
  rcases hp with hp | hp
  all_goals
    refine ⟨?_, by simp [heldUp, hp, hb, hbusy]⟩
    simp only [Session.step, Session.advance, hp, Pending.next, hb, hbusy, if_true]
    rw [← hp]

theorem advances_asked {settings : Settings}
    (hp : s.pending = some { call := .emplace id r, stage := .reach (.store id r) }) (hn : s.history.length = n)
    (hb : s.service.buffer? id = some b) (hwithin : b.Within k) (hbound : s.Bound id settings)
    (hpolicy : settings.policy = .lossless) (hstores : b.Within 0 → (b.push r).2 = true) :
    s.Advances id r n k (3 * k + 3) := by
  have hone := Bool.toNat_le (!s.heldUp)
  have hstep : s.step .advance = { s with
      service := (Pending.store { call := .emplace id r, stage := .reach (.store id r) } s.service id r).1
      pending := some (Pending.store { call := .emplace id r, stage := .reach (.store id r) } s.service id r).2 } := by
    simp only [Session.step, Session.advance, hp, Pending.next]
  rcases Pending.store_cases { call := .emplace id r, stage := .reach (.store id r) } s.service id r with
    ⟨e, he, -⟩ | ⟨c, hc, ⟨-, heq⟩ | ⟨-, hdiscard, -⟩ | ⟨hpush, -, heq⟩⟩
  · rw [configured_eq_ok.mpr hb] at he
    cases he
  · rw [heq] at hstep
    refine ⟨0, 2, ?_, ?_, by omega⟩
    · rw [hstep]
      exact .returning (.looking rfl rfl rfl hn)
    · simp [startsWait, hstep, awaits]
  · obtain rfl := Option.some.inj (hb.symm.trans hc)
    rw [(hbound.made hb).settings_eq, hpolicy] at hdiscard
    cases hdiscard
  · obtain rfl := Option.some.inj (hb.symm.trans hc)
    rw [heq] at hstep
    cases k with
    | zero =>
      rw [hstores hwithin] at hpush
      cases hpush
    | succ k =>
      refine ⟨k + 1, 3 * k + 5, ?_, ?_, by omega⟩
      · rw [hstep]
        exact .retiring rfl hn hb hwithin
      · simp [startsWait, hstep, awaits, Pending.goto]

theorem advances_retiring (hp : s.pending = some { call := .emplace id r, stage := .retire id [] (.store id r) })
    (hn : s.history.length = n) (hb : s.service.buffer? id = some b) (hwithin : b.Within (k + 1))
    (hs : s.service.Sound) : s.Advances id r n (k + 1) (3 * k + 5) := by
  have hone := Bool.toNat_le (!s.heldUp)
  have hname : b.id = id := hs.named hb
  cases hbusy : b.isBusy with
  | true =>
    obtain ⟨hstep, hheld⟩ := advance_held (.inl hp) hb hbusy
    refine ⟨k + 1, 3 * k + 5, ?_, by simp [startsWait, hstep, awaits, hp], by simp [hheld]⟩
    rw [hstep]
    exact .retiring hp hn hb hwithin
  | false =>
    have hidle : b.drain = none := by simpa [Buffer.isBusy] using hbusy
    have hstep : s.step .advance = { s with
        service := s.service.start b
        pending := some { call := .emplace id r, stage := .await id [] (.store id r) } } := by
      simp only [Session.step, Session.advance, hp, Pending.next, hb, hbusy, Bool.false_eq_true, if_false]
      rfl
    have hstarted := (replaces_start (s := s.service) (b := b) (by rwa [hname])).self
    refine ⟨k, 3 * k + 4, ?_, Nat.add_le_add_left (Bool.toNat_le _) k, by omega⟩
    rw [hstep]
    exact .awaiting rfl hn (by rwa [← hname]) (hwithin.startDrain hidle)

theorem advances_awaiting (hp : s.pending = some { call := .emplace id r, stage := .await id [] (.store id r) })
    (hn : s.history.length = n) (hb : s.service.buffer? id = some b) (hwithin : b.Within k) :
    s.Advances id r n k (3 * k + 4) := by
  have hone := Bool.toNat_le (!s.heldUp)
  cases hbusy : b.isBusy with
  | true =>
    obtain ⟨hstep, hheld⟩ := advance_held (.inr hp) hb hbusy
    refine ⟨k, 3 * k + 4, ?_, by simp [startsWait, hstep, awaits, hp], by simp [hheld]⟩
    rw [hstep]
    exact .awaiting hp hn hb hwithin
  | false =>
    have hstep : s.step .advance = { s with
        pending := some { call := .emplace id r, stage := .reach (.store id r) } } := by
      simp only [Session.step, Session.advance, hp, Pending.next, hb, hbusy, Bool.false_eq_true, if_false]
      rfl
    refine ⟨k, 3 * k + 3, ?_, by simp [startsWait, awaits, hp], by omega⟩
    rw [hstep]
    exact .asked rfl hn hb hwithin

theorem Storing.advance {settings : Settings} (h : Storing id r n k m s) (hregular : s.Regular) (hmeasured : s.Measured)
    (hbound : s.Bound id settings) (hpolicy : settings.policy = .lossless) (halign : r.type.PowerAligned)
    (hlimit : r.type.align ≤ 64) (hsize : max r.type.size 8 ≤ settings.size) : s.Advances id r n k m := by
  cases h with
  | asked hp hn hb hwithin =>
    exact advances_asked hp hn hb hwithin hbound hpolicy fun hbare =>
      push_of_within hregular hmeasured hbound hb hbare halign hlimit hsize
  | retiring hp hn hb hwithin => exact advances_retiring hp hn hb hwithin hregular.sound
  | awaiting hp hn hb hwithin => exact advances_awaiting hp hn hb hwithin
  | returning h =>
    refine ⟨0, _, .returning h.advance, ?_, Nat.sub_le_sub_left (Bool.toNat_le _) m⟩
    rw [h.startsWait]
    exact Nat.le_refl _

/-- How far the call has come, and how often it has waited. -/
theorem Storing.run {settings : Settings} (h : Storing id r n k m s) (hregular : s.Regular) (hmeasured : s.Measured)
    (hbound : s.Bound id settings) (hpolicy : settings.policy = .lossless) (halign : r.type.PowerAligned)
    (hlimit : r.type.align ≤ 64) (hsize : max r.type.size 8 ≤ settings.size) (haccepts : s.Accepts events id) :
    ∃ k' m', Storing id r n k' m' (s.run events) ∧ k' + waits n s events ≤ k ∧ m' ≤ m - turns s events := by
  induction events generalizing s k m with
  | nil => exact ⟨k, m, h, Nat.le_refl _, Nat.le_refl _⟩
  | cons e events ih =>
    have hone : ∃ k' m', Storing id r n k' m' (s.step e) ∧ k' + (startsWait n s e).toNat ≤ k ∧
        m' ≤ m - (e.isAdvance && !s.heldUp).toNat := by
      by_cases he : e = .advance
      · subst he
        exact h.advance hregular hmeasured hbound hpolicy halign hlimit hsize
      · obtain ⟨hsame, hno⟩ := h.meanwhile hregular hmeasured he fun heq => by subst heq; exact haccepts.delivers hregular
        have hstill : e.isAdvance = false := by
          cases e with
          | advance => exact absurd rfl he
          | begin | enter | finish => rfl
        exact ⟨k, m, hsame, by rw [hno]; exact Nat.le_refl _, by rw [hstill]; exact Nat.le_refl _⟩
    obtain ⟨k₁, m₁, h₁, hk₁, hm₁⟩ := hone
    obtain ⟨k₂, m₂, h₂, hk₂, hm₂⟩ := ih h₁ (hregular.step e) (hmeasured.step hregular e) (hbound.step hregular e)
      (haccepts.tail hregular)
    refine ⟨k₂, m₂, h₂, ?_, ?_⟩
    · simp only [waits]
      omega
    · simp only [turns]
      omega

/-- The call returns nothing else. -/
theorem Storing.returns (h : Storing id r n k m s) {entry : Call α × Except BufferError Answer}
    (hentry : s.history[n]? = some entry) : entry = (.emplace id r, .ok (.emplaced .stored)) := by
  have hlt := (List.getElem?_eq_some_iff.mp hentry).1
  cases h with
  | asked _ hn | retiring _ hn | awaiting _ hn => exact absurd hn (Nat.ne_of_gt hlt)
  | returning h =>
    cases h with
    | returned h => exact Option.some.inj (hentry.symm.trans h)
    | answering _ _ _ hn | looking _ _ _ hn => exact absurd hn (Nat.ne_of_gt hlt)

theorem Storing.returned (h : Storing id r n k m s) (hm : m = 0) :
    s.history[n]? = some (.emplace id r, .ok (.emplaced .stored)) := by
  cases h with
  | asked | retiring | awaiting => cases hm
  | returning h =>
    cases h with
    | returned h => exact h
    | answering | looking => cases hm

/-- Only a drain of its buffer holds the call up, so none does once that has ended. -/
theorem Storing.released (h : Storing id r n k m s) (hregular : s.Regular) (hn : s.history.length = n) :
    (s.step (.finish id)).heldUp = false := by
  have hidle := idle_finish hregular.sound id
  have hnotBusy : ((s.service.finish id).1.buffer? id).any Buffer.isBusy = false := by
    cases hb : (s.service.finish id).1.buffer? id with
    | none => rfl
    | some b => exact hidle b hb
  cases h with
  | asked hp | retiring hp =>
    simp [heldUp, Session.step, finish_under hp, Pending.refused, hnotBusy]
  | awaiting hp =>
    simp only [heldUp, Session.step, finish_under hp]
    cases (s.service.finish id).2 <;> simp [Pending.refused, Pending.abort, Stage.drainEach, hnotBusy]
  | returning h =>
    cases h with
    | returned h => exact absurd hn (Nat.ne_of_gt (List.getElem?_eq_some_iff.mp h).1)
    | answering hp hstage | looking hp hstage =>
      simp [heldUp, Session.step, finish_under hp, Pending.refused, hstage]

/-! ### Runs -/

/-- What must not be dropped is not. -/
theorem dropped_step {settings : Settings} (hregular : s.Regular) (hbound : s.Bound id settings)
    (hpolicy : settings.policy = .lossless) (e : Event α) : (s.step e).dropped id = s.dropped id := by
  unfold dropped
  cases (hregular.happens e).changes hregular.sound id with
  | turned _ hsame | configured _ hsame | forgotten _ _ _ hsame => rw [hsame]
  | stored _ _ _ _ hmore =>
    rw [hmore, List.countP_append]
    rfl
  | dropped hb _ hdiscard =>
    rw [(hbound.made hb).settings_eq, hpolicy] at hdiscard
    cases hdiscard

theorem dropped_run {settings : Settings} (hregular : s.Regular) (hbound : s.Bound id settings)
    (hpolicy : settings.policy = .lossless) (events : List (Event α)) : (s.run events).dropped id = s.dropped id := by
  refine (hregular.run_keeps (P := fun t => t.Bound id settings ∧ t.dropped id = s.dropped id) ?_ ⟨hbound, rfl⟩ events).2
  exact fun h hregular e => ⟨h.1.step hregular e, (dropped_step hregular h.1 hpolicy e).trans h.2⟩

theorem storing_begin (hidle : s.pending = none) (hb : s.service.buffer? id = some b) (hcan : b.canHold r.type = true)
    (hwithin : b.Within k) : Storing id r s.history.length k (3 * k + 3) (s.step (.begin (.emplace id r))) := by
  rw [step_begin_emplace hidle hb hcan]
  exact .asked rfl rfl hb hwithin

/-- From its first step on, the call keeps within the drains and the steps that it may take. -/
theorem storing_call {settings : Settings} {more : List (Event α)} (hregular : s.Regular) (hmeasured : s.Measured)
    (hbound : s.Bound id settings) (hpolicy : settings.policy = .lossless) (hidle : s.pending = none)
    (hb : s.service.buffer? id = some b) (hcan : b.canHold r.type = true) (halign : r.type.PowerAligned)
    (hlimit : r.type.align ≤ 64) (hsize : max r.type.size 8 ≤ settings.size) (hwithin : b.Within k)
    (haccepts : s.Accepts (.begin (.emplace id r) :: more) id) :
    ∃ k' m', Storing id r s.history.length k' m' (s.run (.begin (.emplace id r) :: more)) ∧
      k' + waits s.history.length s (.begin (.emplace id r) :: more) ≤ k ∧
      m' ≤ 3 * k + 3 - turns s (.begin (.emplace id r) :: more) := by
  obtain ⟨k', m', h, hk, hm⟩ := (storing_begin hidle hb hcan hwithin).run (hregular.step _) (hmeasured.step hregular _)
    (hbound.step hregular _) hpolicy halign hlimit hsize (haccepts.tail hregular)
  have hbegin : startsWait s.history.length s (.begin (.emplace id r)) = false := by
    rw [startsWait, step_begin_emplace hidle hb hcan]
    simp [awaits]
  refine ⟨k', m', h, ?_, ?_⟩
  · simp only [waits, hbegin, Bool.toNat_false]
    omega
  · simp only [turns, Event.isAdvance, Bool.false_and, Bool.toNat_false]
    omega

/-- The call as the service makes it is one of the runs. -/
theorem emplace_run (hidle : s.pending = none) (hs : s.service.Sound) (hb : s.service.buffer? id = some b)
    (hcan : b.canHold r.type = true) (halign : r.type.align ∈ alignments) :
    ∃ more, (s.run (.begin (.emplace id r) :: more)).service = (s.service.emplace id r).1 ∧
      (s.run (.begin (.emplace id r) :: more)).history[s.history.length]? =
        some (.emplace id r, (s.service.emplace id r).2.map .emplaced) := by
  have hemplace : s.service.emplace id r = s.service.emplaceWithin maxAttempts id r := by
    simp only [Service.emplace, configured_eq_ok.mpr hb, hcan, if_true]
  obtain ⟨more, hmore⟩ := (reaches_emplaceWithin (s := s) (p := { call := .emplace id r, stage := .reach (.store id r) })
    halign rfl maxAttempts hs hb ((Buffer.canHold_current (hs.sound hb) r.type).symm.trans hcan) trivial rfl).trans
      (reaches_answer s _ rfl)
  refine ⟨more, ?_⟩
  have hunder : s.step (.begin (.emplace id r)) =
      s.under s.service { call := .emplace id r, stage := .reach (.store id r) } := step_begin_emplace hidle hb hcan
  rw [run_cons, hunder, hmore, hemplace]
  exact ⟨rfl, by simp [after, Pending.answering]⟩

/-- Whatever the consumer has answered before: a buffer that must not drop records never does, and a call that stores a
record of a type that fits it returns when the consumer fails on nothing meanwhile, after at most two drains that it
waits for, or one if the consumer has never failed on a batch of the buffer. It takes at most nine steps that no drain
holds up, and none does that has ended. -/
theorem run_stores_within_two_drains (replies : List Reply) (events : List (Event α)) (id : BufferId) (b : Buffer α)
    (hb : ((ofReplies replies : Session α).run events).service.buffer? id = some b)
    (hpolicy : b.settings.policy = .lossless) :
    let s := (ofReplies replies : Session α).run events
    s.service.dropCount id = .ok 0 ∧ (∀ more, (s.run more).dropped id = 0) ∧
      ∀ r : Record α, r.type.PowerAligned → r.type.align ≤ 64 → max r.type.size 8 ≤ b.settings.size → s.pending = none →
        (∀ more, s.Accepts (.begin (.emplace id r) :: more) id →
          let call := .begin (.emplace id r) :: more
          let n := s.history.length
          (∀ entry, (s.run call).history[n]? = some entry → entry = (.emplace id r, .ok (.emplaced .stored))) ∧
            (9 ≤ turns s call → (s.run call).history[n]? = some (.emplace id r, .ok (.emplaced .stored))) ∧
            ((s.run call).history.length = n → ((s.run call).step (.finish id)).heldUp = false) ∧
            waits n s call ≤ 2 ∧ ((∀ d ∈ s.service.handed id, d.accepted = true) → waits n s call ≤ 1)) ∧
          ((∀ d ∈ ((s.service.emplace id r).1.handed id).drop (s.service.handed id).length, d.accepted = true) →
            (s.service.emplace id r).2 = .ok .stored) := by
  intro s
  have hkept : s.Kept := (kept_ofReplies replies).run events
  have hregular := hkept.regular
  have hmeasured : s.Measured := (measured_ofReplies replies).run (regular_ofReplies replies) events
  have hcounted : s.Counted :=
    (counted_ofReplies replies).run (regular_ofReplies replies) (untouched_ofReplies replies) events
  have hs := hregular.sound.sound hb
  have hbound : s.Bound id b.settings :=
    Or.inl ⟨b, hb, rfl, by rw [(hmeasured id b hb).capacity, Nat.max_eq_left (hmeasured id b hb).positive]⟩
  have hnone : s.dropped id = 0 := (hcounted id b hb).1.symm.trans ((hcounted id b hb).2 hpolicy)
  refine ⟨?_, fun more => (dropped_run hregular hbound hpolicy more).trans hnone,
    fun r halign hlimit hsize hidle => ?_⟩
  · rw [dropCount_eq hb, (hcounted id b hb).2 hpolicy]
  have hcan : b.canHold r.type = true := ((hmeasured id b hb).canHold_iff hs).mpr ⟨hsize, hlimit⟩
  have hrun {k more} (hwithin : b.Within k) (haccepts : s.Accepts (.begin (.emplace id r) :: more) id) :=
    storing_call hregular hmeasured hbound hpolicy hidle hb hcan halign hlimit hsize hwithin haccepts
  have hcall : ∀ {more}, s.Accepts (.begin (.emplace id r) :: more) id → ∀ entry,
      (s.run (.begin (.emplace id r) :: more)).history[s.history.length]? = some entry →
        entry = (.emplace id r, .ok (.emplaced .stored)) := fun haccepts entry hentry => by
    obtain ⟨k', m', h, -, -⟩ := hrun (k := 2) trivial haccepts
    exact h.returns hentry
  refine ⟨fun more haccepts => ?_, fun haccepts => ?_⟩
  · obtain ⟨k', m', h, hk, hm⟩ := hrun (k := 2) trivial haccepts
    refine ⟨hcall haccepts, fun hturns => h.returned (by omega), fun hn => h.released (hregular.run _) hn, by omega,
      fun hall => ?_⟩
    obtain ⟨k'', m'', -, hk', -⟩ := hrun (k := 1) (cleared_of_accepted hkept hmeasured hb hall) haccepts
    omega
  · obtain ⟨more, hservice, hentry⟩ := emplace_run hidle hregular.sound hb hcan (halign.mem_alignments.mpr hlimit)
    have hstored := hcall (by rw [Accepts, hservice]; exact haccepts) _ hentry
    cases hresult : (s.service.emplace id r).2 with
    | error e => rw [hresult] at hstored; cases hstored
    | ok outcome =>
      rw [hresult] at hstored
      cases hstored
      rfl

/-- Both sides are full: one with a record on which the consumer has failed, the other one with a new record. -/
def filledAroundFailure : List (Event Nat) :=
  [.begin .allocate, .advance, .begin (.configure 1 ⟨"", 0, 8, 0, .lossless, 0⟩), .advance,
    .begin (.emplace 1 ⟨3, 5, ⟨"u64", 8, 8⟩, 1⟩), .advance, .advance, .advance, .begin (.flush 1 true), .advance, .finish 1,
    .advance, .begin (.emplace 1 ⟨3, 5, ⟨"u64", 8, 8⟩, 2⟩), .advance, .advance, .advance]

/-- What the caller and the drains do until a third record is stored. -/
def waitingTwice : List (Event Nat) :=
  [.advance, .advance, .finish 1, .advance, .advance, .advance, .finish 1, .advance, .advance, .advance, .advance]

theorem stores_filledAroundFailure :
    let s := (ofReplies [⟨false, 0⟩] : Session Nat).run filledAroundFailure
    let r : Record Nat := ⟨3, 5, ⟨"u64", 8, 8⟩, 3⟩
    let call := .begin (.emplace 1 r) :: waitingTwice
    (∃ b, s.service.buffer? 1 = some b ∧ b.settings.policy = .lossless ∧ s.pending = none) ∧ s.Accepts call 1 ∧
      s.service.dropCount 1 = .ok 0 ∧ (s.run call).dropped 1 = 0 ∧ turns s call = 9 ∧
      (s.run call).history[s.history.length]? = some (.emplace 1 r, .ok (.emplaced .stored)) ∧
      waits s.history.length s call = 2 := by
  intro s r call
  have hbuffer : (s.service.buffer? 1).map (fun b => (b.settings.policy, b.settings.size)) = some (.lossless, 8) := by
    decide +kernel
  obtain ⟨b, hb, hat⟩ := Option.map_eq_some_iff.mp hbuffer
  simp only [Prod.mk.injEq] at hat
  obtain ⟨hpolicy, hsize⟩ := hat
  have hidle : s.pending = none := Option.isNone_iff_eq_none.mp (by decide +kernel)
  have haccepts : s.Accepts call 1 := by
    unfold Accepts
    decide +kernel
  have hturns : turns s call = 9 := by decide +kernel
  obtain ⟨hcount, hdropped, hcalls⟩ := run_stores_within_two_drains [⟨false, 0⟩] filledAroundFailure 1 b hb hpolicy
  obtain ⟨-, hreturns, -, -, -⟩ := (hcalls r ⟨3, rfl⟩ (by decide) (by rw [hsize]; decide) hidle).1 waitingTwice haccepts
  exact ⟨⟨b, hb, hpolicy, hidle⟩, haccepts, hcount, hdropped call, hturns, hreturns (Nat.le_of_eq hturns.symm),
    by decide +kernel⟩

end Session

end PerfCounters
