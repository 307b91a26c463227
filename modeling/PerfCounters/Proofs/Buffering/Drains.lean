import PerfCounters.Proofs.Buffering.Registry

/-! How drains go on, whatever the consumer answers: they touch one buffer, and of that one neither the
    settings nor the current side. -/

namespace PerfCounters

namespace Service

variable {α : Type} {s s' : Service α} {b : Buffer α} {id : BufferId}

/-- What every step keeps of a service, whatever the consumer does. -/
structure Sound (s : Service α) : Prop where
  named : ∀ {id b}, s.buffer? id = some b → b.id = id
  sound : ∀ {id b}, s.buffer? id = some b → b.Sound

/-! ### Replacing one buffer -/

/-- The service has `b` under its number, and under every other number what `s` has there. -/
def Replaces (s s' : Service α) (b : Buffer α) : Prop :=
  ∀ id, s'.buffer? id = if id = b.id then some b else s.buffer? id

theorem replaces_setBuffer (h : (s.lookup? b.id).isSome = true) : Replaces s (s.setBuffer b) b :=
  buffer?_setBuffer h

theorem Replaces.refl (h : s.buffer? b.id = some b) : Replaces s s b := fun id => by
  split
  · rename_i heq
    rw [heq, h]
  · rfl

theorem Replaces.trans {t : Service α} {b' : Buffer α} (h : Replaces s s' b) (h' : Replaces s' t b')
    (hid : b'.id = b.id) : Replaces s t b' := fun id => by
  rw [h' id, hid]
  split
  · rfl
  · rename_i hne
    rw [h id, if_neg hne]

theorem Replaces.self (h : Replaces s s' b) : s'.buffer? b.id = some b := by rw [h, if_pos rfl]

theorem Replaces.other (h : Replaces s s' b) (hne : id ≠ b.id) : s'.buffer? id = s.buffer? id := by
  rw [h, if_neg hne]

theorem Replaces.cases {P : BufferId → Buffer α → Prop} (h : Replaces s s' b) (hself : P b.id b)
    (hother : ∀ {id c}, s.buffer? id = some c → P id c) {id : BufferId} {c : Buffer α}
    (hc : s'.buffer? id = some c) : P id c := by
  by_cases hid : id = b.id
  · subst hid
    rw [h.self] at hc
    cases hc
    exact hself
  · rw [h.other hid] at hc
    exact hother hc

theorem Sound.replaces (hs : s.Sound) (h : Replaces s s' b) (hb : b.Sound) : s'.Sound :=
  ⟨fun hc => h.cases (P := fun id c => c.id = id) rfl hs.named hc,
    fun hc => h.cases (P := fun _ c => c.Sound) hb hs.sound hc⟩

/-! ### Entering -/

theorem enter_of_buffer? (hb : s.buffer? id = some b) : s.enter id = s.setBuffer b.enterDrain := by
  simp only [enter, hb]

theorem replaces_enter (hs : s.Sound) (hb : s.buffer? id = some b) : Replaces s (s.enter id) b.enterDrain := by
  rw [enter_of_buffer? hb]
  apply replaces_setBuffer
  rw [(Buffer.enterDrain_kept (hs.sound hb)).2.1.id, hs.named hb]
  exact isSome_lookup? hb

theorem buffer?_enter (hs : s.Sound) (hb : s.buffer? id = some b) : (s.enter id).buffer? id = some b.enterDrain := by
  have hid : b.enterDrain.id = id := (Buffer.enterDrain_kept (hs.sound hb)).2.1.id.trans (hs.named hb)
  have hself := (replaces_enter hs hb).self
  rwa [hid] at hself

/-- Drains that go on leave the current side of every buffer as it is. -/
theorem current_enter (hs : s.Sound) (id : BufferId) {j : BufferId} {c : Buffer α}
    (hc : (s.enter id).buffer? j = some c) : ∃ b, s.buffer? j = some b ∧ c.current = b.current := by
  cases hb : s.buffer? id with
  | none =>
    simp only [enter, hb] at hc
    exact ⟨c, hc, rfl⟩
  | some b =>
    have hkept := Buffer.enterDrain_kept (hs.sound hb)
    refine (replaces_enter hs hb).cases (P := fun j c => ∃ b, s.buffer? j = some b ∧ c.current = b.current)
      ⟨b, ?_, hkept.2.1.current⟩ (fun hc => ⟨_, hc, rfl⟩) hc
    rw [hkept.2.1.id, hs.named hb, hb]

/-! ### Ending -/

/-- Without a drain in flight nothing happens after entering. -/
theorem finish_idle (hs : s.Sound) (h : ∀ b, s.buffer? id = some b → b.isBusy = false) :
    s.finish id = (s.enter id, true) := by
  cases hb : s.buffer? id with
  | none =>
    have heq : s.enter id = s := by simp only [enter, hb]
    simp only [finish, heq, hb]
  | some b =>
    have hkept := Buffer.enterDrain_kept (hs.sound hb)
    have hfind := buffer?_enter hs hb
    have hnone : b.enterDrain.drain = none := by
      have hidle := hkept.2.2.2.trans (h b hb)
      simpa [Buffer.isBusy] using hidle
    simp only [finish, hfind, Buffer.delivering?, hnone, Option.bind_none]

/-- A drain in flight delivers the batch it has entered with. -/
theorem finish_busy (hs : s.Sound) (hb : s.buffer? id = some b) (hbusy : b.isBusy = true) :
    ∃ batch, b.enterDrain.drain = some { side := b.enterDrain.side.other, batch := some batch } ∧
      s.finish id = (s.enter id).leave b.enterDrain batch := by
  have hkept := Buffer.enterDrain_kept (hs.sound hb)
  have hfind := buffer?_enter hs hb
  obtain ⟨batch, hd⟩ := Buffer.enterDrain_delivering (hs.sound hb) hbusy
  refine ⟨batch, ?_, ?_⟩
  · rw [← hkept.1.drain_side hd, hd]
  · simp only [finish, hfind, Buffer.delivering?, hd, Option.bind_some]

@[simp] theorem registry_answer (s : Service α) (batch : Batch α) : (s.answer batch).1.registry = s.registry := by
  unfold answer
  split <;> rfl

/-- The end of a drain replaces its buffer. -/
theorem replaces_leave (hs : s.Sound) (hb : s.buffer? b.id = some b) {batch : Batch α}
    (hd : b.drain = some { side := b.side.other, batch := some batch }) :
    Replaces s (s.leave b batch).1 (b.endDrain (s.leave b batch).2) := by
  have hid : ∀ accepted, (b.endDrain accepted).id = b.id := fun accepted =>
    (Buffer.endDrain_kept (hs.sound hb) hd accepted).2.1.id
  have hlookup : ∀ j, (s.answer batch).1.lookup? j = s.lookup? j := fun j => by
    rw [lookup?, lookup?, registry_answer]
  intro j
  simp only [leave]
  rw [buffer?_setBuffer]
  · simp only [buffer?, lookup?, registry_answer]
    rfl
  · show ((s.answer batch).1.lookup? (b.endDrain _).id).isSome = true
    rw [hlookup, hid]
    exact isSome_lookup? hb

/-- What a drain that ended leaves of its buffer: the drained side is bare once the batch was taken. -/
theorem finish_ends (hs : s.Sound) (hb : s.buffer? id = some b) (hbusy : b.isBusy = true) :
    ∃ b', Replaces s (s.finish id).1 b' ∧ b'.Sound ∧ b.Keeps b' ∧ b'.drain = none ∧
      ((s.finish id).2 = true → b'.retired.Bare) := by
  obtain ⟨batch, hd, heq⟩ := finish_busy hs hb hbusy
  obtain ⟨hsound, hkeeps, -, -⟩ := Buffer.enterDrain_kept (hs.sound hb)
  have henter := replaces_enter hs hb
  have hsentered := hs.replaces henter hsound
  have hleave := replaces_leave hsentered henter.self hd
  obtain ⟨hsound', hkeeps', hnone, hbare, -, -⟩ :=
    Buffer.endDrain_kept hsound hd ((s.enter id).leave b.enterDrain batch).2
  rw [heq]
  exact ⟨_, henter.trans hleave hkeeps'.id, hsound', hkeeps.trans hkeeps', hnone, hbare⟩

/-- Drains that go on leave the current side of every buffer as it is. -/
theorem current_finish (hs : s.Sound) (id : BufferId) {j : BufferId} {c : Buffer α}
    (hc : (s.finish id).1.buffer? j = some c) : ∃ b, s.buffer? j = some b ∧ c.current = b.current := by
  by_cases hbusy : ∃ b, s.buffer? id = some b ∧ b.isBusy = true
  · obtain ⟨b, hb, hbusy⟩ := hbusy
    obtain ⟨b', hrep, -, hkeeps, -, -⟩ := finish_ends hs hb hbusy
    refine hrep.cases (P := fun j c => ∃ b, s.buffer? j = some b ∧ c.current = b.current)
      ⟨b, ?_, hkeeps.current⟩ (fun hc => ⟨_, hc, rfl⟩) hc
    rw [hkeeps.id, hs.named hb, hb]
  · rw [finish_idle hs fun b hb => Bool.eq_false_iff.mpr fun h => hbusy ⟨b, hb, h⟩] at hc
    exact current_enter hs id hc

/-! ### Waiting for a drain -/

theorem replaces_start (hb : s.buffer? b.id = some b) : Replaces s (s.start b) b.startDrain :=
  replaces_setBuffer (isSome_lookup? hb)

/-- The service once the drain in flight of a buffer, if there is one, has ended. -/
def idled (s : Service α) (b : Buffer α) : Service α := if b.isBusy then (s.finish b.id).1 else s

theorem idled_spec (hs : s.Sound) (hb : s.buffer? id = some b) :
    ∃ b', Replaces s (s.idled b) b' ∧ b'.Sound ∧ b.Keeps b' ∧ b'.drain = none ∧ (b.drain = none → b' = b) := by
  have hid : b.id = id := hs.named hb
  unfold idled
  cases hbusy : b.isBusy with
  | true =>
    obtain ⟨b', hrep, hsound, hkeeps, hnone, -⟩ := finish_ends hs hb hbusy
    rw [hid]
    refine ⟨b', hrep, hsound, hkeeps, hnone, fun h => ?_⟩
    rw [Buffer.isBusy, h] at hbusy
    cases hbusy
  | false =>
    exact ⟨b, Replaces.refl (by rwa [hid]), hs.sound hb, ⟨rfl, rfl, rfl⟩, by simpa [Buffer.isBusy] using hbusy,
      fun _ => rfl⟩

/-- Waiting for a drain of one's own, in three steps: the drain in flight ends, the buffer is turned
    over, and the new drain ends. -/
theorem flushBuffer_eq {b' : Buffer α} (hid : b.id = id) (hid' : b'.id = id) (hb' : (s.idled b).buffer? id = some b') :
    s.flushBuffer b true = ((((s.idled b).start b').finish id).1,
      if (((s.idled b).start b').finish id).2 then .ok () else .error (.flushAborted id)) := by
  rw [← hid] at hb'
  simp only [flushBuffer, if_true]
  rw [show (if b.isBusy = true then (s.finish b.id).1 else s) = s.idled b from rfl, hb']
  simp only [hid']
  cases ((s.idled b).start b').finish id with
  | mk s' delivered => cases delivered <;> rfl

/-- What a call that waited for its own drain finds: no drain, the side that was retired before on top,
    and the other one bare unless the consumer failed. -/
theorem flushBuffer_waited (hs : s.Sound) (hb : s.buffer? id = some b) :
    ∃ b', Replaces s (s.flushBuffer b true).1 b' ∧ b'.Sound ∧ b'.id = id ∧ b'.settings = b.settings ∧
      b'.current.capacity = b.current.capacity ∧ b'.drain = none ∧ (b.drain = none → b'.current = b.retired) ∧
      ((s.flushBuffer b true).2 = .ok () ∧ b'.retired.Bare ∨ (s.flushBuffer b true).2 = .error (.flushAborted id)) := by
  obtain ⟨b₁, hrep₁, hsound₁, hkeeps₁, hnone₁, hsame⟩ := idled_spec hs hb
  have hid₁ : b₁.id = id := hkeeps₁.id.trans (hs.named hb)
  have hb₁ := hrep₁.self
  have hrep₂ := replaces_start hb₁
  have hs₂ := (hs.replaces hrep₁ hsound₁).replaces hrep₂ (Buffer.sound_startDrain hsound₁ hnone₁)
  have hb₂ := hrep₂.self
  rw [hid₁] at hb₁
  rw [show b₁.startDrain.id = id from hid₁] at hb₂
  obtain ⟨b₃, hrep₃, hsound₃, hkeeps₃, hnone₃, hbare₃⟩ := finish_ends hs₂ hb₂ rfl
  have hid₃ : b₃.id = b₁.id := hkeeps₃.id
  have hcurrent : b₃.current = b₁.retired := hkeeps₃.current
  rw [flushBuffer_eq (hs.named hb) hid₁ hb₁]
  refine ⟨b₃, (hrep₁.trans hrep₂ rfl).trans hrep₃ hid₃, hsound₃, hid₃.trans hid₁,
    hkeeps₃.settings.trans hkeeps₁.settings, ?_, hnone₃, fun h => ?_, ?_⟩
  · rw [hcurrent, hsound₁.capacity, hkeeps₁.current]
  · rw [hcurrent, hsame h]
  · cases hdelivered : (((s.idled b).start b₁).finish id).2 with
    | true => exact Or.inl ⟨rfl, hbare₃ hdelivered⟩
    | false => exact Or.inr rfl

theorem drainBoth_waited (hs : s.Sound) (hb : s.buffer? id = some b) :
    ∃ b', Replaces s (s.drainBoth id).1 b' ∧ b'.Sound ∧ b'.id = id ∧ b'.settings = b.settings ∧
      ((s.drainBoth id).2 = .ok () ∨ (s.drainBoth id).2 = .error (.flushAborted id)) := by
  obtain ⟨b₁, hrep₁, hsound₁, hid₁, hsettings₁, -, -, -, hresult₁⟩ := flushBuffer_waited hs hb
  have hflush : s.flush id true = s.flushBuffer b true := by simp only [flush, configured_eq_ok.mpr hb]
  unfold drainBoth
  rw [hflush]
  cases hcall : s.flushBuffer b true with
  | mk s₁ outcome =>
    rw [hcall] at hrep₁ hresult₁
    rcases hresult₁ with ⟨rfl, -⟩ | rfl
    · have hb₁ := hrep₁.self
      rw [hid₁] at hb₁
      obtain ⟨b₂, hrep₂, hsound₂, hid₂, hsettings₂, -, -, -, hresult₂⟩ :=
        flushBuffer_waited (hs.replaces hrep₁ hsound₁) hb₁
      have hflush₁ : s₁.flush id true = s₁.flushBuffer b₁ true := by simp only [flush, configured_eq_ok.mpr hb₁]
      simp only [hflush₁]
      exact ⟨b₂, hrep₁.trans hrep₂ (hid₂.trans hid₁.symm), hsound₂, hid₂, hsettings₂.trans hsettings₁,
        hresult₂.imp And.left fun h => h⟩
    · exact ⟨b₁, hrep₁, hsound₁, hid₁, hsettings₁, Or.inr rfl⟩

end Service

end PerfCounters
