import PerfCounters.Proofs.Buffering.Numbers

/-! What one step does to a service, whatever the consumer answers. The caller stores a record, drops one or forgets a
    buffer; all else is work on buffers that moves no record in or out: they are made, and their drains start, go on
    and end. -/

namespace PerfCounters

/-- What a call is for, beyond its drains. -/
def Call.Pursues {α : Type} (call : Call α) : Goal α → Prop
  | .answer => True
  | .store id r => call = .emplace id r
  | .forget id => call = .destroy id

namespace Buffer

variable {α : Type} {b b' : Buffer α}

@[simp] theorem modifyStore_drops (b : Buffer α) (side : Side) (f : RecordBuffer α → RecordBuffer α) :
    (b.modifyStore side f).drops = b.drops := by
  cases side <;> rfl

@[simp] theorem withDrain_drops (b : Buffer α) (d : Option (Drain α)) : (b.withDrain d).drops = b.drops := rfl

/-- What becomes of a buffer when nothing is stored or dropped: its drain starts, goes on or ends, if anything. The
list is what the consumer is handed meanwhile; it is not handed a batch without records. -/
inductive Turns (b : Buffer α) : Buffer α → List (Delivery α) → Prop where
  | rest : b.Turns b []
  | start (h : b.drain = none) : b.Turns b.startDrain []
  | enter : b.Turns b.enterDrain []
  | finish {batch : Batch α} (accepted : Bool)
      (h : b.enterDrain.drain = some { side := b.enterDrain.side.other, batch := some batch }) :
      b.Turns (b.enterDrain.endDrain accepted) (if batch.records.isEmpty then [] else [⟨batch, accepted⟩])

namespace Turns

variable {ds : List (Delivery α)}

theorem sound (h : b.Turns b' ds) (hs : b.Sound) : b'.Sound := by
  cases h with
  | rest => exact hs
  | start hd => exact sound_startDrain hs hd
  | enter => exact (enterDrain_kept hs).1
  | finish accepted hd => exact (endDrain_kept (enterDrain_kept hs).1 hd accepted).1

theorem id (h : b.Turns b' ds) (hs : b.Sound) : b'.id = b.id := by
  cases h with
  | rest | start => rfl
  | enter => exact (enterDrain_kept hs).2.1.id
  | finish accepted hd =>
    obtain ⟨hsound, hkeeps, -, -⟩ := enterDrain_kept hs
    exact (hkeeps.trans (endDrain_kept hsound hd accepted).2.1).id

theorem settings (h : b.Turns b' ds) (hs : b.Sound) : b'.settings = b.settings := by
  cases h with
  | rest | start => rfl
  | enter => exact (enterDrain_kept hs).2.1.settings
  | finish accepted hd =>
    obtain ⟨hsound, hkeeps, -, -⟩ := enterDrain_kept hs
    exact (hkeeps.trans (endDrain_kept hsound hd accepted).2.1).settings

/-- Records go to the side they went to before, or to the one that was retired while no drain was in flight. -/
theorem current (h : b.Turns b' ds) (hs : b.Sound) :
    b'.current = b.current ∨ b.drain = none ∧ b'.current = b.retired := by
  cases h with
  | rest => exact Or.inl rfl
  | start hd => exact Or.inr ⟨hd, current_startDrain b⟩
  | enter => exact Or.inl (enterDrain_kept hs).2.1.current
  | finish accepted hd =>
    obtain ⟨hsound, hkeeps, -, -⟩ := enterDrain_kept hs
    exact Or.inl (hkeeps.trans (endDrain_kept hsound hd accepted).2.1).current

theorem drops_enterDrain (hs : b.Sound) : b.enterDrain.drops = b.drops := by
  rcases enterDrain_cases hs with ⟨heq, -⟩ | ⟨-, heq⟩
  · rw [heq]
  · rw [heq, withDrain_drops, modifyStore_drops]

theorem drops (h : b.Turns b' ds) (hs : b.Sound) : b'.drops = b.drops := by
  cases h with
  | rest | start => rfl
  | enter => exact drops_enterDrain hs
  | finish accepted hd =>
    rw [← drops_enterDrain hs, endDrain, hd]
    exact modifyStore_drops _ _ _

end Turns

/-- What a buffer keeps as long as it is there. -/
structure Lasting (P : Buffer α → Prop) : Prop where
  turns : ∀ {b b' ds}, P b → b.Sound → b.Turns b' ds → P b'
  push : ∀ {b}, P b → b.Sound → ∀ r, P (b.push r).1
  drop : ∀ {b}, P b → P { b with drops := b.drops + 1 }

end Buffer

namespace Service

variable {α : Type} {s s' : Service α} {b b' : Buffer α} {id : BufferId}

/-- The batches of a buffer that the consumer was handed, oldest first. -/
def handed (s : Service α) (id : BufferId) : List (Delivery α) := s.log.filter fun d => d.batch.buffer == id

theorem handed_congr (h : s'.log = s.log) (id : BufferId) : s'.handed id = s.handed id := by rw [handed, handed, h]

@[simp] theorem handed_setBuffer (s : Service α) (b : Buffer α) (id : BufferId) : (s.setBuffer b).handed id = s.handed id :=
  rfl

@[simp] theorem handed_enter (s : Service α) (target id : BufferId) : (s.enter target).handed id = s.handed id := by
  cases hb : s.buffer? target <;> simp [enter, hb]

theorem handed_leave (s : Service α) (b : Buffer α) (batch : Batch α) (id : BufferId) :
    (s.leave b batch).1.handed id = s.handed id ++ if id = batch.buffer then
      (if batch.records.isEmpty then [] else [⟨batch, (s.leave b batch).2⟩]) else [] := by
  simp only [leave, answer, handed_setBuffer]
  cases batch.records.isEmpty with
  | true => simp [handed]
  | false =>
    by_cases hid : id = batch.buffer
    · simp [handed, hid]
    · have hne : batch.buffer ≠ id := fun h => hid h.symm
      simp [handed, hid, hne]

/-- What is done to a service when no record is stored or dropped and no buffer is forgotten. -/
inductive Work (s : Service α) : Service α → Prop where
  | rest : s.Work s
  | allocate : s.Work s.allocate.1
  | configure {id : BufferId} {settings : Settings} (hnew : s.lookup? id = some none) (hfault : settings.fault? = none) :
      s.Work ({ s with telemetry := (s.telemetry.ofBuffer (settings.label id)).1 }.setBuffer
        (.ofSettings id settings (s.telemetry.ofBuffer (settings.label id)).2))
  | start {b : Buffer α} (hb : s.buffer? b.id = some b) (hd : b.drain = none) : s.Work (s.start b)
  | enter (id : BufferId) : s.Work (s.enter id)
  | finish (id : BufferId) : s.Work (s.finish id).1

theorem replaces_configure (hnew : s.lookup? id = some none) (settings : Settings) (telemetry : Telemetry Nat)
    (handles : SeriesHandles) :
    Replaces s ({ s with telemetry }.setBuffer (.ofSettings id settings handles)) (.ofSettings id settings handles) := by
  apply replaces_setBuffer (s := { s with telemetry })
  show (s.lookup? id).isSome = true
  rw [hnew]
  rfl

/-- The drain in flight of a buffer ends with this batch. -/
structure Finishes (s : Service α) (id : BufferId) (b : Buffer α) (batch : Batch α) : Prop where
  buffer : s.buffer? id = some b
  entered : b.enterDrain.drain = some { side := b.enterDrain.side.other, batch := some batch }
  replaces : Replaces s (s.finish id).1 (b.enterDrain.endDrain (s.finish id).2)
  handed : ∀ j, (s.finish id).1.handed j = s.handed j ++ if j = id then
    (if batch.records.isEmpty then [] else [⟨batch, (s.finish id).2⟩]) else []

/-- A drain in flight ends with its batch; without one nothing happens after entering. -/
theorem finish_cases (hs : s.Sound) (id : BufferId) :
    (s.finish id = (s.enter id, true) ∧ ∀ b, s.buffer? id = some b → b.drain = none) ∨
      ∃ b batch, s.Finishes id b batch := by
  by_cases hbusy : ∃ b, s.buffer? id = some b ∧ b.isBusy = true
  · obtain ⟨b, hb, hbusy⟩ := hbusy
    obtain ⟨batch, hd, heq⟩ := finish_busy hs hb hbusy
    have henter := replaces_enter hs hb
    obtain ⟨hsound, hkeeps, -, -⟩ := Buffer.enterDrain_kept (hs.sound hb)
    have hleave := replaces_leave (hs.replaces henter hsound) henter.self hd
    have hbatch : batch.buffer = id :=
      (Buffer.endDrain_kept hsound hd true).2.2.2.2.1.trans (hkeeps.id.trans (hs.named hb))
    refine Or.inr ⟨b, batch, hb, hd, ?_, fun j => ?_⟩
    · rw [heq]
      exact henter.trans hleave (Buffer.endDrain_kept hsound hd _).2.1.id
    · rw [heq, handed_leave, handed_enter, hbatch]
  · have hidle : ∀ b, s.buffer? id = some b → b.isBusy = false := fun b hb =>
      Bool.eq_false_iff.mpr fun h => hbusy ⟨b, hb, h⟩
    exact Or.inl ⟨finish_idle hs hidle, fun b hb => by simpa [Buffer.isBusy] using hidle b hb⟩

/-- A drain that goes on leaves the other buffers alone. -/
theorem buffer?_enter_of_ne (hs : s.Sound) {target : BufferId} (hne : id ≠ target) :
    (s.enter target).buffer? id = s.buffer? id := by
  cases hb : s.buffer? target with
  | none =>
    have heq : s.enter target = s := by simp only [Service.enter, hb]
    rw [heq]
  | some b =>
    refine (replaces_enter hs hb).other ?_
    rwa [(Buffer.enterDrain_kept (hs.sound hb)).2.1.id, hs.named hb]

theorem Finishes.named {batch : Batch α} (h : s.Finishes id b batch) (hs : s.Sound) (accepted : Bool) :
    (b.enterDrain.endDrain accepted).id = id := by
  obtain ⟨hsound, hkeeps, -, -⟩ := Buffer.enterDrain_kept (hs.sound h.buffer)
  exact ((Buffer.endDrain_kept hsound h.entered accepted).2.1.id.trans hkeeps.id).trans (hs.named h.buffer)

theorem buffer?_finish_of_ne (hs : s.Sound) {target : BufferId} (hne : id ≠ target) :
    (s.finish target).1.buffer? id = s.buffer? id := by
  rcases finish_cases hs target with ⟨heq, -⟩ | ⟨b, batch, h⟩
  · rw [heq]
    exact buffer?_enter_of_ne hs hne
  · refine h.replaces.other ?_
    rwa [h.named hs]

/-- There is no buffer under a number, as before, or what became of the one that was there. -/
inductive Turned (s s' : Service α) (id : BufferId) : Prop where
  | absent (h : s.buffer? id = none) (h' : s'.buffer? id = none) (hlog : s'.handed id = s.handed id)
  | buffer {b b' : Buffer α} {ds : List (Delivery α)} (hb : s.buffer? id = some b) (hb' : s'.buffer? id = some b')
      (h : b.Turns b' ds) (hlog : s'.handed id = s.handed id ++ ds)

namespace Turned

theorem of_eq (h : s'.buffer? id = s.buffer? id) (hlog : s'.handed id = s.handed id) : Turned s s' id := by
  cases hb : s.buffer? id with
  | none => exact .absent hb (h.trans hb) hlog
  | some b => exact .buffer hb (h.trans hb) .rest (by rw [hlog, List.append_nil])

theorem of_replaces {ds : List (Delivery α)} (h : Replaces s s' b') (hb : s.buffer? b'.id = some b)
    (hturns : b.Turns b' ds) (hlog : ∀ j, s'.handed j = s.handed j ++ if j = b'.id then ds else []) (id : BufferId) :
    Turned s s' id := by
  by_cases hid : id = b'.id
  · rw [hid]
    exact .buffer hb h.self hturns (by rw [hlog, if_pos rfl])
  · exact of_eq (h.other hid) (by rw [hlog, if_neg hid, List.append_nil])

theorem start (hb : s.buffer? b.id = some b) (hd : b.drain = none) (id : BufferId) : Turned s (s.start b) id := by
  refine of_replaces (replaces_start hb) hb (.start hd) (fun j => ?_) id
  rw [ite_self, List.append_nil]
  rfl

theorem enter (hs : s.Sound) (target id : BufferId) : Turned s (s.enter target) id := by
  cases hb : s.buffer? target with
  | none =>
    have heq : s.enter target = s := by simp only [Service.enter, hb]
    rw [heq]
    exact of_eq rfl rfl
  | some b =>
    have hid : b.enterDrain.id = target := (Buffer.enterDrain_kept (hs.sound hb)).2.1.id.trans (hs.named hb)
    exact of_replaces (replaces_enter hs hb) (by rwa [hid]) .enter (fun j => by simp) id

theorem finish (hs : s.Sound) (target id : BufferId) : Turned s (s.finish target).1 id := by
  rcases finish_cases hs target with ⟨heq, -⟩ | ⟨b, batch, h⟩
  · rw [heq]
    exact enter hs target id
  · have hid := h.named hs (s.finish target).2
    exact of_replaces h.replaces (by rw [hid, h.buffer]) (.finish _ h.entered) (by rw [hid]; exact h.handed) id

theorem isSome (h : Turned s s' id) : (s'.buffer? id).isSome = (s.buffer? id).isSome := by
  cases h with
  | absent hb hb' => rw [hb, hb']
  | buffer hb hb' => rw [hb, hb', Option.isSome_some, Option.isSome_some]

end Turned

/-- A new buffer was made under a number with the series of its label. Of this number the consumer was handed nothing
meanwhile. -/
structure Configured (s s' : Service α) (id : BufferId) : Prop where
  unset : s.lookup? id = some none
  buffer : ∃ settings handles, settings.fault? = none ∧ s'.buffer? id = some (.ofSettings id settings handles) ∧
    s.telemetry.ofBuffer (settings.label id) = (s'.telemetry, handles)
  handed : s'.handed id = s.handed id

namespace Work

/-- Work turns the buffers, or makes a new one. -/
theorem buffers (h : s.Work s') (hs : s.Sound) (id : BufferId) : Turned s s' id ∨ Configured s s' id := by
  cases h with
  | rest => exact Or.inl (.of_eq rfl rfl)
  | allocate => exact Or.inl (.of_eq (buffer?_allocate s id) rfl)
  | @configure new settings hnew hfault =>
    have hrep := replaces_configure hnew settings (s.telemetry.ofBuffer (settings.label new)).1
      (s.telemetry.ofBuffer (settings.label new)).2
    by_cases hid : id = new
    · subst hid
      exact Or.inr ⟨hnew, ⟨settings, _, hfault, hrep.self, rfl⟩, rfl⟩
    · exact Or.inl (.of_eq (hrep.other hid) rfl)
  | start hb hd => exact Or.inl (.start hb hd id)
  | enter target => exact Or.inl (.enter hs target id)
  | finish target => exact Or.inl (.finish hs target id)

/-- No number is given out but by allocating. -/
theorem numbers (h : s.Work s') : SameNumbers s s' ∨ s' = s.allocate.1 := by
  cases h with
  | rest => exact Or.inl (SameNumbers.refl s)
  | allocate => exact Or.inr rfl
  | configure hnew hfault => exact Or.inl ⟨ids_setBuffer _ _, rfl⟩
  | start hb hd => exact Or.inl (sameNumbers_start s _)
  | enter id => exact Or.inl (sameNumbers_enter s id)
  | finish id => exact Or.inl (sameNumbers_finish s id)

end Work

theorem work_configure (s : Service α) (id : BufferId) (settings : Settings) : s.Work (s.configure id settings).1 := by
  unfold configure
  split
  · exact .rest
  · rename_i hfault
    split
    · exact .rest
    · exact .rest
    · rename_i hnew
      exact .configure hnew hfault

theorem work_kick (hb : s.buffer? b.id = some b) : s.Work (s.flushBuffer b false).1 := by
  simp only [flushBuffer, Bool.false_eq_true, if_false]
  cases hbusy : b.isBusy with
  | true => exact .rest
  | false => exact .start hb (by simpa [Buffer.isBusy] using hbusy)

theorem work_checkWatermark (hb : s.buffer? b.id = some b) : s.Work (s.checkWatermark b) := by
  unfold checkWatermark
  split
  · exact work_kick hb
  · exact .rest

/-! ### Calls -/

theorem work_receive (hs : s.Sound) (call : Call α) : s.Work (s.receive call).1 := by
  cases call with
  | allocate => exact .allocate
  | configure id settings => exact work_configure s id settings
  | emplace id r =>
    simp only [receive]
    split
    · exact .rest
    · split <;> exact .rest
  | flush id wait =>
    cases wait with
    | true =>
      simp only [receive, if_true]
      split <;> exact .rest
    | false =>
      simp only [receive, Bool.false_eq_true, if_false, flush]
      cases hb : s.configured id with
      | error e => exact .rest
      | ok b => exact work_kick (by rw [hs.named (configured_eq_ok.mp hb), configured_eq_ok.mp hb])
  | flushAll order wait => cases wait <;> exact .rest
  | destroy id =>
    simp only [receive]
    split <;> exact .rest

/-- A call that was received has answered for no record, and it is about to do what it is for. -/
theorem receive_fresh (s : Service α) (call : Call α) :
    (s.receive call).2.call = call ∧ call.Pursues (s.receive call).2.stage.goal ∧
      ((s.receive call).2.stage.goal ≠ .answer → (s.receive call).2.result = .ok .done) ∧
      ∀ outcome, (s.receive call).2.result ≠ .ok (.emplaced outcome) := by
  cases call with
  | allocate => exact ⟨rfl, trivial, fun h => absurd rfl h, fun _ h => (by cases h)⟩
  | configure id settings =>
    refine ⟨rfl, trivial, fun h => absurd rfl h, fun _ h => ?_⟩
    simp only [receive] at h
    cases hresult : (s.configure id settings).2 <;> rw [hresult] at h <;> cases h
  | emplace id r =>
    simp only [receive]
    split
    · exact ⟨rfl, trivial, fun h => absurd rfl h, fun _ h => (by cases h)⟩
    · split
      · exact ⟨rfl, rfl, fun _ => rfl, fun _ h => (by cases h)⟩
      · exact ⟨rfl, trivial, fun h => absurd rfl h, fun _ h => (by cases h)⟩
  | flush id wait =>
    cases wait with
    | true =>
      simp only [receive, if_true]
      split <;> exact ⟨rfl, trivial, fun h => absurd rfl h, fun _ h => (by cases h)⟩
    | false =>
      refine ⟨rfl, trivial, fun h => absurd rfl h, fun _ h => ?_⟩
      simp only [receive, Bool.false_eq_true, if_false] at h
      cases hresult : (s.flush id false).2 <;> rw [hresult] at h <;> cases h
  | flushAll order wait =>
    cases wait with
    | true =>
      simp only [receive, if_true, Stage.goal_drainEach]
      exact ⟨trivial, trivial, fun _ => trivial, fun _ h => (by cases h)⟩
    | false => exact ⟨rfl, trivial, fun h => absurd rfl h, fun _ h => (by cases h)⟩
  | destroy id =>
    simp only [receive]
    split
    · exact ⟨rfl, trivial, fun h => absurd rfl h, fun _ h => (by cases h)⟩
    · exact ⟨rfl, rfl, fun _ => rfl, fun _ h => (by cases h)⟩
    · exact ⟨rfl, rfl, fun _ => rfl, fun _ h => (by cases h)⟩

/-! ### Storing and dropping -/

theorem replaces_countStored (hs : s.Sound) (hb : s.buffer? id = some b) (r : Record α) :
    Replaces s (s.countStored (b.push r).1) (b.push r).1 := by
  apply replaces_setBuffer
  show (s.lookup? (b.push r).1.id).isSome = true
  rw [Buffer.push_id (hs.sound hb) r, hs.named hb]
  exact isSome_lookup? hb

theorem replaces_afterDrop (hs : s.Sound) (hb : s.buffer? id = some b) :
    Replaces s (s.afterDrop b) { b with drops := b.drops + 1 } := by
  apply replaces_setBuffer
  show (s.lookup? b.id).isSome = true
  rw [hs.named hb]
  exact isSome_lookup? hb

/-- What the next step of a call does: work, or it forgets a buffer, stores its record or drops it. -/
inductive Advance (s : Service α) (p : Pending α) : Service α × Pending α → Prop where
  | work {s' : Service α} {p' : Pending α} (h : s.Work s') (hcall : p'.call = p.call) (hresult : p'.result = p.result)
      (hgoal : p'.stage.goal = p.stage.goal ∨ p'.stage.goal = .answer)
      (hstill : p.stage.goal = .answer → p.stage.targets = [] → p'.stage.targets = []) : s.Advance p (s', p')
  | refused {e : BufferError} {id : BufferId} {r : Record α} (hstage : p.stage = .reach (.store id r))
      (hnone : s.buffer? id = none) : s.Advance p (s, p.answering (.error e))
  | forget {id : BufferId} (telemetry : Telemetry Nat) (hstage : p.stage = .reach (.forget id)) :
      s.Advance p ({ s with telemetry }.unregister id, p.goto (.reach .answer))
  | store {id : BufferId} {r : Record α} {b : Buffer α} (hstage : p.stage = .reach (.store id r))
      (hb : s.buffer? id = some b) (hpush : (b.push r).2 = true) :
      s.Advance p (s.countStored (b.push r).1, { p with stage := .watermark id, result := .ok (.emplaced .stored) })
  | drop {id : BufferId} {r : Record α} {b : Buffer α} (hstage : p.stage = .reach (.store id r))
      (hb : s.buffer? id = some b) (hpush : (b.push r).2 = false) (hpolicy : b.settings.policy = .discard) :
      s.Advance p (s.afterDrop b, p.answering (.ok (.emplaced .dropped)))

theorem advance_next (hs : s.Sound) (p : Pending α) : s.Advance p (p.next s) := by
  have hkick : ∀ {id b}, s.buffer? id = some b → s.buffer? b.id = some b := fun hb => by rwa [hs.named hb]
  unfold Pending.next
  split
  · exact .work .rest rfl rfl (Or.inl rfl) fun _ h => h
  · rename_i id r hstage
    rcases p.store_cases s id r with ⟨e, he, heq⟩ | ⟨b, hb, ⟨hpush, heq⟩ | ⟨hpush, hpolicy, heq⟩ | ⟨-, -, heq⟩⟩
    · rw [heq]
      exact .refused hstage (buffer?_of_configured_error he)
    · rw [heq]
      exact .store hstage hb hpush
    · rw [heq]
      exact .drop hstage hb hpush hpolicy
    · rw [heq]
      exact .work .rest rfl rfl (Or.inl (by rw [hstage]; rfl)) fun h => by rw [hstage] at h; cases h
  · rename_i id hstage
    exact .forget _ hstage
  · rename_i id hstage
    cases hb : s.buffer? id with
    | none => exact .work .rest rfl rfl (Or.inr rfl) fun _ _ => rfl
    | some b => exact .work (work_checkWatermark (hkick hb)) rfl rfl (Or.inr rfl) fun _ _ => rfl
  · exact .work .rest rfl rfl (Or.inr rfl) fun _ _ => rfl
  · rename_i id rest hstage
    cases hb : s.buffer? id with
    | none => exact .work .rest rfl rfl (Or.inr rfl) fun _ _ => rfl
    | some b => exact .work (work_kick (hkick hb)) rfl rfl (Or.inr rfl) fun _ _ => rfl
  · rename_i id rest goal hstage
    have hwaits : ∀ {P : Prop}, p.stage.targets = [] → P := fun h => by rw [hstage] at h; cases h
    cases hb : s.buffer? id with
    | none => exact .work .rest rfl rfl (Or.inl (by rw [hstage]; rfl)) fun _ => hwaits
    | some b =>
      cases hbusy : b.isBusy with
      | true => simpa [hbusy] using Advance.work .rest rfl rfl (Or.inl rfl) fun _ h => h
      | false =>
        simp only [hbusy, Bool.false_eq_true, if_false]
        exact .work (.start (hkick hb) (by simpa [Buffer.isBusy] using hbusy)) rfl rfl (Or.inl (by rw [hstage]; rfl))
          fun _ => hwaits
  · rename_i id rest goal hstage
    have hgoal : (Stage.drainEach rest goal).goal = p.stage.goal := by rw [hstage, Stage.goal_drainEach]; rfl
    have hwaits : ∀ {P : Prop}, p.stage.targets = [] → P := fun h => by rw [hstage] at h; cases h
    cases hb : s.buffer? id with
    | none => exact .work .rest rfl rfl (Or.inl hgoal) fun _ => hwaits
    | some b =>
      cases hbusy : b.isBusy with
      | true => simpa [hbusy] using Advance.work .rest rfl rfl (Or.inl rfl) fun _ h => h
      | false =>
        simp only [hbusy, Bool.false_eq_true, if_false]
        exact .work .rest rfl rfl (Or.inl hgoal) fun _ => hwaits

end Service

end PerfCounters
