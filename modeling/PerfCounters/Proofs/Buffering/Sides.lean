import PerfCounters.Proofs.Buffering.Contents
import PerfCounters.Service.Buffer

/-! The two sides of a buffer. A drain works on the side that takes no records, and while none is in
    flight that side is bare: so the records of a drained side are older than those of the current one. -/

namespace PerfCounters

namespace Side

@[simp] theorem other_other (side : Side) : side.other.other = side := by cases side <;> rfl

end Side

namespace Buffer

variable {α : Type} {b : Buffer α}

/-! ### Changing one side -/

@[simp] theorem store_modifyStore (b : Buffer α) (side : Side) (f : RecordBuffer α → RecordBuffer α) :
    (b.modifyStore side f).store side = f (b.store side) := by
  cases side <;> rfl

@[simp] theorem store_modifyStore_other (b : Buffer α) (side : Side) (f : RecordBuffer α → RecordBuffer α) :
    (b.modifyStore side f).store side.other = b.store side.other := by
  cases side <;> rfl

@[simp] theorem store_modifyStore_of_other (b : Buffer α) (side : Side) (f : RecordBuffer α → RecordBuffer α) :
    (b.modifyStore side.other f).store side = b.store side := by
  cases side <;> rfl

@[simp] theorem modifyStore_id (b : Buffer α) (side : Side) (f : RecordBuffer α → RecordBuffer α) :
    (b.modifyStore side f).id = b.id := by
  cases side <;> rfl

@[simp] theorem modifyStore_settings (b : Buffer α) (side : Side) (f : RecordBuffer α → RecordBuffer α) :
    (b.modifyStore side f).settings = b.settings := by
  cases side <;> rfl

@[simp] theorem modifyStore_side (b : Buffer α) (side : Side) (f : RecordBuffer α → RecordBuffer α) :
    (b.modifyStore side f).side = b.side := by
  cases side <;> rfl

@[simp] theorem modifyStore_drain (b : Buffer α) (side : Side) (f : RecordBuffer α → RecordBuffer α) :
    (b.modifyStore side f).drain = b.drain := by
  cases side <;> rfl

/-- The buffer with another drain in flight. -/
def withDrain (b : Buffer α) (d : Option (Drain α)) : Buffer α := { b with drain := d }

@[simp] theorem withDrain_id (b : Buffer α) (d : Option (Drain α)) : (b.withDrain d).id = b.id := rfl
@[simp] theorem withDrain_settings (b : Buffer α) (d : Option (Drain α)) : (b.withDrain d).settings = b.settings := rfl
@[simp] theorem withDrain_side (b : Buffer α) (d : Option (Drain α)) : (b.withDrain d).side = b.side := rfl
@[simp] theorem withDrain_drain (b : Buffer α) (d : Option (Drain α)) : (b.withDrain d).drain = d := rfl
@[simp] theorem withDrain_store (b : Buffer α) (d : Option (Drain α)) (side : Side) :
    (b.withDrain d).store side = b.store side := by
  cases side <;> rfl

/-- The side that takes no records. -/
def retired (b : Buffer α) : RecordBuffer α := b.store b.side.other

/-- The records a buffer holds, oldest first: those of a drain in flight, then those of the current side. -/
def held (b : Buffer α) : List (Record α) :=
  (match b.drain with
    | some d => (b.store d.side).records
    | none => []) ++ b.current.records

/-! ### Well-formed buffers -/

/-- How far the drain in flight is: it is on the retired side, and has the gate of it from when its
    batch, the records of that side, is being delivered. -/
def Draining (b : Buffer α) : Option (Drain α) → Prop
  | none => b.retired.gate = .opened
  | some d => d.side = b.side.other ∧
    match d.batch with
    | none => b.retired.gate = .opened
    | some batch =>
      b.retired.gate = .taken worker 1 ∧ batch.buffer = b.id ∧ batch.records = b.retired.records

/-- What every step keeps of a buffer, whatever the consumer does. -/
structure Sound (b : Buffer α) : Prop where
  current : b.current.Intact
  retired : b.retired.Intact
  capacity : b.retired.capacity = b.current.capacity
  gate : b.current.gate = .opened
  draining : b.Draining b.drain

/-- What a drain that goes on leaves alone. -/
structure Keeps (b b' : Buffer α) : Prop where
  id : b'.id = b.id
  settings : b'.settings = b.settings
  current : b'.current = b.current

/-- Outside of a drain the retired side is bare. -/
def Cleared (b : Buffer α) : Prop := b.drain = none → b.retired.Bare

theorem Keeps.trans {b' b'' : Buffer α} (h : b.Keeps b') (h' : b'.Keeps b'') : b.Keeps b'' :=
  ⟨h'.id.trans h.id, h'.settings.trans h.settings, h'.current.trans h.current⟩

theorem sound_ofSettings (id : BufferId) (settings : Settings) (handles : SeriesHandles) :
    (ofSettings id settings handles : Buffer α).Sound :=
  ⟨(RecordBuffer.bare_ofCapacity _).intact, (RecordBuffer.bare_ofCapacity _).intact, rfl, rfl, rfl⟩

theorem cleared_ofSettings (id : BufferId) (settings : Settings) (handles : SeriesHandles) :
    (ofSettings id settings handles : Buffer α).Cleared := fun _ => RecordBuffer.bare_ofCapacity _

theorem held_ofSettings (id : BufferId) (settings : Settings) (handles : SeriesHandles) :
    (ofSettings id settings handles : Buffer α).held = [] :=
  (RecordBuffer.bare_ofCapacity settings.size).records

theorem Sound.drain_side (h : b.Sound) {d : Drain α} (hd : b.drain = some d) : d.side = b.side.other := by
  have hdr := h.draining
  rw [hd] at hdr
  exact hdr.1

/-- Both sides hold the same types of records. -/
theorem canHold_current (h : b.Sound) (t : RecordType) : b.canHold t = b.current.canHold t := by
  have hleft : b.left.capacity = b.current.capacity := by
    have hcapacity := h.capacity
    cases hside : b.side with
    | left => simp [current, store, hside]
    | right => simpa [retired, current, store, hside, Side.other] using hcapacity
  rw [canHold, RecordBuffer.canHold, RecordBuffer.canHold, hleft]

theorem held_of_idle (hd : b.drain = none) : b.held = b.current.records := by
  rw [held, hd, List.nil_append]

theorem held_of_busy (h : b.Sound) {d : Drain α} (hd : b.drain = some d) :
    b.held = b.retired.records ++ b.current.records := by
  simp only [held, hd, retired, h.drain_side hd]

/-! ### Storing -/

theorem push_eq (h : b.Sound) (r : Record α) :
    b.push r = (b.modifyStore b.side fun _ => (b.current.push r).1, (b.current.push r).2) := by
  unfold push
  cases hp : b.settings.policy <;> simp [RecordBuffer.tryEmplace_open h.gate, RecordBuffer.emplace?_open h.gate]

/-- The buffer with another current side that keeps its gate open. -/
theorem Sound.withCurrent (h : b.Sound) {store : RecordBuffer α} (hstore : store.Intact) (hgate : store.gate = .opened)
    (hcapacity : store.capacity = b.current.capacity) : (b.modifyStore b.side fun _ => store).Sound := by
  have hret : (b.modifyStore b.side fun _ => store).retired = b.retired := by simp [Buffer.retired]
  have hcur : (b.modifyStore b.side fun _ => store).current = store := by simp [Buffer.current]
  refine ⟨by rwa [hcur], by rw [hret]; exact h.retired, by rw [hret, hcur, hcapacity, h.capacity], by rwa [hcur], ?_⟩
  have hdr := h.draining
  rw [modifyStore_drain]
  unfold Draining at hdr ⊢
  rw [hret, modifyStore_side, modifyStore_id]
  exact hdr

theorem Cleared.withCurrent (h : b.Cleared) (store : RecordBuffer α) :
    (b.modifyStore b.side fun _ => store).Cleared := fun hd => by
  have hret : (b.modifyStore b.side fun _ => store).retired = b.retired := by simp [Buffer.retired]
  rw [hret]
  exact h (by rwa [modifyStore_drain] at hd)

theorem sound_push (h : b.Sound) (r : Record α) : (b.push r).1.Sound := by
  obtain ⟨hi, hg, hcap, -⟩ := RecordBuffer.push_cases (r := r) h.current
  rw [push_eq h]
  exact h.withCurrent hi (hg.trans h.gate) hcap

theorem cleared_push (h : b.Sound) (hc : b.Cleared) (r : Record α) : (b.push r).1.Cleared := by
  rw [push_eq h]
  exact hc.withCurrent _

@[simp] theorem push_id (h : b.Sound) (r : Record α) : (b.push r).1.id = b.id := by rw [push_eq h, modifyStore_id]

/-- A stored record goes behind all that the buffer holds. -/
theorem held_push (h : b.Sound) {r : Record α} (hr : (b.push r).2 = true) : (b.push r).1.held = b.held ++ [r] := by
  obtain ⟨-, -, -, hrec⟩ := RecordBuffer.push_cases (r := r) h.current
  rw [push_eq h] at hr ⊢
  simp only at hr
  rw [hr, if_pos rfl] at hrec
  have hcur : (b.modifyStore b.side fun _ => (b.current.push r).1).current = (b.current.push r).1 := by
    simp [current]
  cases hd : b.drain with
  | none => rw [held_of_idle (by rwa [modifyStore_drain]), hcur, hrec, held_of_idle hd]
  | some d =>
    have hside := h.drain_side hd
    simp only [held, modifyStore_drain, hd, hside, store_modifyStore_other, hcur, hrec, List.append_assoc]

/-- A bare current side stores every record that the buffer can hold. -/
theorem push_of_bare (h : b.Sound) (hbare : b.current.Bare) {r : Record α}
    (hcan : b.current.canHold r.type = true) (halign : r.type.align ∈ alignments) : (b.push r).2 = true := by
  rw [push_eq h]
  exact RecordBuffer.push_of_bare hbare hcan halign

/-! ### Drains -/

theorem current_startDrain (b : Buffer α) : b.startDrain.current = b.retired := rfl

theorem retired_startDrain (b : Buffer α) : b.startDrain.retired = b.current := by
  show b.startDrain.store b.side.other.other = b.store b.side
  rw [Side.other_other]
  cases b.side <;> rfl

theorem sound_startDrain (h : b.Sound) (hd : b.drain = none) : b.startDrain.Sound := by
  have hdr := h.draining
  rw [hd] at hdr
  refine ⟨h.retired, ?_, ?_, hdr, ?_, ?_⟩
  · rw [retired_startDrain]
    exact h.current
  · rw [retired_startDrain, current_startDrain, h.capacity]
  · simp [startDrain]
  · show b.startDrain.retired.gate = .opened
    rw [retired_startDrain]
    exact h.gate

theorem cleared_startDrain (b : Buffer α) : b.startDrain.Cleared := fun hd => by cases hd

/-- Turning the sides over changes nothing of what is held, since the side that comes up is bare. -/
theorem held_startDrain (h : b.Sound) (hc : b.Cleared) (hd : b.drain = none) : b.startDrain.held = b.held := by
  rw [held_of_busy (sound_startDrain h hd) rfl, retired_startDrain, current_startDrain, (hc hd).records,
    List.append_nil, held_of_idle hd]

/-- A drain that enters takes the open gate of its side and gathers the records there; one that has
    entered stays as it is. -/
theorem enterDrain_cases (h : b.Sound) :
    (b.enterDrain = b ∧ ∀ d, b.drain = some d → d.batch.isSome = true) ∨
      (b.drain = some { side := b.side.other } ∧
        b.enterDrain = (b.modifyStore b.side.other fun store => { store with gate := .taken worker 1 }).withDrain
          (some { side := b.side.other, batch := some (b.batch b.side.other) })) := by
  cases hd : b.drain with
  | none => exact Or.inl ⟨by simp [enterDrain, hd], fun _ h => by cases h⟩
  | some d =>
    obtain ⟨side, batch⟩ := d
    have hside : side = b.side.other := h.drain_side hd
    subst hside
    cases batch with
    | some batch => exact Or.inl ⟨by simp [enterDrain, hd], fun _ h => by cases h; rfl⟩
    | none =>
      have hdr := h.draining
      rw [hd] at hdr
      have hlock : b.retired.lock? worker = some { b.retired with gate := .taken worker 1 } :=
        RecordBuffer.lock?_taken (n := 0) hdr.2
      refine Or.inr ⟨rfl, ?_⟩
      simp only [retired] at hlock
      cases hs : b.side <;> rw [hs] at hlock hd <;>
        simp_all [enterDrain, modifyStore, store, withDrain, Side.other]

/-- What entering keeps: it only shuts the gate of the side it drains. -/
theorem enterDrain_kept (h : b.Sound) :
    b.enterDrain.Sound ∧ b.Keeps b.enterDrain ∧ b.enterDrain.held = b.held ∧ b.enterDrain.isBusy = b.isBusy := by
  rcases enterDrain_cases h with ⟨heq, -⟩ | ⟨hd, heq⟩
  · rw [heq]
    exact ⟨h, ⟨rfl, rfl, rfl⟩, rfl, rfl⟩
  · have hcur : b.enterDrain.current = b.current := by
      rw [heq]
      simp [current]
    have hret : b.enterDrain.retired = { b.retired with gate := .taken worker 1 } := by
      rw [heq]
      simp [retired]
    have hsound : b.enterDrain.Sound := by
      refine ⟨by rw [hcur]; exact h.current, by rw [hret]; exact h.retired.gate _, by rw [hret, hcur]; exact h.capacity,
        by rw [hcur]; exact h.gate, ?_⟩
      unfold Draining
      rw [hret, heq]
      exact ⟨by simp, rfl, by simp [batch], rfl⟩
    refine ⟨hsound, ⟨by rw [heq]; simp, by rw [heq]; simp, hcur⟩, ?_, by rw [heq]; simp [isBusy, hd]⟩
    rw [held_of_busy hsound (by rw [heq]; rfl), hcur, hret, held_of_busy h hd]
    rfl

/-- After entering, a drain in flight has its batch. -/
theorem enterDrain_delivering (h : b.Sound) (hb : b.isBusy = true) :
    ∃ batch, b.enterDrain.drain = some { side := b.side.other, batch := some batch } := by
  obtain ⟨⟨side, batch⟩, hd⟩ := Option.isSome_iff_exists.mp hb
  have hside : side = b.side.other := h.drain_side hd
  subst hside
  rcases enterDrain_cases h with ⟨heq, hsome⟩ | ⟨-, heq⟩
  · obtain ⟨batch', rfl⟩ := Option.isSome_iff_exists.mp (hsome _ hd)
    exact ⟨batch', by rw [heq, hd]⟩
  · exact ⟨_, by rw [heq]; rfl⟩

/-- What the end of a drain leaves: the batch is what its side held, and that side is bare once it was
    accepted. -/
theorem endDrain_kept (h : b.Sound) {batch : Batch α} (hd : b.drain = some { side := b.side.other, batch := some batch })
    (accepted : Bool) :
    (b.endDrain accepted).Sound ∧ b.Keeps (b.endDrain accepted) ∧ (b.endDrain accepted).drain = none ∧
      (accepted = true → (b.endDrain accepted).retired.Bare) ∧ batch.buffer = b.id ∧
      b.held = batch.records ++ (b.endDrain accepted).held := by
  have hdr := h.draining
  rw [hd] at hdr
  obtain ⟨-, hgate, hid, hrec⟩ := hdr
  have heq : b.endDrain accepted =
      (b.modifyStore b.side.other fun store => (if accepted then store.empty else store).unlock worker).withDrain none := by
    simp only [endDrain, hd]
    rfl
  have hcur : (b.endDrain accepted).current = b.current := by
    rw [heq]
    simp [current]
  have hret : (b.endDrain accepted).retired = (if accepted then b.retired.empty else b.retired).unlock worker := by
    rw [heq]
    simp [retired]
  have hunlock : (b.endDrain accepted).retired =
      { (if accepted then b.retired.empty else b.retired) with gate := .opened } := by
    rw [hret]
    apply RecordBuffer.unlock_taken (n := 0)
    cases accepted <;> simpa using hgate
  have hnone : (b.endDrain accepted).drain = none := by
    rw [heq]
    rfl
  have hbare : b.retired.empty.Bare := h.retired.bare_empty
  refine ⟨⟨by rw [hcur]; exact h.current, ?_, ?_, by rw [hcur]; exact h.gate, ?_⟩,
    ⟨by rw [heq]; simp, by rw [heq]; simp, hcur⟩, hnone, ?_, hid, ?_⟩
  · rw [hunlock]
    cases accepted
    · exact h.retired.gate _
    · exact hbare.intact.gate _
  · rw [hunlock, hcur, ← h.capacity]
    cases accepted
    · rfl
    · exact RecordBuffer.capacity_empty h.retired.read
  · rw [hnone]
    show (b.endDrain accepted).retired.gate = .opened
    rw [hunlock]
  · rintro rfl
    rw [hunlock]
    exact hbare.gate _
  · rw [held_of_busy h hd, held_of_idle hnone, hcur, hrec]

end Buffer

end PerfCounters
