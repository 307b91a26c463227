import PerfCounters.Proofs.Buffering.Closing
import PerfCounters.Proofs.Buffering.Outcomes
import PerfCounters.Proofs.Buffering.Quota

/-! How full a buffer is. Each of its sides has one header for each record, and its bytes are those of the records and
    what alignment has left out between them; so a side without records is bare, and whether a record is stored
    depends on the bytes in use, whatever drains are in flight. -/

namespace PerfCounters

open Service

variable {α : Type}

theorem RecordType.powerAligned_of_mem {t : RecordType} (h : t.align ∈ alignments) : t.PowerAligned := by
  have hpower : ∀ a ∈ alignments, ∃ k < 7, a = 2 ^ k := by decide
  obtain ⟨k, -, hk⟩ := hpower _ h
  exact ⟨k, hk⟩

namespace RecordBuffer

variable {b : RecordBuffer α} {r : Record α}

/-- A cell was taken for each record, with eight bytes or more in use for each. -/
structure Tight (b : RecordBuffer α) : Prop where
  room : 8 * b.taken ≤ b.arena.ring.write
  listed : b.records.length = b.taken
  unused : b.taken = 0 → b.arena.ring.write = 0

theorem Bare.tight (h : b.Bare) : b.Tight :=
  ⟨by rw [h.taken]; exact Nat.zero_le _, by rw [h.records, h.taken]; rfl, fun _ => h.write⟩

theorem Tight.gate (h : b.Tight) (g : Gate) : ({ b with gate := g } : RecordBuffer α).Tight :=
  ⟨h.room, h.listed, h.unused⟩

theorem Tight.unlock (h : b.Tight) (t : Thread) : (b.unlock t).Tight := h.gate _

/-- A side without records has nothing in use. -/
theorem Tight.bare (h : b.Tight) (hi : b.Intact) (hnone : b.records = []) : b.Bare := by
  have htaken : b.taken = 0 := by rw [← h.listed, hnone]; rfl
  exact ⟨hi.read, h.unused htaken, htaken, hi.cells, hi.blank⟩

theorem Tight.packed (h : b.Tight) (hi : b.Intact) (hgate : b.gate = .opened) : b.Packed :=
  ⟨hgate, hi.read, hi.write, hi.cells, h.room, hi.blank⟩

theorem push_unaligned (h : r.type.align ∉ alignments) : b.push r = (b, false) := by
  have hadmits : b.arena.ring.admits r.type.footprint r.type.align = false :=
    Bool.eq_false_iff.mpr fun hadmits => h (Ring.admits_iff.mp hadmits).2.2
  simp [push, Arena.put, Ring.request, hadmits]

theorem Tight.push (h : b.Tight) (hi : b.Intact) (hgate : b.gate = .opened) : (b.push r).1.Tight := by
  by_cases halign : r.type.align ∈ alignments
  · obtain ⟨-, -, -, hrecords⟩ := push_cases (r := r) hi
    have hpush := push_eq (h.packed hi hgate) r (RecordType.powerAligned_of_mem halign)
    split at hpush
    · rename_i hroom
      rw [hpush] at hrecords ⊢
      have hstored := (h.packed hi hgate).stored r (alignments_pos halign) hroom.2
      refine ⟨hstored.room, ?_, fun hempty => absurd hempty (Nat.succ_ne_zero b.taken)⟩
      rw [hrecords, if_pos rfl, List.length_append, h.listed]
      rfl
    · rw [hpush]
      exact h
  · rw [push_unaligned halign]
    exact h

/-- A record is stored if it fits behind the bytes in use, rounded up to its alignment. -/
theorem push_stores_iff (h : b.Tight) (hi : b.Intact) (hgate : b.gate = .opened) (halign : r.type.PowerAligned) :
    (b.push r).2 = true ↔
      r.type.align ≤ 64 ∧ roundUp b.count r.type.align + max r.type.size 8 ≤ b.capacity := by
  have hcount : b.count = b.arena.ring.write := by
    show b.arena.ring.write - b.arena.ring.read = b.arena.ring.write
    rw [hi.read, Nat.sub_zero]
  rw [push_eq (h.packed hi hgate) r halign, hcount]
  show (if r.type.align ≤ 64 ∧ roundUp b.arena.ring.write r.type.align + max r.type.size 8 ≤ b.capacity then
    (b.stored r, true) else (b, false)).2 = true ↔ _
  split <;> simp_all

end RecordBuffer

namespace Buffer

variable {b b' : Buffer α} {r : Record α} {t : RecordType} {ds : List (Delivery α)}

/-- Both sides are tight, and as large as the settings say, which is not nothing. -/
structure Measured (b : Buffer α) : Prop where
  current : b.current.Tight
  retired : b.retired.Tight
  capacity : b.current.capacity = b.settings.size
  positive : 0 < b.settings.size

theorem measured_ofSettings {settings : Settings} (id : BufferId) (handles : SeriesHandles) (h : settings.fault? = none) :
    (ofSettings id settings handles : Buffer α).Measured := by
  have hsize : settings.size ≠ 0 := fun hzero => by simp [Settings.fault?, hzero] at h
  refine ⟨(RecordBuffer.bare_ofCapacity _).tight, (RecordBuffer.bare_ofCapacity _).tight, ?_, Nat.pos_of_ne_zero hsize⟩
  show max settings.size 1 = settings.size
  omega

theorem retired_enterDrain_tight (hs : b.Sound) (h : b.retired.Tight) : b.enterDrain.retired.Tight := by
  rcases enterDrain_cases hs with ⟨heq, -⟩ | ⟨-, heq⟩
  · rwa [heq]
  · have hret : b.enterDrain.retired = { b.retired with gate := .taken worker 1 } := by
      rw [heq]
      simp [Buffer.retired]
    rw [hret]
    exact h.gate _

theorem retired_endDrain_tight (hs : b.Sound) (h : b.retired.Tight) {batch : Batch α}
    (hd : b.drain = some { side := b.side.other, batch := some batch }) (accepted : Bool) :
    (b.endDrain accepted).retired.Tight := by
  cases accepted with
  | true => exact ((endDrain_kept hs hd true).2.2.2.1 rfl).tight
  | false =>
    have hret : (b.endDrain false).retired = b.retired.unlock worker := by
      have heq : b.endDrain false = (b.modifyStore b.side.other fun store => store.unlock worker).withDrain none := by
        simp only [endDrain, hd]
        rfl
      rw [heq]
      simp [Buffer.retired]
    rw [hret]
    exact h.unlock _

theorem Measured.turns (h : b.Measured) (hs : b.Sound) (hturns : b.Turns b' ds) : b'.Measured := by
  cases hturns with
  | rest => exact h
  | start hd =>
    refine ⟨h.retired, ?_, hs.capacity.trans h.capacity, h.positive⟩
    rw [retired_startDrain]
    exact h.current
  | enter =>
    obtain ⟨-, hkeeps, -, -⟩ := enterDrain_kept hs
    exact ⟨by rw [hkeeps.current]; exact h.current, retired_enterDrain_tight hs h.retired,
      by rw [hkeeps.current, hkeeps.settings]; exact h.capacity, by rw [hkeeps.settings]; exact h.positive⟩
  | finish accepted hd =>
    obtain ⟨hsound, hkeeps, -, -⟩ := enterDrain_kept hs
    have hall := hkeeps.trans (endDrain_kept hsound hd accepted).2.1
    exact ⟨by rw [hall.current]; exact h.current,
      retired_endDrain_tight hsound (retired_enterDrain_tight hs h.retired) hd accepted,
      by rw [hall.current, hall.settings]; exact h.capacity, by rw [hall.settings]; exact h.positive⟩

theorem current_push (hs : b.Sound) (r : Record α) : (b.push r).1.current = (b.current.push r).1 := by
  rw [push_eq hs]
  simp [Buffer.current]

theorem retired_push (hs : b.Sound) (r : Record α) : (b.push r).1.retired = b.retired := by
  rw [push_eq hs]
  simp [Buffer.retired]

theorem Measured.push (h : b.Measured) (hs : b.Sound) (r : Record α) : (b.push r).1.Measured := by
  obtain ⟨-, -, hcapacity, -⟩ := RecordBuffer.push_cases (r := r) hs.current
  refine ⟨?_, by rw [retired_push hs]; exact h.retired, ?_, by rw [push_settings hs]; exact h.positive⟩
  · rw [current_push hs]
    exact h.current.push hs.current hs.gate
  · rw [current_push hs, hcapacity, h.capacity, push_settings hs]

/-- A buffer can hold the records whose type fits its size. -/
theorem Measured.canHold_iff (h : b.Measured) (hs : b.Sound) :
    b.canHold t = true ↔ max t.size 8 ≤ b.settings.size ∧ t.align ≤ 64 := by
  rw [canHold_current hs, ← h.capacity]
  simp [RecordBuffer.canHold, RecordType.footprint, RecordType.minFootprint]

theorem Measured.push_stores_iff (h : b.Measured) (hs : b.Sound) (halign : r.type.PowerAligned) :
    (b.push r).2 = true ↔
      r.type.align ≤ 64 ∧ roundUp b.pending r.type.align + max r.type.size 8 ≤ b.settings.size := by
  rw [push_eq hs, ← h.capacity]
  exact RecordBuffer.push_stores_iff h.current hs.current hs.gate halign

end Buffer

namespace Session

variable {s s' : Session α} {id : BufferId} {b : Buffer α}

/-- What every run keeps of the bytes of its buffers. -/
def Measured (s : Session α) : Prop := ∀ id b, s.service.buffer? id = some b → b.Measured

theorem measured_ofReplies (replies : List Reply) : (ofReplies replies : Session α).Measured := fun _ _ h => by cases h

theorem Measured.step (h : s.Measured) (hregular : s.Regular) (e : Event α) : (s.step e).Measured := by
  intro id b' hb'
  cases (hregular.happens e).changes hregular.sound id with
  | turned hturned =>
    cases hturned with
    | absent _ hnone => rw [hnone] at hb'; cases hb'
    | buffer hb hb'' hturns =>
      rw [hb''] at hb'
      cases hb'
      exact (h id _ hb).turns (hregular.sound.sound hb) hturns
  | configured hnew =>
    obtain ⟨settings, handles, hfault, hb'', -⟩ := hnew.buffer
    rw [hb''] at hb'
    cases hb'
    exact Buffer.measured_ofSettings _ _ hfault
  | forgotten _ hgone => rw [hgone] at hb'; cases hb'
  | stored hb _ hb'' =>
    rw [hb''] at hb'
    cases hb'
    exact (h id _ hb).push (hregular.sound.sound hb) _
  | dropped hb _ _ hb'' =>
    have hmeasured := h id _ hb
    rw [hb''] at hb'
    cases hb'
    exact ⟨hmeasured.current, hmeasured.retired, hmeasured.capacity, hmeasured.positive⟩

theorem Measured.run (h : s.Measured) (hregular : s.Regular) (events : List (Event α)) : (s.run events).Measured :=
  hregular.run_keeps Measured.step h events

/-- A buffer on whose batches the consumer has never failed has nothing on its retired side while no drain is in
flight. -/
theorem cleared_of_accepted (h : s.Kept) (hmeasured : s.Measured) (hb : s.service.buffer? id = some b)
    (haccepted : ∀ d ∈ s.service.handed id, d.accepted = true) : b.Cleared := by
  intro hidle
  have hnone : s.service.refused id = 0 := by
    rw [Service.refused, Delivery.recordsOf, List.filter_eq_nil_iff.mpr]
    · rfl
    · intro d hd
      simp [haccepted d hd]
  have hle := h.accounted.seen hb hidle
  rw [hnone, Multiset.le_zero, Multiset.coe_eq_zero] at hle
  exact (hmeasured id b hb).retired.bare (h.regular.sound.sound hb).retired hle

end Session

end PerfCounters
