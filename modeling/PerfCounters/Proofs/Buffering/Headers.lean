import PerfCounters.Proofs.Buffering.Exclusion
import PerfCounters.Proofs.Buffering.Fill

/-! The headers of a record buffer outlast its ring. The bytes and the headers are counted by cursors of their own, but
    every record takes up eight bytes at least, what alignment leaves out comes on top, and emptying puts both
    cursors back. So wherever the ring has a slot left there is a header left for it. -/

namespace PerfCounters

namespace RecordBuffer

variable {α : Type} {b : RecordBuffer α} {t : RecordType} {ring : Ring} {slot : Slot}

/-- The buffer after some calls; `none` says that one of them waits. -/
def after? (b : RecordBuffer α) (ops : List (Op α)) : Option (RecordBuffer α) :=
  ops.foldlM (fun b op => (b.perform op).map Prod.fst) b

/-- The headers last as long as the bytes. -/
structure Headed (b : RecordBuffer α) : Prop where
  /-- The next header is within the bytes in use, at eight bytes for each. -/
  room : 8 * b.taken ≤ b.count
  filled : b.count ≤ b.capacity
  /-- A slot that is granted has a header, and leaves as much room for the next one. -/
  granted : ∀ t ring slot, b.arena.ring.request (RecordType.footprint t) t.align false = (ring, some slot) →
    b.taken < b.headerLimit ∧ 8 * (b.taken + 1) ≤ ring.count
  /-- A record is stored if it is given a slot, and a slot is not given in vain. -/
  stores : ∀ r, (b.push r).2 = (b.arena.ring.request r.type.footprint r.type.align false).2.isSome

/-- What every call keeps. -/
structure Regular (b : RecordBuffer α) : Prop where
  intact : b.Intact
  tight : b.Tight
  gate : b.gate = .opened

theorem Bare.regular (h : b.Bare) (hgate : b.gate = .opened) : b.Regular := ⟨h.intact, h.tight, hgate⟩

theorem Regular.push (h : b.Regular) (r : Record α) : (b.push r).1.Regular ∧ (b.push r).1.capacity = b.capacity := by
  obtain ⟨hintact, hgate, hcapacity, -⟩ := push_cases (r := r) h.intact
  exact ⟨⟨hintact, h.tight.push h.intact h.gate, hgate.trans h.gate⟩, hcapacity⟩

theorem Regular.empty (h : b.Regular) : b.empty.Regular ∧ b.empty.capacity = b.capacity :=
  ⟨h.intact.bare_empty.regular h.gate, capacity_empty h.intact.read⟩

/-- No call waits: what takes the gate gives it back. -/
theorem Regular.perform (h : b.Regular) (op : Op α) :
    ∃ b' reply, b.perform op = some (b', reply) ∧ b'.Regular ∧ b'.capacity = b.capacity := by
  cases op with
  | emplace r =>
    refine ⟨(b.push r).1, .stored (b.push r).2, ?_, h.push r⟩
    rw [RecordBuffer.perform, emplace?_open h.gate]
    rfl
  | tryEmplace r =>
    refine ⟨(b.push r).1, .stored (b.push r).2, ?_, h.push r⟩
    rw [RecordBuffer.perform, tryEmplace_open h.gate]
    rfl
  | process t clearAfter =>
    refine ⟨if clearAfter then b.empty else b, .passed b.records, ?_, ?_⟩
    · rw [RecordBuffer.perform, process?_taken (n := 0) h.gate]
      rfl
    · cases clearAfter with
      | false => exact ⟨h, rfl⟩
      | true => exact h.empty
  | clear t =>
    refine ⟨b.empty, .cleared, ?_, h.empty⟩
    rw [RecordBuffer.perform, clear?_taken (n := 0) h.gate]
    rfl

theorem Regular.after (h : b.Regular) (ops : List (Op α)) :
    ∃ b', b.after? ops = some b' ∧ b'.Regular ∧ b'.capacity = b.capacity := by
  induction ops generalizing b with
  | nil => exact ⟨b, rfl, h, rfl⟩
  | cons op ops ih =>
    obtain ⟨b₁, reply, hstep, h₁, hcapacity₁⟩ := h.perform op
    obtain ⟨b₂, hrest, h₂, hcapacity₂⟩ := ih h₁
    refine ⟨b₂, ?_, h₂, hcapacity₂.trans hcapacity₁⟩
    rw [after?, List.foldlM_cons, hstep]
    exact hrest

/-- A slot that is granted ends eight bytes or more behind the bytes that were in use. -/
theorem Intact.granted (h : b.Intact) (hrequest : b.arena.ring.request t.footprint t.align false = (ring, some slot)) :
    b.count + 8 ≤ ring.count ∧ ring.count ≤ b.capacity := by
  have hpos := t.footprint_pos
  obtain ⟨start, hadmits, -, -, -⟩ := (Ring.request_cases b.arena.ring t.footprint t.align false).resolve_left
    fun hnone => by rw [hrequest] at hnone; cases hnone
  obtain ⟨-, -, halign⟩ := Ring.admits_iff.mp hadmits
  have hup := le_roundUp b.arena.ring.write (alignments_pos halign)
  rw [Ring.request_unread h.read h.write (by omega) halign] at hrequest
  split at hrequest
  · rename_i hroom
    cases hrequest
    have hread := h.read
    simp only [count, capacity, Ring.count]
    omega
  · cases hrequest

theorem Regular.header (h : b.Regular) (hrequest : b.arena.ring.request t.footprint t.align false = (ring, some slot)) :
    b.taken < b.headerLimit ∧ 8 * (b.taken + 1) ≤ ring.count := by
  obtain ⟨hcount, hcapacity⟩ := h.intact.granted hrequest
  have hroom := h.tight.room
  have hread := h.intact.read
  have hlimit := h.intact.cells
  have hused : b.count = b.arena.ring.write - b.arena.ring.read := rfl
  omega

theorem Regular.headed (h : b.Regular) : b.Headed where
  room := by
    have hroom := h.tight.room
    rwa [← Nat.sub_zero b.arena.ring.write, ← h.intact.read] at hroom
  filled := (Nat.sub_le _ _).trans h.intact.write
  granted _ _ _ hrequest := h.header hrequest
  stores r := by
    unfold RecordBuffer.push Arena.put
    rcases hrequest : b.arena.ring.request r.type.footprint r.type.align false with ⟨ring, slot | slot⟩
    · rfl
    · simp only [(h.header hrequest).1, if_true, Option.isSome_some]

/-- Whatever is stored, read and cleared, and of whatever sizes and alignments: no call waits, there are as many headers
    as eights of bytes, a last part of one included, and they last as long as the bytes. -/
theorem run_headers_last (capacity : Nat) (ops : List (Op α)) :
    ∃ b, (ofCapacity capacity).after? ops = some b ∧ b.capacity = max capacity 1 ∧
      b.headerLimit = (max capacity 1 + 7) / 8 ∧ b.Headed := by
  have hstart : (ofCapacity capacity : RecordBuffer α).Regular := (bare_ofCapacity capacity).regular rfl
  obtain ⟨b, hrun, h, hcapacity⟩ := hstart.after ops
  have hcapacity : b.capacity = max capacity 1 := hcapacity
  refine ⟨b, hrun, hcapacity, ?_, h.headed⟩
  rw [← hcapacity]
  exact h.intact.cells

end RecordBuffer

end PerfCounters
