import Mathlib.Algebra.Group.Nat.Defs
import Mathlib.Data.List.Forall2
import PerfCounters.Proofs.Lists
import PerfCounters.Proofs.Rings.Bytes
import PerfCounters.Proofs.Rings.Placement

/-! A record buffer is a list with a budget of bytes. A record is stored if the budget holds it behind the others,
    rounded up to its alignment; reading gives the list, and clearing empties it. The slots of the listed
    records lie one behind the other, so a record keeps the bytes it was written as, too. -/

namespace PerfCounters

/-- The alignment is a power of two, as that of every type is. -/
def RecordType.PowerAligned (t : RecordType) : Prop := ∃ k, t.align = 2 ^ k

theorem RecordType.PowerAligned.mem_alignments {t : RecordType} (h : t.PowerAligned) :
    t.align ∈ alignments ↔ t.align ≤ 64 :=
  mem_alignments_iff.trans (and_iff_right h)

theorem RecordType.footprint_pos (t : RecordType) : 8 ≤ t.footprint := Nat.le_max_right _ _

namespace RecordBuffer

/-- What can be asked of a buffer. -/
inductive Op (α : Type) where
  | emplace (r : Record α)
  | tryEmplace (r : Record α)
  | process (t : Thread) (clearAfter : Bool)
  | clear (t : Thread)
deriving DecidableEq, Repr

inductive Reply (α : Type) where
  | stored (success : Bool)
  | passed (records : List (Record α))
  | cleared
deriving DecidableEq, Repr

variable {α : Type}

/-- The types of its records have powers of two for alignments. -/
def Op.Proper : Op α → Prop
  | .emplace r | .tryEmplace r => r.type.PowerAligned
  | .process _ _ | .clear _ => True

/-- The buffer holds nothing after this. -/
def Op.Clears : Op α → Prop
  | .process _ clearAfter => clearAfter = true
  | .clear _ => True
  | .emplace _ | .tryEmplace _ => False

/-- One call; `none` says that it waits. -/
def perform (b : RecordBuffer α) : Op α → Option (RecordBuffer α × Reply α)
  | .emplace r => (b.emplace? r).map fun x => x.map id .stored
  | .tryEmplace r => some ((b.tryEmplace r).map id .stored)
  | .process t clearAfter => (b.process? t clearAfter).map fun x => x.map id .passed
  | .clear t => (b.clear? t).map fun b' => (b', .cleared)

/-- A buffer with the bytes of its arena. -/
structure WithBytes (α : Type) where
  buffer : RecordBuffer α
  bytes : Memory

namespace WithBytes

/-- A new buffer, in whose arena anything may lie. -/
def ofCapacity (capacity : Nat) (bytes : Memory) : WithBytes α := ⟨RecordBuffer.ofCapacity capacity, bytes⟩

/-- The bytes of a payload that `code` spells out: no more than its type has. -/
def image (code : Record α → List UInt8) (r : Record α) : List UInt8 := (code r).take r.type.size

/-- The bytes after a record was stored: it is written where the last cell that was taken says. -/
def writeLast (b : RecordBuffer α) (code : Record α → List UInt8) (r : Record α) (bytes : Memory) : Memory :=
  match b.written.getLast?.bind Header.payload with
  | some p => bytes.write p.offset (image code r)
  | none => bytes

/-- The bytes after a call: it writes the record that it has stored. -/
def bytesAfter (s : WithBytes α) (code : Record α → List UInt8) (b : RecordBuffer α) : Op α → Reply α → Memory
  | .emplace r, .stored true | .tryEmplace r, .stored true => writeLast b code r s.bytes
  | _, _ => s.bytes

def perform (s : WithBytes α) (code : Record α → List UInt8) (op : Op α) : Option (WithBytes α × Reply α) :=
  (s.buffer.perform op).map fun x => (⟨x.1, s.bytesAfter code x.1 op x.2⟩, x.2)

def run (s : WithBytes α) (code : Record α → List UInt8) : List (Op α) → Option (WithBytes α × List (Reply α))
  | [] => some (s, [])
  | op :: ops => do
    let (s, reply) ← s.perform code op
    let (s, replies) ← s.run code ops
    return (s, reply :: replies)

end WithBytes

end RecordBuffer

/-- A list of records with a budget of bytes, of which so many are used up. -/
structure Quota (α : Type) where
  capacity : Nat
  fill : Nat := 0
  records : List (Record α) := []

namespace Quota

variable {α : Type}

def Fits (q : Quota α) (t : RecordType) : Prop :=
  t.align ≤ 64 ∧ roundUp q.fill t.align + max t.size 8 ≤ q.capacity

instance (q : Quota α) (t : RecordType) : Decidable (q.Fits t) := inferInstanceAs (Decidable (_ ∧ _))

def store (q : Quota α) (r : Record α) : Quota α × Bool :=
  if q.Fits r.type then
    ({ q with fill := roundUp q.fill r.type.align + max r.type.size 8, records := q.records ++ [r] }, true)
  else (q, false)

def empty (q : Quota α) : Quota α := { q with fill := 0, records := [] }

def perform (q : Quota α) : RecordBuffer.Op α → Quota α × RecordBuffer.Reply α
  | .emplace r | .tryEmplace r => (q.store r).map id .stored
  | .process _ clearAfter => (if clearAfter then q.empty else q, .passed q.records)
  | .clear _ => (q.empty, .cleared)

def run (q : Quota α) : List (RecordBuffer.Op α) → Quota α × List (RecordBuffer.Reply α)
  | [] => (q, [])
  | op :: ops =>
    let (q, reply) := q.perform op
    let (q, replies) := q.run ops
    (q, reply :: replies)

end Quota

/-! ### A slot behind the others -/

/-- In a ring that nothing was taken back from, a slot lies at the write cursor, rounded up, if it ends within the
    capacity. -/
theorem Ring.request_unread {r : Ring} {length align : Nat} (hread : r.read = 0) (hwrite : r.write ≤ r.capacity)
    (hpos : 0 < length) (halign : align ∈ alignments) :
    r.request length align false = if roundUp r.write align + length ≤ r.capacity then
      ({ r with write := roundUp r.write align + length }, some ⟨roundUp r.write align, length⟩) else (r, none) := by
  have hup := le_roundUp r.write (alignments_pos halign)
  by_cases hroom : roundUp r.write align + length ≤ r.capacity
  · have hadmits : r.admits length align = true := admits_iff.mpr ⟨hpos, by omega, halign⟩
    have hmod : r.write % r.capacity = r.write := Nat.mod_eq_of_lt (by omega)
    have hplace : r.place? r.write length align false = some (roundUp r.write align) := by
      simp only [place?, hmod, hroom, if_true]
      congr 1
      omega
    have hslot : roundUp r.write align % r.capacity = roundUp r.write align := Nat.mod_eq_of_lt (by omega)
    rw [if_pos hroom, request, if_pos hadmits, hplace]
    simp only [slotAt, hslot, hread]
    rw [if_neg (by omega)]
  · rw [if_neg hroom]
    rcases request_cases r length align false with hreq | ⟨start, hadmits, hplace, hfits, -⟩
    · exact hreq
    · exfalso
      obtain ⟨-, hlen, -⟩ := admits_iff.mp hadmits
      have hle := (place?_eq_some hpos hlen (alignments_pos halign) hplace).1
      have hmod : r.write % r.capacity = r.write := Nat.mod_eq_of_lt (by omega)
      simp [place?, hmod, hroom] at hplace

namespace RecordBuffer

variable {α : Type} {b : RecordBuffer α} {r : Record α}

/-- What every call keeps: nothing was taken back from the ring, its bytes hold eight for each cell that was taken, there
    are cells for all of them, and those that were not taken are blank. -/
structure Packed (b : RecordBuffer α) : Prop where
  gate : b.gate = .opened
  read : b.arena.ring.read = 0
  write : b.arena.ring.write ≤ b.arena.ring.capacity
  cells : b.headerLimit = (b.capacity + 7) / 8
  room : 8 * b.taken ≤ b.arena.ring.write
  blank : b.BlankBehind

theorem Packed.taken_le (h : b.Packed) : b.taken ≤ b.headerLimit := by
  have hroom := Nat.le_trans h.room h.write
  rw [h.cells, capacity]
  omega

/-- The buffer with a record behind the others. -/
def stored (b : RecordBuffer α) (r : Record α) : RecordBuffer α :=
  let start := roundUp b.arena.ring.write r.type.align
  b.withHeader ⟨{ b.arena.ring with write := start + r.type.footprint }, b.arena.cells.insert start r.value⟩
    (r.header start)

theorem push_eq (h : b.Packed) (r : Record α) (halign : r.type.PowerAligned) :
    b.push r = if r.type.align ≤ 64 ∧ roundUp b.arena.ring.write r.type.align + r.type.footprint ≤ b.capacity then
      (b.stored r, true) else (b, false) := by
  have hpos := r.type.footprint_pos
  by_cases hle : r.type.align ≤ 64
  · have hmem := halign.mem_alignments.mpr hle
    have hup := le_roundUp b.arena.ring.write (alignments_pos hmem)
    unfold push Arena.put
    rw [Ring.request_unread h.read h.write (by omega) hmem]
    by_cases hroom : roundUp b.arena.ring.write r.type.align + r.type.footprint ≤ b.capacity
    · have hlimit : b.taken < b.headerLimit := by
        have := h.room
        rw [h.cells]
        omega
      have hroom' : roundUp b.arena.ring.write r.type.align + r.type.footprint ≤ b.arena.ring.capacity := hroom
      simp only [hroom', hroom, hle, hlimit, and_self, if_true]
      rfl
    · have hroom' : ¬roundUp b.arena.ring.write r.type.align + r.type.footprint ≤ b.arena.ring.capacity := hroom
      simp only [hroom', hroom, and_false, if_false]
  · have hadmits : b.arena.ring.admits r.type.footprint r.type.align = false := by
      rw [Bool.eq_false_iff]
      intro hadmits
      exact hle (le_of_mem_alignments (Ring.admits_iff.mp hadmits).2.2)
    simp [push, Arena.put, Ring.request, hadmits, hle]

theorem Packed.stored (h : b.Packed) (r : Record α) (halign : 0 < r.type.align)
    (hroom : roundUp b.arena.ring.write r.type.align + r.type.footprint ≤ b.capacity) : (b.stored r).Packed := by
  have hup := le_roundUp b.arena.ring.write halign
  have hpos := r.type.footprint_pos
  have hbefore := h.room
  refine ⟨h.gate, h.read, hroom, (Array.size_setIfInBounds ..).trans h.cells, ?_, h.blank.withHeader⟩
  show 8 * (b.taken + 1) ≤ roundUp b.arena.ring.write r.type.align + r.type.footprint
  omega

/-- Of a record that fits, the header is the next one to be read. -/
theorem Packed.written_stored (h : b.Packed) (r : Record α) (halign : 0 < r.type.align)
    (hroom : roundUp b.arena.ring.write r.type.align + r.type.footprint ≤ b.capacity) :
    (b.stored r).written = b.written ++ [r.header (roundUp b.arena.ring.write r.type.align)] := by
  have hup := le_roundUp b.arena.ring.write halign
  have hpos := r.type.footprint_pos
  have hbefore := h.room
  refine written_withHeader ?_ _ _
  rw [h.cells]
  omega

theorem Packed.writeLast_stored (h : b.Packed) (halign : 0 < r.type.align)
    (hroom : roundUp b.arena.ring.write r.type.align + r.type.footprint ≤ b.capacity) (code : Record α → List UInt8)
    (bytes : Memory) : WithBytes.writeLast (b.stored r) code r bytes =
      bytes.write (roundUp b.arena.ring.write r.type.align) (WithBytes.image code r) := by
  rw [WithBytes.writeLast, h.written_stored r halign hroom, List.getLast?_concat]
  rfl

theorem Packed.bare_empty (h : b.Packed) : b.empty.Bare :=
  RecordBuffer.bare_empty h.read h.cells h.blank

theorem packed_empty (h : b.Packed) : b.empty.Packed :=
  ⟨h.gate, h.bare_empty.read, by rw [h.bare_empty.write]; exact Nat.zero_le _, h.bare_empty.cells,
    by rw [h.bare_empty.taken]; exact Nat.zero_le _, h.bare_empty.blank⟩

namespace WithBytes

variable {code : Record α → List UInt8} {s : WithBytes α} {q : Quota α} {op : Op α} {header : Header}
  {r : Record α} {offset : Nat}

/-- A record lies at this offset: its value, and the bytes that were written for it. -/
structure Holds (s : WithBytes α) (code : Record α → List UInt8) (r : Record α) (offset : Nat) : Prop where
  value : s.buffer.arena.get? offset = some r.value
  below : offset + r.type.footprint ≤ s.buffer.arena.ring.write
  bytes : s.bytes.read offset (image code r).length = image code r

/-- A header describes this record: it bears its tags, and leads to where the record lies. -/
def Describes (s : WithBytes α) (code : Record α → List UInt8) (h : Header) (r : Record α) : Prop :=
  ∃ offset, h = r.header offset ∧ s.Holds code r offset

theorem Describes.record (h : s.Describes code header r) : s.buffer.record? header = some r := by
  obtain ⟨offset, rfl, hholds⟩ := h
  simp [record?, Record.header, hholds.value]

/-- The buffer is this list with this budget. -/
structure Tracks (s : WithBytes α) (code : Record α → List UInt8) (q : Quota α) : Prop where
  packed : s.buffer.Packed
  capacity : s.buffer.capacity = q.capacity
  fill : s.buffer.arena.ring.write = q.fill
  listed : List.Forall₂ (s.Describes code) s.buffer.written q.records

theorem length_image_le (code : Record α → List UInt8) (r : Record α) : (image code r).length ≤ r.type.footprint :=
  Nat.le_trans (List.length_take_le _ _) (Nat.le_max_left _ _)

theorem tracks_ofCapacity (code : Record α → List UInt8) (capacity : Nat) (bytes : Memory) :
    (ofCapacity capacity bytes).Tracks code { capacity := max capacity 1 } := by
  have hbare : (RecordBuffer.ofCapacity capacity : RecordBuffer α).Bare := bare_ofCapacity capacity
  refine ⟨⟨rfl, rfl, Nat.zero_le _, hbare.cells, Nat.le_refl _, hbare.blank⟩, rfl, rfl, ?_⟩
  show List.Forall₂ _ (RecordBuffer.ofCapacity capacity : RecordBuffer α).written []
  rw [hbare.written]
  exact .nil

/-- The buffer with a record behind the others, written into its slot. -/
def stored (s : WithBytes α) (code : Record α → List UInt8) (r : Record α) : WithBytes α :=
  ⟨s.buffer.stored r, s.bytes.write (roundUp s.buffer.arena.ring.write r.type.align) (image code r)⟩

/-- A slot behind the others leaves what lies in them as it is. -/
theorem Holds.stored {x : Record α} (hx : s.Holds code x offset) (r : Record α) (halign : 0 < r.type.align) :
    (s.stored code r).Holds code x offset := by
  have hup := le_roundUp s.buffer.arena.ring.write halign
  have hbelow := hx.below
  have hpos := x.type.footprint_pos
  have hlen := length_image_le code x
  have hne : (roundUp s.buffer.arena.ring.write r.type.align == offset) = false := by
    rw [beq_eq_false_iff_ne]
    omega
  refine ⟨?_, ?_, ?_⟩
  · rw [← hx.value]
    simp only [WithBytes.stored, RecordBuffer.stored, withHeader, Arena.get?, Std.HashMap.getElem?_insert, hne,
      Bool.false_eq_true, if_false]
  · show offset + x.type.footprint ≤ roundUp s.buffer.arena.ring.write r.type.align + r.type.footprint
    omega
  · show (s.bytes.write _ _).read offset _ = _
    rw [Memory.read_write_behind (by omega), hx.bytes]

theorem holds_stored (s : WithBytes α) (code : Record α → List UInt8) (r : Record α) :
    (s.stored code r).Holds code r (roundUp s.buffer.arena.ring.write r.type.align) :=
  ⟨by simp [WithBytes.stored, RecordBuffer.stored, withHeader, Arena.get?], Nat.le_refl _, Memory.read_write_same _ _ _⟩

/-- A record is stored if it fits the budget, and not otherwise. -/
theorem Tracks.push (h : s.Tracks code q) {r : Record α} (halign : r.type.PowerAligned) :
    s.buffer.push r = if q.Fits r.type then (s.buffer.stored r, true) else (s.buffer, false) := by
  have hiff : (r.type.align ≤ 64 ∧ roundUp s.buffer.arena.ring.write r.type.align + r.type.footprint ≤ s.buffer.capacity) ↔
      q.Fits r.type := by
    rw [h.fill, h.capacity]
    rfl
  rw [push_eq h.packed r halign]
  exact if_congr hiff rfl rfl

theorem Tracks.stored (h : s.Tracks code q) {r : Record α} (halign : r.type.PowerAligned) (hfits : q.Fits r.type) :
    (s.stored code r).Tracks code (q.store r).1 := by
  have hpos := alignments_pos (halign.mem_alignments.mpr hfits.1)
  have hroom : roundUp s.buffer.arena.ring.write r.type.align + r.type.footprint ≤ s.buffer.capacity := by
    rw [h.fill, h.capacity]
    exact hfits.2
  rw [Quota.store, if_pos hfits]
  refine ⟨h.packed.stored r hpos hroom, h.capacity, ?_, ?_⟩
  · show roundUp s.buffer.arena.ring.write r.type.align + r.type.footprint = _
    rw [h.fill]
    rfl
  · show List.Forall₂ _ (s.buffer.stored r).written _
    rw [h.packed.written_stored r hpos hroom]
    refine List.rel_append (h.listed.imp ?_) (.cons ⟨_, rfl, holds_stored s code r⟩ .nil)
    rintro _ x ⟨offset, rfl, hx⟩
    exact ⟨offset, rfl, hx.stored r hpos⟩

theorem Tracks.empty (h : s.Tracks code q) : Tracks ⟨s.buffer.empty, s.bytes⟩ code q.empty := by
  have hbare := h.packed.bare_empty
  refine ⟨packed_empty h.packed, (capacity_empty h.packed.read).trans h.capacity, hbare.write, ?_⟩
  show List.Forall₂ _ s.buffer.empty.written []
  rw [hbare.written]
  exact .nil

/-- Every cell that was taken is populated, whatever the category of its record. -/
theorem Tracks.payload (h : s.Tracks code q) : ∀ x ∈ s.buffer.written, ∃ p, x.payload = some p := by
  obtain ⟨hlength, hdescribes⟩ := List.forall₂_iff_get.mp h.listed
  intro x hx
  obtain ⟨i, hi, rfl⟩ := List.mem_iff_getElem.mp hx
  obtain ⟨offset, hheader, -⟩ := hdescribes i hi (hlength ▸ hi)
  exact ⟨_, congrArg Header.payload hheader⟩

theorem Tracks.records (h : s.Tracks code q) : s.buffer.records = q.records := by
  rw [records_eq h.payload]
  exact filterMap_of_forall₂ (h.listed.imp fun _ _ hx => hx.record)

theorem Tracks.length (h : s.Tracks code q) : s.buffer.length = q.records.length := by
  rw [← length_written, h.listed.length_eq]

theorem Tracks.count (h : s.Tracks code q) : s.buffer.count = q.fill := by
  rw [← h.fill]
  show s.buffer.arena.ring.write - s.buffer.arena.ring.read = s.buffer.arena.ring.write
  rw [h.packed.read, Nat.sub_zero]

/-- Storing, by either way: while the gate is open neither waits or gives up. -/
theorem Tracks.perform_store (h : s.Tracks code q) {r : Record α} (halign : r.type.PowerAligned)
    (hop : op = .emplace r ∨ op = .tryEmplace r) :
    ∃ s', s.perform code op = some (s', (q.perform op).2) ∧ s'.Tracks code (q.perform op).1 := by
  have hperform : s.buffer.perform op = some ((s.buffer.push r).1, .stored (s.buffer.push r).2) := by
    rcases hop with rfl | rfl <;>
      simp [RecordBuffer.perform, emplace?_open h.packed.gate, tryEmplace_open h.packed.gate, Prod.map]
  have hquota : q.perform op = ((q.store r).1, .stored (q.store r).2) := by rcases hop with rfl | rfl <;> rfl
  rw [WithBytes.perform, hperform, hquota, h.push halign]
  by_cases hfits : q.Fits r.type
  · have hwrite : writeLast (s.buffer.stored r) code r s.bytes = (s.stored code r).bytes := by
      have hpos := alignments_pos (halign.mem_alignments.mpr hfits.1)
      exact h.packed.writeLast_stored hpos (by rw [h.fill, h.capacity]; exact hfits.2) code s.bytes
    refine ⟨s.stored code r, ?_, h.stored halign hfits⟩
    rcases hop with rfl | rfl <;> simp [bytesAfter, Quota.store, hfits, hwrite] <;> rfl
  · refine ⟨s, ?_, ?_⟩
    · rcases hop with rfl | rfl <;> simp [bytesAfter, Quota.store, hfits]
    · rw [Quota.store, if_neg hfits]
      exact h

theorem Tracks.perform (h : s.Tracks code q) (hop : op.Proper) :
    ∃ s', s.perform code op = some (s', (q.perform op).2) ∧ s'.Tracks code (q.perform op).1 := by
  cases op with
  | emplace r => exact h.perform_store hop (.inl rfl)
  | tryEmplace r => exact h.perform_store hop (.inr rfl)
  | process t clearAfter =>
    have heq := process?_taken (t := t) (n := 0) h.packed.gate clearAfter
    refine ⟨⟨if clearAfter then s.buffer.empty else s.buffer, s.bytes⟩, ?_, ?_⟩
    · simp only [WithBytes.perform, RecordBuffer.perform, heq, Option.map_some, h.records]
      rfl
    · cases clearAfter
      · exact h
      · exact h.empty
  | clear t =>
    have heq := clear?_taken (t := t) (n := 0) h.packed.gate
    refine ⟨⟨s.buffer.empty, s.bytes⟩, ?_, h.empty⟩
    simp only [WithBytes.perform, RecordBuffer.perform, heq, Option.map_some]
    rfl

theorem Tracks.run (h : s.Tracks code q) {ops : List (Op α)} (hops : ∀ op ∈ ops, op.Proper) :
    ∃ s', s.run code ops = some (s', (q.run ops).2) ∧ s'.Tracks code (q.run ops).1 := by
  induction ops generalizing s q with
  | nil => exact ⟨s, rfl, h⟩
  | cons op ops ih =>
    obtain ⟨s₁, hstep, h₁⟩ := h.perform (hops op List.mem_cons_self)
    obtain ⟨s₂, hrun, h₂⟩ := ih h₁ fun op' hop' => hops op' (List.mem_cons_of_mem _ hop')
    refine ⟨s₂, ?_, h₂⟩
    rw [WithBytes.run, hstep]
    show (s₁.run code ops >>= fun x => some (x.1, (q.perform op).2 :: x.2)) = _
    rw [hrun]
    rfl

/-- What can be seen of a buffer: it is a list with a budget. Its first cells are the headers of the records, whose slots
    hold the bytes of the records; the other cells are blank. -/
structure Shows (s : WithBytes α) (code : Record α → List UInt8) (q : Quota α) : Prop where
  capacity : s.buffer.capacity = q.capacity
  count : s.buffer.count = q.fill
  length : s.buffer.length = q.records.length
  records : s.buffer.records = q.records
  bytes : List.Forall₂ (fun h r => ∃ offset, h = r.header offset ∧
      s.bytes.read offset (image code r).length = image code r) (s.buffer.headers.toList.take q.records.length) q.records
  blank : ∀ h ∈ s.buffer.headers.toList.drop q.records.length, h = .blank

/-- The whole budget is free, for every record that the buffer can hold at all. -/
structure Free (b : RecordBuffer α) : Prop where
  count : b.count = 0
  stores : ∀ r, r.type.PowerAligned → b.canHold r.type = true → ∃ b',
    b.perform (.emplace r) = some (b', .stored true) ∧ b.perform (.tryEmplace r) = some (b', .stored true)

theorem Tracks.shows (h : s.Tracks code q) : s.Shows code q where
  capacity := h.capacity
  count := h.count
  length := h.length
  records := h.records
  bytes := by
    rw [← h.length, ← written_eq]
    exact h.listed.imp fun _ _ hx => hx.imp fun _ hholds => ⟨hholds.1, hholds.2.bytes⟩
  blank x hx := by
    obtain ⟨i, hi⟩ := List.mem_iff_getElem?.mp hx
    rw [List.getElem?_drop, ← h.length, length_of_taken_le h.packed.taken_le, Array.getElem?_toList] at hi
    exact h.packed.blank _ (Nat.le_add_right _ i) x hi

theorem Tracks.free (h : s.Tracks code q) (hfill : q.fill = 0) : Free s.buffer := by
  refine ⟨h.count.trans hfill, fun r halign hcan => ⟨s.buffer.stored r, ?_⟩⟩
  simp only [canHold, Bool.and_eq_true, decide_eq_true_eq] at hcan
  have hpos := alignments_pos (halign.mem_alignments.mpr hcan.2)
  have hfits : q.Fits r.type := by
    refine ⟨hcan.2, ?_⟩
    rw [hfill, roundUp_zero hpos, Nat.zero_add, ← h.capacity]
    exact hcan.1
  have hpush := h.push halign
  rw [if_pos hfits] at hpush
  constructor <;> simp [RecordBuffer.perform, emplace?_open h.packed.gate, tryEmplace_open h.packed.gate, hpush]

end WithBytes

theorem fill_run_of_clears (q : Quota α) (before : List (Op α)) {op : Op α} (hop : op.Clears) :
    (q.run (before ++ [op])).1.fill = 0 := by
  induction before generalizing q with
  | nil =>
    cases op with
    | emplace | tryEmplace => cases hop
    | process t clearAfter =>
      cases hop
      rfl
    | clear t => rfl
  | cons first before ih => exact ih (q.perform first).1

open WithBytes in
/-- Whatever is asked of a new buffer, it answers as a list with a budget does and waits for nobody; and after
    clearing all of it is free. -/
theorem run_refines (code : Record α → List UInt8) (capacity : Nat) (bytes : Memory) (ops : List (Op α))
    (hops : ∀ op ∈ ops, op.Proper) :
    ∃ s, (WithBytes.ofCapacity capacity bytes).run code ops =
        some (s, (Quota.run { capacity := max capacity 1 } ops).2) ∧
      s.Shows code (Quota.run { capacity := max capacity 1 } ops).1 ∧
      ∀ before op, ops = before ++ [op] → op.Clears → Free s.buffer := by
  obtain ⟨s, hrun, h⟩ := (tracks_ofCapacity code capacity bytes).run hops
  refine ⟨s, hrun, h.shows, ?_⟩
  rintro before op rfl hclears
  exact h.free (fill_run_of_clears _ before hclears)

/-- Records of an empty type without a category, of an aligned one, of one that is aligned too widely, and of one too
    many. -/
def mixedTypes : List (Op Nat) :=
  [.emplace ⟨0, 7, ⟨"unit", 0, 1⟩, 0⟩, .tryEmplace ⟨1, 2, ⟨"a32", 32, 32⟩, 5⟩, .emplace ⟨1, 2, ⟨"a128", 128, 128⟩, 5⟩,
    .tryEmplace ⟨3, 4, ⟨"u8", 1, 1⟩, 9⟩, .process 1 true, .emplace ⟨3, 4, ⟨"a64", 64, 64⟩, 6⟩]

theorem refines_mixedTypes : (∀ op ∈ mixedTypes, op.Proper) ∧
    ∃ s, (WithBytes.ofCapacity 64 fun _ => 0).run (fun r => List.replicate 64 (UInt8.ofNat r.value)) mixedTypes =
        some (s, [.stored true, .stored true, .stored false, .stored false,
          .passed [⟨0, 7, ⟨"unit", 0, 1⟩, 0⟩, ⟨1, 2, ⟨"a32", 32, 32⟩, 5⟩], .stored true]) ∧
      s.buffer.count = 64 ∧ s.buffer.records = [⟨3, 4, ⟨"a64", 64, 64⟩, 6⟩] := by
  have hproper : ∀ op ∈ mixedTypes, op.Proper := by
    simp only [mixedTypes, List.forall_mem_cons]
    exact ⟨⟨0, rfl⟩, ⟨5, rfl⟩, ⟨7, rfl⟩, ⟨0, rfl⟩, trivial, ⟨6, rfl⟩, fun _ h => by cases h⟩
  obtain ⟨s, hrun, hshows, -⟩ :=
    run_refines (fun r : Record Nat => List.replicate 64 (UInt8.ofNat r.value)) 64 (fun _ => 0) mixedTypes hproper
  exact ⟨hproper, s, hrun.trans rfl, hshows.count, hshows.records⟩

end RecordBuffer

end PerfCounters
