import Mathlib.Data.List.Basic
import PerfCounters.Proofs.Lists
import PerfCounters.RecordBuffer

/-! What a record buffer holds. Nothing is ever taken back from its ring one by one, so slots are given
    out upwards from offset 0 and no slot covers an earlier one: a stored record reads back as it was
    until the buffer is emptied. Headers are written cell by cell, and the cells behind them are blank. -/

namespace PerfCounters

/-! ### Slots of a ring that is never read -/

theorem alignments_pos {align : Nat} (h : align ∈ alignments) : 0 < align := by
  simp only [alignments, List.mem_cons, List.not_mem_nil, or_false] at h
  omega

theorem le_roundUp (n : Nat) {align : Nat} (h : 0 < align) : n ≤ roundUp n align := by
  have hdiv := Nat.div_add_mod (n + align - 1) align
  have hmod := Nat.mod_lt (n + align - 1) h
  have hcomm : (n + align - 1) / align * align = align * ((n + align - 1) / align) := Nat.mul_comm _ _
  unfold roundUp
  omega

theorem roundUp_zero {align : Nat} (h : 0 < align) : roundUp 0 align = 0 := by
  have hdiv : (0 + align - 1) / align = 0 := Nat.div_eq_of_lt (by omega)
  rw [roundUp, hdiv, Nat.zero_mul]

namespace Ring

theorem admits_iff {r : Ring} {length align : Nat} :
    r.admits length align = true ↔ 0 < length ∧ length ≤ r.capacity ∧ align ∈ alignments := by
  simp [admits, and_assoc]

/-- A granted slot starts at or after the write cursor, which moves past it and stays within the
    capacity. -/
theorem request_granted {r r' : Ring} {length align : Nat} {slot : Slot} (hread : r.read = 0)
    (hwrite : r.write ≤ r.capacity) (h : r.request length align false = (r', some slot)) :
    r'.read = 0 ∧ r'.capacity = r.capacity ∧ r'.write ≤ r'.capacity ∧ r.write ≤ slot.offset ∧
      slot.offset < r'.write := by
  unfold request at h
  split at h
  · rename_i hadmits
    obtain ⟨hlen, -, hal⟩ := admits_iff.mp hadmits
    have hpos := alignments_pos hal
    split at h
    · cases h
    · rename_i start hplace
      split at h
      · cases h
      · rename_i hfits
        cases h
        -- At the capacity the slot would start over behind the end, which leaves no room for it.
        have hlt : r.write < r.capacity := by
          rcases Nat.lt_or_ge r.write r.capacity with hlt | hge
          · exact hlt
          · have heq : r.write = r.capacity := Nat.le_antisymm hwrite hge
            simp only [place?, heq, Nat.mod_self, roundUp_zero hpos] at hplace
            split at hplace
            · cases hplace
              omega
            · cases hplace
        have hmod : r.write % r.capacity = r.write := Nat.mod_eq_of_lt hlt
        have hup := le_roundUp r.write hpos
        simp only [place?, hmod] at hplace
        split at hplace
        · cases hplace
          have hstart : r.write + (roundUp r.write align - r.write) < r.capacity := by omega
          refine ⟨hread, rfl, ?_, ?_, ?_⟩
          · show r.write + (roundUp r.write align - r.write) + length ≤ r.capacity
            omega
          · simp only [slotAt, Nat.mod_eq_of_lt hstart]
            omega
          · simp only [slotAt, Nat.mod_eq_of_lt hstart]
            omega
        · cases hplace
  · cases h

/-- A ring that holds nothing grants every slot that can exist in it. -/
theorem request_of_bare {r : Ring} {length align : Nat} (hread : r.read = 0) (hwrite : r.write = 0)
    (h : r.admits length align = true) : ∃ r' slot, r.request length align false = (r', some slot) := by
  obtain ⟨-, hlen, hal⟩ := admits_iff.mp h
  have hplace : r.place? r.write length align false = some 0 := by
    simp [place?, hwrite, roundUp_zero (alignments_pos hal), hlen]
  refine ⟨{ r with write := 0 + length }, r.slotAt 0 length, ?_⟩
  simp only [request, h, hplace, hread]
  simp only [if_true, Nat.zero_add, Nat.sub_zero]
  rw [if_neg (by omega)]

end Ring

namespace Arena

variable {α : Type}

/-- What a granted write leaves: the new value at an offset from the write cursor on, and all else as
    it was. -/
theorem put_granted {a a' : Arena α} {length align : Nat} {value : α} {slot : Slot}
    (hread : a.ring.read = 0) (hwrite : a.ring.write ≤ a.ring.capacity)
    (h : a.put length align false value = (a', some slot)) :
    a'.ring.read = 0 ∧ a'.ring.capacity = a.ring.capacity ∧ a'.ring.write ≤ a'.ring.capacity ∧
      a.ring.write ≤ slot.offset ∧ slot.offset < a'.ring.write ∧ a'.get? slot.offset = some value ∧
      ∀ offset, offset < a.ring.write → a'.get? offset = a.get? offset := by
  unfold put at h
  split at h
  · cases h
  · rename_i r s hr
    cases h
    obtain ⟨h1, h2, h3, h4, h5⟩ := Ring.request_granted hread hwrite hr
    refine ⟨h1, h2, h3, h4, h5, by simp [get?], fun offset ho => ?_⟩
    have hne : slot.offset ≠ offset := by omega
    simp [get?, Std.HashMap.getElem?_insert, hne]

end Arena

namespace Gate

/-- The gate that one thread has taken so many times and no other thread waits for. -/
def taken (t : Thread) : Nat → Gate
  | 0 => opened
  | n + 1 => { owner := some t, depth := n + 1, locked := true, gated := 1 }

theorem lock?_taken (t : Thread) (n : Nat) : (taken t n).lock? t = some (taken t (n + 1)) := by
  cases n with
  | zero => rfl
  | succ n => exact if_pos rfl

theorem unlock_taken (t : Thread) (n : Nat) : (taken t (n + 1)).unlock t = taken t n := by
  unfold unlock
  rw [if_pos ⟨rfl, Nat.succ_ne_zero n⟩]
  cases n with
  | zero => rfl
  | succ n => exact if_neg (by simp [taken])

end Gate

namespace RecordBuffer

variable {α : Type} {b : RecordBuffer α} {r : Record α}

/-! ### Cells -/

theorem written_eq (b : RecordBuffer α) : b.written = b.headers.toList.take b.length := by
  simp [written]

theorem length_le_headerLimit (b : RecordBuffer α) : b.length ≤ b.headerLimit := Nat.min_le_right _ _

theorem length_written (b : RecordBuffer α) : b.written.length = b.length := by
  rw [written_eq, List.length_take, Array.length_toList]
  exact Nat.min_eq_left b.length_le_headerLimit

theorem length_of_taken_le (h : b.taken ≤ b.headerLimit) : b.length = b.taken := Nat.min_eq_left h

/-- The cells that were not taken since the last clear are blank. -/
def BlankBehind (b : RecordBuffer α) : Prop := ∀ i, b.taken ≤ i → ∀ h, b.headers[i]? = some h → h = .blank

/-- The buffer with one more cell written. -/
def withHeader (b : RecordBuffer α) (arena : Arena α) (header : Header) : RecordBuffer α :=
  { b with arena, headers := b.headers.setIfInBounds b.taken header, taken := b.taken + 1 }

/-- The cell that is written to is the next one to be read. -/
theorem written_withHeader (h : b.taken < b.headerLimit) (arena : Arena α) (header : Header) :
    (b.withHeader arena header).written = b.written ++ [header] := by
  have hlength : (b.withHeader arena header).length = b.taken + 1 :=
    length_of_taken_le (Nat.le_of_lt_succ (by simpa [headerLimit, withHeader] using h))
  rw [written_eq, written_eq, hlength, length_of_taken_le (Nat.le_of_lt h), withHeader, Array.toList_setIfInBounds]
  exact take_set_concat (by rwa [Array.length_toList]) header

theorem BlankBehind.withHeader {arena : Arena α} {header : Header} (h : b.BlankBehind) :
    (b.withHeader arena header).BlankBehind := fun i hi x hx => by
  have hne : b.taken ≠ i := Nat.ne_of_lt hi
  refine h i (Nat.le_of_succ_le hi) x ?_
  rwa [RecordBuffer.withHeader, Array.getElem?_setIfInBounds_ne hne] at hx

/-- A slot for which there is no cell is not read. -/
theorem written_without_cell (h : ¬b.taken < b.headerLimit) (arena : Arena α) :
    ({ b with arena, taken := b.taken + 1 } : RecordBuffer α).written = b.written := by
  have hlimit : b.headerLimit ≤ b.taken := Nat.le_of_not_lt h
  have hlength : ({ b with arena, taken := b.taken + 1 } : RecordBuffer α).length = b.length :=
    (Nat.min_eq_right (Nat.le_succ_of_le hlimit)).trans (Nat.min_eq_right hlimit).symm
  rw [written_eq, written_eq, hlength]

theorem size_foldl_blank (headers : Array Header) (n : Nat) :
    ((List.range n).foldl (fun headers i => headers.setIfInBounds i .blank) headers).size = headers.size := by
  induction n with
  | zero => rfl
  | succ n ih => rw [List.range_succ, List.foldl_append, List.foldl_cons, List.foldl_nil, Array.size_setIfInBounds, ih]

theorem getElem?_foldl_blank (headers : Array Header) (n i : Nat) :
    ((List.range n).foldl (fun headers i => headers.setIfInBounds i .blank) headers)[i]? =
      if i < n then headers[i]?.map fun _ => .blank else headers[i]? := by
  induction n with
  | zero => rfl
  | succ n ih =>
    rw [List.range_succ, List.foldl_append, List.foldl_cons, List.foldl_nil, Array.getElem?_setIfInBounds]
    by_cases hi : n = i
    · subst hi
      by_cases hsize : n < headers.size <;> simp [hsize, size_foldl_blank]
    · have hlt : i < n + 1 ↔ i < n := by omega
      simp only [if_neg hi, ih, hlt]

theorem size_blankTaken (b : RecordBuffer α) : b.blankTaken.size = b.headerLimit := size_foldl_blank b.headers b.length

theorem eq_blank_of_blankTaken (h : b.BlankBehind) {i : Nat} {header : Header} (hi : b.blankTaken[i]? = some header) :
    header = .blank := by
  have hsize : i < b.headerLimit := size_blankTaken b ▸ (Array.getElem?_eq_some_iff.mp hi).1
  rw [blankTaken, getElem?_foldl_blank] at hi
  split at hi
  · obtain ⟨_, -, rfl⟩ := Option.map_eq_some_iff.mp hi
    rfl
  · rename_i hlt
    refine h i ?_ header hi
    unfold RecordBuffer.length at hlt
    omega

/-- Nothing was taken back from the ring, there is a cell for every eight bytes, each cell that was taken has a payload
    below the write cursor, and the others are blank. -/
structure Intact (b : RecordBuffer α) : Prop where
  read : b.arena.ring.read = 0
  write : b.arena.ring.write ≤ b.arena.ring.capacity
  cells : b.headerLimit = (b.capacity + 7) / 8
  below : ∀ h ∈ b.written, ∃ p, h.payload = some p ∧ p.offset < b.arena.ring.write
  blank : b.BlankBehind

/-- Nothing is stored, the whole ring is free, and all cells are blank. -/
structure Bare (b : RecordBuffer α) : Prop where
  read : b.arena.ring.read = 0
  write : b.arena.ring.write = 0
  taken : b.taken = 0
  cells : b.headerLimit = (b.capacity + 7) / 8
  blank : b.BlankBehind

theorem Bare.written (h : b.Bare) : b.written = [] := by
  rw [written_eq, RecordBuffer.length, h.taken, Nat.zero_min, List.take_zero]

theorem Bare.intact (h : b.Bare) : b.Intact :=
  ⟨h.read, by rw [h.write]; exact Nat.zero_le _, h.cells, fun x hx => by simp [h.written] at hx, h.blank⟩

theorem Bare.records (h : b.Bare) : b.records = [] := by simp [RecordBuffer.records, h.written]

theorem Bare.count (h : b.Bare) : b.count = 0 := by
  show b.arena.ring.write - b.arena.ring.read = 0
  rw [h.write, Nat.zero_sub]

theorem bare_ofCapacity (capacity : Nat) : (ofCapacity capacity : RecordBuffer α).Bare where
  read := rfl
  write := rfl
  taken := rfl
  cells := Array.size_replicate
  blank _ _ _ hget := by
    obtain ⟨hlt, rfl⟩ := Array.getElem?_eq_some_iff.mp hget
    exact Array.getElem_replicate hlt

/-- Where every cell that was taken has a payload, all of them are read. -/
theorem records_eq (h : ∀ x ∈ b.written, ∃ p, x.payload = some p) : b.records = b.written.filterMap b.record? := by
  have hpopulated : b.written.filter Header.isPopulated = b.written := List.filter_eq_self.mpr fun x hx => by
    obtain ⟨p, hp⟩ := h x hx
    simp [Header.isPopulated, hp]
  rw [RecordBuffer.records, hpopulated]

theorem Intact.records_eq (h : b.Intact) : b.records = b.written.filterMap b.record? :=
  RecordBuffer.records_eq fun x hx => (h.below x hx).imp fun _ hp => hp.1

/-! ### Storing -/

/-- Writing into a slot that starts at the write cursor or later changes no stored record. -/
theorem filterMap_record?_eq {b' : RecordBuffer α} {hs : List Header} {limit : Nat}
    (hbelow : ∀ h ∈ hs, ∃ p, h.payload = some p ∧ p.offset < limit)
    (hget : ∀ offset, offset < limit → b'.arena.get? offset = b.arena.get? offset) :
    hs.filterMap b'.record? = hs.filterMap b.record? := by
  apply List.filterMap_congr
  intro h hh
  obtain ⟨p, hp, hlt⟩ := hbelow h hh
  rw [record?, record?, hp, Option.bind_some, Option.bind_some, hget _ hlt]

/-- What a store does: a record goes behind the others or nothing changes, and the gate is left
    alone. -/
theorem push_cases (hb : b.Intact) :
    (b.push r).1.Intact ∧ (b.push r).1.gate = b.gate ∧ (b.push r).1.capacity = b.capacity ∧
      (b.push r).1.records = if (b.push r).2 then b.records ++ [r] else b.records := by
  unfold push
  split
  · exact ⟨hb, rfl, rfl, by simp⟩
  · rename_i a slot hput
    obtain ⟨h1, h2, h3, h4, h5, h6, h7⟩ := Arena.put_granted hb.read hb.write hput
    have hold : ∀ h ∈ b.written, ∃ p, h.payload = some p ∧ p.offset < a.ring.write := fun h hh => by
      obtain ⟨p, hp, hlt⟩ := hb.below h hh
      exact ⟨p, hp, Nat.lt_of_lt_of_le hlt (Nat.le_of_lt (Nat.lt_of_le_of_lt h4 h5))⟩
    have hcells : b.headerLimit = (a.ring.capacity + 7) / 8 := hb.cells.trans (by rw [h2]; rfl)
    have hrecords : b.written.filterMap (RecordBuffer.record? { b with arena := a }) = b.written.filterMap b.record? :=
      filterMap_record?_eq hb.below h7
    split
    · rename_i hcell
      have hwritten := written_withHeader hcell a (r.header slot.offset)
      have hbelow : ∀ h ∈ (b.withHeader a (r.header slot.offset)).written,
          ∃ p, h.payload = some p ∧ p.offset < a.ring.write :=
        fun h hh => by
          rw [hwritten, List.mem_append, List.mem_singleton] at hh
          obtain hh | rfl := hh
          · exact hold h hh
          · exact ⟨_, rfl, h5⟩
      have hintact : (b.withHeader a (r.header slot.offset)).Intact :=
        ⟨h1, h3, (Array.size_setIfInBounds ..).trans hcells, hbelow, hb.blank.withHeader⟩
      refine ⟨hintact, rfl, h2, ?_⟩
      show (b.withHeader a (r.header slot.offset)).records = b.records ++ [r]
      rw [hintact.records_eq, hwritten, List.filterMap_append, hb.records_eq]
      exact congrArg₂ _ hrecords (by simp [record?, Record.header, withHeader, h6])
    · rename_i hcell
      have hwritten := written_without_cell hcell a
      have hintact : ({ b with arena := a, taken := b.taken + 1 } : RecordBuffer α).Intact :=
        ⟨h1, h3, hcells, fun h hh => hold h (hwritten ▸ hh), fun i hi => hb.blank i (Nat.le_of_succ_le hi)⟩
      refine ⟨hintact, rfl, h2, ?_⟩
      show ({ b with arena := a, taken := b.taken + 1 } : RecordBuffer α).records = b.records
      rw [hintact.records_eq, hwritten, hb.records_eq]
      exact hrecords

/-- A bare buffer stores every record that it can hold. -/
theorem push_of_bare (hb : b.Bare) (hcan : b.canHold r.type = true)
    (halign : r.type.align ∈ alignments) : (b.push r).2 = true := by
  simp only [canHold, Bool.and_eq_true, decide_eq_true_eq] at hcan
  have hpos : 0 < r.type.footprint := Nat.lt_of_lt_of_le (by decide) (Nat.le_max_right _ RecordType.minFootprint)
  have hadmits : b.arena.ring.admits r.type.footprint r.type.align = true :=
    Ring.admits_iff.mpr ⟨hpos, hcan.1, halign⟩
  obtain ⟨ring, slot, hreq⟩ := Ring.request_of_bare hb.read hb.write hadmits
  have hlimit : 0 < b.headerLimit := by
    have hcapacity : 0 < b.capacity := b.arena.ring.capacity_pos
    rw [hb.cells]
    omega
  simp [push, Arena.put, hreq, hb.taken, hlimit]

/-! ### The gate, and emptying -/

@[simp] theorem records_gate (g : Gate) : ({ b with gate := g } : RecordBuffer α).records = b.records :=
  rfl

theorem Intact.gate (hb : b.Intact) (g : Gate) : ({ b with gate := g } : RecordBuffer α).Intact :=
  ⟨hb.read, hb.write, hb.cells, hb.below, hb.blank⟩

theorem Bare.gate (hb : b.Bare) (g : Gate) : ({ b with gate := g } : RecordBuffer α).Bare :=
  ⟨hb.read, hb.write, hb.taken, hb.cells, hb.blank⟩

/-- Behind an open gate a store waits for nobody and does not give up. -/
theorem emplace?_open (h : b.gate = .opened) (r : Record α) : b.emplace? r = some (b.push r) := by
  rw [emplace?, h]
  rfl

theorem tryEmplace?_open (h : b.gate = .opened) (r : Record α) : b.tryEmplace? r = some (b.push r) := by
  rw [tryEmplace?, h]
  exact emplace?_open h r

theorem tryEmplace_open (h : b.gate = .opened) (r : Record α) : b.tryEmplace r = b.push r := by
  rw [tryEmplace, tryEmplace?_open h, Option.getD_some]

theorem lock?_taken {t : Thread} {n : Nat} (h : b.gate = .taken t n) :
    b.lock? t = some { b with gate := .taken t (n + 1) } := by
  rw [lock?, h, Gate.lock?_taken, Option.map_some]

theorem unlock_taken {t : Thread} {n : Nat} (h : b.gate = .taken t (n + 1)) :
    b.unlock t = { b with gate := .taken t n } := by
  rw [unlock, h, Gate.unlock_taken]

theorem withGate_of_eq {g : Gate} (h : b.gate = g) : ({ b with gate := g } : RecordBuffer α) = b := by
  cases h
  rfl

@[simp] theorem empty_gate : b.empty.gate = b.gate := rfl

/-- Reading behind a gate that the reader has taken, or may take, leaves the gate as it was. -/
theorem process?_taken {t : Thread} {n : Nat} (h : b.gate = .taken t n) (clearAfter : Bool) :
    b.process? t clearAfter = some (if clearAfter then b.empty else b, b.records) := by
  unfold process?
  rw [lock?_taken h, Option.map_some]
  cases clearAfter with
  | false =>
    simp only [Bool.false_eq_true, if_false]
    rw [unlock_taken rfl, withGate_of_eq h]
    rfl
  | true =>
    simp only [if_true]
    rw [unlock_taken rfl]
    exact congrArg (fun b' => some (b', b.records)) (withGate_of_eq (b := b.empty) h)

theorem clear?_taken {t : Thread} {n : Nat} (h : b.gate = .taken t n) : b.clear? t = some b.empty := by
  rw [clear?, lock?_taken h, Option.map_some, unlock_taken rfl]
  exact congrArg some (withGate_of_eq (b := b.empty) h)

theorem capacity_empty (h : b.arena.ring.read = 0) : b.empty.capacity = b.capacity := by
  simp [empty, Ring.clear, capacity, h]

/-- Emptying takes the cursors back, and makes blank all cells that were taken. -/
theorem bare_empty (hread : b.arena.ring.read = 0) (hcells : b.headerLimit = (b.capacity + 7) / 8)
    (hblank : b.BlankBehind) : b.empty.Bare where
  read := by simp [empty, Ring.clear, hread]
  write := by simp [empty, Ring.clear, hread]
  taken := rfl
  cells := by
    rw [capacity_empty hread, ← hcells]
    exact b.size_blankTaken
  blank _ _ _ hget := eq_blank_of_blankTaken hblank hget

theorem Intact.bare_empty (h : b.Intact) : b.empty.Bare := RecordBuffer.bare_empty h.read h.cells h.blank

end RecordBuffer

end PerfCounters
