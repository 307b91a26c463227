import PerfCounters.Proofs.Rings.Window

/-! What an empty ring grants. Its cursors are equal and may be anywhere, so a slot that does not end in front of
    the physical end takes the tail with it, and tail and slot together have to fit: that is so if the slot is no
    longer than the bytes before the cursor. -/

namespace PerfCounters

namespace Ring

variable {r : Ring} {length align : Nat}

/-- Behind equal cursors there is a whole turn of free bytes, from which a tail that is left unused counts. -/
theorem request_of_equal_cursors (heq : r.read = r.write) (hadmits : r.admits length align = true) :
    (r.request length align true).2 =
      if roundUp (r.write % r.capacity) align + length ≤ r.capacity then
        some ⟨roundUp (r.write % r.capacity) align, length⟩
      else if length ≤ r.write % r.capacity then some ⟨0, length⟩
      else none := by
  obtain ⟨hpos, hfits, halign⟩ := admits_iff.mp hadmits
  have hlt := Nat.mod_lt r.write r.capacity_pos
  have hup := le_roundUp (r.write % r.capacity) (alignments_pos halign)
  simp only [request, if_pos hadmits, place?]
  by_cases hroom : roundUp (r.write % r.capacity) align + length ≤ r.capacity
  · simp only [if_pos hroom]
    rw [if_neg (by omega)]
    simp only [slotAt, mod_of_same_turn hup (show roundUp (r.write % r.capacity) align < r.capacity by omega)]
  · simp only [if_neg hroom, if_true]
    by_cases hbefore : length ≤ r.write % r.capacity
    · rw [if_pos hbefore, if_neg (by omega)]
      simp only [slotAt, mod_of_next_turn]
    · rw [if_neg hbefore, if_pos (by omega)]

/-- A slot that is short enough fits either behind the cursor or before it. -/
theorem fits_behind_or_before (hpos : 0 < align) (hfits : length ≤ r.capacity)
    (h : r.write % r.capacity = 0 ∨ 2 * length + align ≤ r.capacity + 2) :
    roundUp (r.write % r.capacity) align + length ≤ r.capacity ∨ length ≤ r.write % r.capacity := by
  rcases h with hstart | hshort
  · rw [hstart, roundUp_zero hpos, Nat.zero_add]
    exact Or.inl hfits
  · have hlt := roundUp_lt (r.write % r.capacity) hpos
    omega

/-- After any calls that leave the ring empty, a slot is granted where it ends in front of the physical end, or else at
    the start of the ring if it is no longer than the bytes before the cursor. So every length up to the capacity is
    granted with the cursor at the start, and every length up to about half of it wherever the cursor is. -/
theorem run_grants_when_empty (capacity : Nat) (ops : List Op) (length align : Nat) :
    let r := ((History.ofCapacity capacity).run ops).1.ring
    let offset := r.write % r.capacity
    r.count = 0 → 1 ≤ length → length ≤ r.capacity → (∃ k, align = 2 ^ k) → align ≤ 64 →
      (r.request length align true).2 =
          (if roundUp offset align + length ≤ r.capacity then some ⟨roundUp offset align, length⟩
          else if length ≤ offset then some ⟨0, length⟩
          else none) ∧
        (offset = 0 ∨ 2 * length + align ≤ r.capacity + 2 → ∃ slot, (r.request length align true).2 = some slot) := by
  intro r offset hcount hpos hfits hpower hmax
  have hwindow : r.Windowed := ((History.sound_ofCapacity capacity).run ops).window
  have heq : r.read = r.write := Nat.le_antisymm hwindow.read_le (Nat.le_of_sub_eq_zero hcount)
  have halign : align ∈ alignments := mem_alignments_iff.mpr ⟨hpower, hmax⟩
  have hgrants := request_of_equal_cursors heq (admits_iff.mpr ⟨hpos, hfits, halign⟩)
  refine ⟨hgrants, fun hroom => ?_⟩
  rw [hgrants]
  by_cases hbehind : roundUp (r.write % r.capacity) align + length ≤ r.capacity
  · exact ⟨_, if_pos hbehind⟩
  · have hbefore := (fits_behind_or_before (alignments_pos halign) hfits hroom).resolve_left hbehind
    exact ⟨⟨0, length⟩, by rw [if_neg hbehind, if_pos hbefore]⟩

/-- A slot that is taken back at once leaves the ring empty with its cursor behind it. -/
def takenBack (length align : Nat) : List Op := [.request length align true, .retrieve length align]

theorem grants_over_tail : ((History.ofCapacity 100).run (takenBack 60 4)).1.ring.count = 0 ∧
    (((History.ofCapacity 100).run (takenBack 60 4)).1.ring.request 50 8 true).2 = some ⟨0, 50⟩ := by
  refine ⟨by decide, ?_⟩
  exact (run_grants_when_empty 100 (takenBack 60 4) 50 8 (by decide) (by decide) (by decide) ⟨3, rfl⟩ (by decide)).1

/-- Not every length that fits is granted: the tail is counted with the slot. -/
theorem refused_when_empty : ¬∀ (capacity : Nat) (ops : List Op) (length align : Nat),
    let r := ((History.ofCapacity capacity).run ops).1.ring
    r.count = 0 → 1 ≤ length → length ≤ r.capacity → (∃ k, align = 2 ^ k) → align ≤ 64 →
      ∃ slot, (r.request length align true).2 = some slot := by
  intro h
  obtain ⟨slot, hslot⟩ := h 100 (takenBack 60 4) 70 1 (by decide) (by decide) (by decide) ⟨0, rfl⟩ (by decide)
  have hnone : (((History.ofCapacity 100).run (takenBack 60 4)).1.ring.request 70 1 true).2 = none := by decide
  rw [hnone] at hslot
  cases hslot

end Ring

end PerfCounters
