import Mathlib.Algebra.Group.Nat.Defs
import PerfCounters.Proofs.Buffering.Contents

/-! Where slots lie. A slot starts at its cursor or later, at a multiple of its alignment, and ends before the
    physical end. A call that moves a cursor moves it behind the slot it answers with, and a call that
    answers with none leaves the ring as it is. -/

namespace PerfCounters

theorem dvd_roundUp (n align : Nat) : align ∣ roundUp n align := Nat.dvd_mul_left _ _

theorem roundUp_lt (n : Nat) {align : Nat} (h : 0 < align) : roundUp n align < n + align := by
  have hle := Nat.div_mul_le_self (n + align - 1) align
  unfold roundUp
  omega

theorem le_of_mem_alignments {align : Nat} (h : align ∈ alignments) : align ≤ 64 := by
  simp only [alignments, List.mem_cons, List.not_mem_nil, or_false] at h
  omega

theorem mem_alignments_iff {align : Nat} : align ∈ alignments ↔ (∃ k, align = 2 ^ k) ∧ align ≤ 64 := by
  refine ⟨fun h => ⟨?_, le_of_mem_alignments h⟩, ?_⟩
  · exact (show ∀ align ∈ alignments, ∃ k ∈ List.range 7, align = 2 ^ k by decide) align h |>.imp fun _ hk => hk.2
  · rintro ⟨⟨k, rfl⟩, hle⟩
    have hk : k ≤ 6 := (Nat.pow_le_pow_iff_right (Nat.lt_succ_self 1)).mp hle
    exact (show ∀ k ≤ 6, 2 ^ k ∈ alignments by decide) k hk

namespace Slot

/-- The byte at an offset is one of the slot. -/
def Covers (s : Slot) (byte : Nat) : Prop := s.offset ≤ byte ∧ byte < s.offset + s.length

/-- The slots have no byte in common. -/
def Apart (s s' : Slot) : Prop := ∀ byte, ¬(s.Covers byte ∧ s'.Covers byte)

/-- The slot lies in a ring of this capacity without crossing its end, at a multiple of `align`. -/
def Placed (s : Slot) (capacity align : Nat) : Prop := s.offset + s.length ≤ capacity ∧ align ∣ s.offset

end Slot

namespace Ring

/-- The read cursor is not ahead of the write cursor, and at most one turn behind it. -/
structure Windowed (r : Ring) : Prop where
  read_le : r.read ≤ r.write
  span_le : r.write - r.read ≤ r.capacity

variable {r : Ring} {cursor length align start : Nat} {wrap : Bool}

/-- A place in the turn of the cursor lies at its distance from the start of that turn. -/
theorem mod_of_same_turn {place : Nat} (hle : cursor % r.capacity ≤ place) (hlt : place < r.capacity) :
    (cursor + (place - cursor % r.capacity)) % r.capacity = place := by
  have hdiv := Nat.div_add_mod cursor r.capacity
  have heq : cursor + (place - cursor % r.capacity) = r.capacity * (cursor / r.capacity) + place := by omega
  rw [heq, Nat.mul_add_mod, Nat.mod_eq_of_lt hlt]

/-- Over the tail, the next turn starts. -/
theorem mod_of_next_turn (r : Ring) (cursor : Nat) : (cursor + (r.capacity - cursor % r.capacity)) % r.capacity = 0 := by
  have hdiv := Nat.div_add_mod cursor r.capacity
  have hlt := Nat.mod_lt cursor r.capacity_pos
  have heq : cursor + (r.capacity - cursor % r.capacity) = r.capacity * (cursor / r.capacity + 1) := by
    rw [Nat.mul_add, Nat.mul_one]
    omega
  rw [heq, Nat.mul_mod_right]

/-- A slot starts less than a turn behind its cursor, and leaves room for its bytes before the end. -/
theorem place?_eq_some (hpos : 0 < length) (hfits : length ≤ r.capacity) (halign : 0 < align)
    (h : r.place? cursor length align wrap = some start) :
    cursor ≤ start ∧ start ≤ cursor + r.capacity ∧ (r.slotAt start length).Placed r.capacity align := by
  have hlt := Nat.mod_lt cursor r.capacity_pos
  have hup := le_roundUp (cursor % r.capacity) halign
  simp only [place?] at h
  split at h
  · rename_i hroom
    cases h
    have hmod := mod_of_same_turn hup (show roundUp (cursor % r.capacity) align < r.capacity by omega)
    refine ⟨Nat.le_add_right _ _, by omega, ?_, ?_⟩
    · simpa only [slotAt, hmod] using hroom
    · simpa only [slotAt, hmod] using dvd_roundUp _ align
  · split at h
    · cases h
      refine ⟨Nat.le_add_right _ _, by omega, ?_, ?_⟩
      · simpa only [slotAt, mod_of_next_turn, Nat.zero_add] using hfits
      · simp only [slotAt, mod_of_next_turn, Nat.dvd_zero]
    · cases h

/-- All that a request can do. -/
theorem request_cases (r : Ring) (length align : Nat) (wrap : Bool) :
    r.request length align wrap = (r, none) ∨
      ∃ start, r.admits length align = true ∧ r.place? r.write length align wrap = some start ∧
        start + length - r.read ≤ r.capacity ∧
        r.request length align wrap = ({ r with write := start + length }, some (r.slotAt start length)) := by
  unfold request
  by_cases hadmits : r.admits length align = true
  · rw [if_pos hadmits]
    cases hplace : r.place? r.write length align wrap with
    | none => exact Or.inl rfl
    | some start =>
      by_cases hroom : start + length - r.read > r.capacity
      · exact Or.inl (if_pos hroom)
      · exact Or.inr ⟨start, hadmits, rfl, Nat.le_of_not_gt hroom, if_neg hroom⟩
  · exact Or.inl (if_neg hadmits)

/-- All that a retrieval can do. -/
theorem retrieve_cases (r : Ring) (length align : Nat) :
    r.retrieve length align = (r, none) ∨
      ∃ start, r.admits length align = true ∧ r.place? r.read length align true = some start ∧
        start + length ≤ r.write ∧
        r.retrieve length align = ({ r with read := start + length }, some (r.slotAt start length)) := by
  unfold retrieve
  by_cases hadmits : (r.admits length align && decide (r.read < r.write)) = true
  · rw [if_pos hadmits]
    cases hplace : r.place? r.read length align true with
    | none => exact Or.inl rfl
    | some start =>
      by_cases hroom : start + length > r.write
      · exact Or.inl (if_pos hroom)
      · rw [Bool.and_eq_true] at hadmits
        exact Or.inr ⟨start, hadmits.1, rfl, Nat.le_of_not_gt hroom, if_neg hroom⟩
  · exact Or.inl (if_neg hadmits)

/-- Slots of which one starts behind the other, both within one turn of the ring, have no byte in common. -/
theorem slotAt_apart {start' length' : Nat} (hbefore : start + length ≤ start')
    (hturn : start' + length' ≤ start + r.capacity) : (r.slotAt start length).Apart (r.slotAt start' length') := by
  rintro byte ⟨⟨hlo, hhi⟩, hlo', hhi'⟩
  simp only [slotAt] at hlo hhi hlo' hhi'
  have hdiv := Nat.div_add_mod start r.capacity
  have hdiv' := Nat.div_add_mod start' r.capacity
  -- In the same turn the slots follow each other; in the next turn the second one ends before the first starts.
  rcases Nat.lt_trichotomy (start / r.capacity) (start' / r.capacity) with hlt | heq | hgt
  · have hmul := Nat.mul_le_mul_left r.capacity hlt
    rw [Nat.succ_eq_add_one, Nat.mul_add, Nat.mul_one] at hmul
    omega
  · rw [heq] at hdiv
    omega
  · have hmul := Nat.mul_le_mul_left r.capacity (Nat.le_of_lt hgt)
    omega

end Ring

end PerfCounters
