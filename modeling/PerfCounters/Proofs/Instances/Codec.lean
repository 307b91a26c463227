import Mathlib.Data.Nat.Bitwise
import PerfCounters.InstanceId

/-! The fields of an instance id. Writing a field changes that field only, and what is read from it
    afterwards is what was written, as long as the value fits. Everything said here of positions and of the
    counter number comes of these two facts. -/

namespace PerfCounters

namespace InstanceId

variable {word : BitVec 64} {start width value start' width' value' i : Nat}

/-! ### Fields of a word -/

theorem getLsbD_field (hfits : start + width ≤ 64) :
    (field start width).getLsbD i = (decide (start ≤ i) && decide (i < start + width)) := by
  unfold field
  rw [BitVec.getLsbD_shiftLeft, BitVec.getLsbD_ofNat]
  have hbit : (Nat.pow 2 width - 1).testBit (i - start) = decide (i - start < width) := Nat.testBit_two_pow_sub_one ..
  rw [hbit]
  by_cases h64 : i < 64 <;> by_cases hle : start ≤ i <;> by_cases hlt : i < start + width <;>
    simp [h64, hle, hlt] <;> omega

/-- The bits of a word after a field was written. -/
theorem getLsbD_write (hfits : start + width ≤ 64) (hvalue : value < 2 ^ width) (hi : i < 64) :
    (write word start width value).getLsbD i =
      if start ≤ i ∧ i < start + width then value.testBit (i - start) else word.getLsbD i := by
  unfold write
  rw [BitVec.getLsbD_or, BitVec.getLsbD_and, BitVec.getLsbD_not, getLsbD_field hfits, BitVec.getLsbD_shiftLeft,
    BitVec.getLsbD_ofNat]
  by_cases hle : start ≤ i
  · by_cases hlt : i < start + width
    · have h64 : i - start < 64 := by omega
      simp [hi, hle, hlt, h64]
    · have hzero : value.testBit (i - start) = false := by
        apply Nat.testBit_lt_two_pow
        exact Nat.lt_of_lt_of_le hvalue (Nat.pow_le_pow_right (by decide) (by omega))
      simp [hi, hle, hlt, hzero]
  · have hnot : i < start := Nat.lt_of_not_le hle
    simp [hi, hle, hnot]

theorem testBit_read (word : BitVec 64) (start width i : Nat) :
    (read word start width).testBit i = (decide (i < width) && word.getLsbD (start + i)) := by
  unfold read
  have hmod : ((word >>> start).toNat % Nat.pow 2 width).testBit i =
      (decide (i < width) && (word >>> start).toNat.testBit i) := Nat.testBit_mod_two_pow ..
  rw [hmod, BitVec.testBit_toNat, BitVec.getLsbD_ushiftRight]

theorem read_lt (word : BitVec 64) (start width : Nat) : read word start width < 2 ^ width :=
  Nat.mod_lt _ (Nat.pow_pos (by decide))

/-- What is read from a field that was written. -/
theorem read_write_same (hfits : start + width ≤ 64) (hvalue : value < 2 ^ width) :
    read (write word start width value) start width = value := by
  apply Nat.eq_of_testBit_eq
  intro i
  rw [testBit_read]
  by_cases hi : i < width
  · rw [getLsbD_write hfits hvalue (by omega)]
    simp [hi]
  · have hzero : value.testBit i = false := by
      apply Nat.testBit_lt_two_pow
      exact Nat.lt_of_lt_of_le hvalue (Nat.pow_le_pow_right (by decide) (by omega))
    simp [hi, hzero]

/-- Fields without a common bit. -/
def Apart (start width start' width' : Nat) : Prop := start + width ≤ start' ∨ start' + width' ≤ start

theorem Apart.symm (h : Apart start width start' width') : Apart start' width' start width := Or.symm h

/-- What is read from a field beside one that was written. -/
theorem read_write_apart (hapart : Apart start width start' width') (hfits : start + width ≤ 64)
    (hfits' : start' + width' ≤ 64) (hvalue : value < 2 ^ width) :
    read (write word start width value) start' width' = read word start' width' := by
  apply Nat.eq_of_testBit_eq
  intro i
  rw [testBit_read, testBit_read]
  by_cases hi : i < width'
  · rw [getLsbD_write hfits hvalue (by omega)]
    rw [if_neg (by rcases hapart with h | h <;> omega)]
  · simp [hi]

/-- Two words are one if no field tells them apart. -/
theorem word_ext {word' : BitVec 64} (h : ∀ i < 64, word.getLsbD i = word'.getLsbD i) : word = word' :=
  BitVec.eq_of_getLsbD_eq h

/-- Fields apart are written in either order. -/
theorem write_comm (hapart : Apart start width start' width') (hfits : start + width ≤ 64)
    (hfits' : start' + width' ≤ 64) (hvalue : value < 2 ^ width) (hvalue' : value' < 2 ^ width') :
    write (write word start width value) start' width' value' =
      write (write word start' width' value') start width value := by
  apply word_ext
  intro i hi
  rw [getLsbD_write hfits' hvalue' hi, getLsbD_write hfits hvalue hi, getLsbD_write hfits hvalue hi,
    getLsbD_write hfits' hvalue' hi]
  rcases hapart with h | h <;> split <;> split <;> first | rfl | omega

/-- What was in a field, or in a part of it, before it was written does not count. -/
theorem write_write (hfits : start + width ≤ 64) (hvalue : value < 2 ^ width) (hle : start ≤ start')
    (hle' : start' + width' ≤ start + width) (hvalue' : value' < 2 ^ width') :
    write (write word start' width' value') start width value = write word start width value := by
  apply word_ext
  intro i hi
  rw [getLsbD_write hfits hvalue hi, getLsbD_write hfits hvalue hi, getLsbD_write (by omega) hvalue' hi]
  split
  · rfl
  · rw [if_neg (by omega)]

/-- Writing what is there. -/
theorem write_read (hfits : start + width ≤ 64) (h : read word start width = value) :
    write word start width value = word := by
  apply word_ext
  intro i hi
  rw [getLsbD_write hfits (by rw [← h]; exact read_lt ..) hi]
  split
  · rw [← h, testBit_read]
    simp only [show i - start < width by omega, decide_true, Bool.true_and]
    congr 1
    omega
  · rfl

/-- What is read from a field inside one that was set to 0. -/
theorem read_write_zero (hfits : start + width ≤ 64) (hle : start ≤ start') (hle' : start' + width' ≤ start + width) :
    read (write word start width 0) start' width' = 0 := by
  apply Nat.eq_of_testBit_eq
  intro i
  rw [testBit_read, Nat.zero_testBit]
  by_cases hi : i < width'
  · rw [getLsbD_write hfits (Nat.pow_pos (by decide)) (by omega), if_pos (by omega)]
    simp
  · simp [hi]

/-! ### Positions and the counter number -/

variable {id : InstanceId} {d d' : Dimension} {p p' k : Nat}

/-- The id moved along `d` to a position that fits. -/
def put (d : Dimension) (p : Nat) (id : InstanceId) : InstanceId := ⟨write id.word d.start d.width p⟩

/-- The id with a counter number that fits. -/
def withCounter (k : Nat) (id : InstanceId) : InstanceId := ⟨write id.word positionBits 16 k⟩

theorem setPosition_eq_ok (h : p < 2 ^ d.width) : id.setPosition d p = .ok (id.put d p) := by
  unfold setPosition
  rw [if_neg]
  · rfl
  · show ¬p > 2 ^ d.width - 1
    omega

theorem setCounter_eq_ok (h : k ≤ maxCounterId) : id.setCounter k = .ok (id.withCounter k) := by
  unfold setCounter
  rw [if_neg (Nat.not_lt.mpr h)]
  rfl

theorem clear_eq_put : id.clear d = id.put d 0 := rfl

theorem end_le (d : Dimension) : d.start + d.width ≤ positionBits := by cases d <;> decide

theorem fits (d : Dimension) : d.start + d.width ≤ 64 := Nat.le_trans (end_le d) (by decide)

theorem fits_counter : positionBits + 16 ≤ 64 := by decide

theorem apart_counter (d : Dimension) : Apart d.start d.width positionBits 16 := Or.inl (end_le d)

theorem width_of_ne (hd : d ≠ .none) : d.width = 6 := by
  cases d with
  | none => exact absurd rfl hd
  | _ => rfl

theorem apart (hd : d ≠ .none) (hd' : d' ≠ .none) (hne : d ≠ d') : Apart d.start d.width d'.start d'.width := by
  unfold Apart
  revert hd hd' hne
  cases d <;> cases d' <;> decide

theorem within_none (d : Dimension) : Dimension.none.start ≤ d.start ∧
    d.start + d.width ≤ Dimension.none.start + Dimension.none.width :=
  ⟨Nat.zero_le _, end_le d⟩

theorem lt_two_pow_width (hd : d ≠ .none) (hp : p < maxAxisSize) : p < 2 ^ d.width := by
  rw [width_of_ne hd]
  exact hp

theorem zero_lt_two_pow (n : Nat) : 0 < 2 ^ n := Nat.pow_pos (by decide)

theorem position_put_same (h : p < 2 ^ d.width) : (id.put d p).position d = p := read_write_same (fits d) h

theorem position_put_of_ne (hd : d ≠ .none) (hd' : d' ≠ .none) (hne : d ≠ d') (h : p < 2 ^ d.width) :
    (id.put d p).position d' = id.position d' := read_write_apart (apart hd hd' hne) (fits d) (fits d') h

theorem position_withCounter (h : k ≤ maxCounterId) : (id.withCounter k).position d = id.position d :=
  read_write_apart (apart_counter d).symm fits_counter (fits d) (Nat.lt_succ_of_le h)

theorem put_comm (hd : d ≠ .none) (hd' : d' ≠ .none) (hne : d ≠ d') (h : p < 2 ^ d.width) (h' : p' < 2 ^ d'.width) :
    (id.put d p).put d' p' = (id.put d' p').put d p :=
  congrArg InstanceId.mk (write_comm (apart hd hd' hne) (fits d) (fits d') h h')

theorem put_put (h : p < 2 ^ d.width) (h' : p' < 2 ^ d.width) : (id.put d p').put d p = id.put d p :=
  congrArg InstanceId.mk (write_write (fits d) h (Nat.le_refl _) (Nat.le_refl _) h')

/-- Moving an id to where it is. -/
theorem put_position (h : id.position d = p) : id.put d p = id := congrArg InstanceId.mk (write_read (fits d) h)

theorem put_withCounter (h : p < 2 ^ d.width) (hk : k ≤ maxCounterId) :
    (id.put d p).withCounter k = (id.withCounter k).put d p :=
  congrArg InstanceId.mk (write_comm (apart_counter d) (fits d) fits_counter h (Nat.lt_succ_of_le hk))

theorem clear_none_put (h : p < 2 ^ d.width) : (id.put d p).clear .none = id.clear .none :=
  congrArg InstanceId.mk (write_write (fits .none) (zero_lt_two_pow _) (within_none d).1 (within_none d).2 h)

theorem position_clear_none (d : Dimension) : (id.clear .none).position d = 0 :=
  read_write_zero (fits .none) (within_none d).1 (within_none d).2

/-! ### Ids at position 0 -/

/-- The id is at position 0 of every dimension. -/
def Origin (id : InstanceId) : Prop := id.clear .none = id

theorem origin_clear_none (id : InstanceId) : (id.clear .none).Origin := by
  unfold Origin
  rw [clear_eq_put, clear_eq_put, put_put (zero_lt_two_pow _) (zero_lt_two_pow _)]

theorem origin_zero : zero.Origin := by
  unfold Origin
  decide

theorem Origin.position (h : id.Origin) (d : Dimension) : id.position d = 0 := by
  rw [← h]
  exact position_clear_none d

theorem Origin.clear (h : id.Origin) (d : Dimension) : id.clear d = id := put_position (h.position d)

theorem Origin.clearAll (h : id.Origin) (ds : List Dimension) : id.clearAll ds = id := by
  induction ds with
  | nil => rfl
  | cons d ds ih =>
    show (id.clear d).clearAll ds = id
    rw [h.clear d, ih]

theorem Origin.withCounter (h : id.Origin) (hk : k ≤ maxCounterId) : (id.withCounter k).Origin := by
  unfold Origin
  rw [clear_eq_put, ← put_withCounter (zero_lt_two_pow _) hk, ← clear_eq_put, h]

/-- A dimension without a slot takes all positions with it. -/
theorem clearAll_of_none_mem {ds : List Dimension} (h : Dimension.none ∈ ds) : id.clearAll ds = id.clear .none := by
  induction ds generalizing id with
  | nil => cases h
  | cons d ds ih =>
    show (id.clear d).clearAll ds = _
    rcases List.mem_cons.mp h with rfl | h
    · exact (origin_clear_none id).clearAll ds
    · rw [ih h, clear_eq_put (d := d), clear_none_put (zero_lt_two_pow _)]

end InstanceId

end PerfCounters
