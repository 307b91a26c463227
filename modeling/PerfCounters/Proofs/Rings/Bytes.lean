import Mathlib.Data.List.Basic

/-! Bytes under offsets. What was written is read back until some of its bytes are written again. -/

namespace PerfCounters

/-- The byte under every offset of an arena. -/
abbrev Memory := Nat → UInt8

namespace Memory

variable {m : Memory} {offset length : Nat} {bytes : List UInt8}

def write (m : Memory) (offset : Nat) (bytes : List UInt8) : Memory := fun i =>
  if offset ≤ i then bytes.getD (i - offset) (m i) else m i

def read (m : Memory) (offset length : Nat) : List UInt8 := (List.range length).map fun i => m (offset + i)

theorem read_write_same (m : Memory) (offset : Nat) (bytes : List UInt8) :
    (m.write offset bytes).read offset bytes.length = bytes := by
  apply List.ext_getElem
  · simp [read]
  · intro i _ hi
    simp [read, write, hi]

/-- Writing behind some bytes leaves them as they are. -/
theorem read_write_behind {start : Nat} (h : start + length ≤ offset) :
    (m.write offset bytes).read start length = m.read start length := by
  apply List.map_congr_left
  intro i hi
  have hlt : ¬offset ≤ start + i := by
    have := List.mem_range.mp hi
    omega
  exact if_neg hlt

/-- Writing before some bytes leaves them as they are, too. -/
theorem read_write_before {start : Nat} (h : offset + bytes.length ≤ start) :
    (m.write offset bytes).read start length = m.read start length := by
  apply List.map_congr_left
  intro i _
  have hle : offset ≤ start + i := by omega
  have hpast : bytes.length ≤ start + i - offset := by omega
  rw [write, if_pos hle, List.getD_eq_getElem?_getD, List.getElem?_eq_none hpast, Option.getD_none]

end Memory

end PerfCounters
