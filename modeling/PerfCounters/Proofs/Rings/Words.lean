import PerfCounters.Proofs.Rings.Placement

/-! Cursors in words of 64 bits. Every sum and difference that placing a slot takes is checked here: the
    checked calls have no result where one of them does not fit a word. While the write cursor stays two
    capacities below the largest word none of them fails, and the calls do what the unbounded ones do. -/

namespace PerfCounters

namespace Word

/-- The sum of two numbers, if it is a word. -/
def add? (a b : Nat) : Option Nat := if a + b < 2 ^ 64 then some (a + b) else none

/-- The difference of two numbers, if there is one. -/
def sub? (a b : Nat) : Option Nat := if b ≤ a then some (a - b) else none

/-- The least multiple of `align` from `n` on: what is missing is added. -/
def roundUp? (n align : Nat) : Option Nat :=
  if n % align = 0 then some n else (sub? align (n % align)).bind (add? n)

variable {a b n align : Nat}

theorem add?_eq (h : a + b < 2 ^ 64) : add? a b = some (a + b) := if_pos h

theorem sub?_eq (h : b ≤ a) : sub? a b = some (a - b) := if_pos h

theorem roundUp?_eq (hpos : 0 < align) (h : n + align ≤ 2 ^ 64) : roundUp? n align = some (roundUp n align) := by
  have hdiv := Nat.div_add_mod' n align
  have hlt := Nat.mod_lt n hpos
  have hnext : (n / align + 1) * align = n / align * align + align := Nat.succ_mul _ _
  unfold roundUp? roundUp
  by_cases hmod : n % align = 0
  · have hquot : (n + align - 1) / align = n / align := Nat.div_eq_of_lt_le (by omega) (by rw [hnext]; omega)
    rw [if_pos hmod, hquot]
    congr 1
    omega
  · have hquot : (n + align - 1) / align = n / align + 1 :=
      Nat.div_eq_of_lt_le (by rw [hnext]; omega) (by rw [Nat.succ_mul, hnext]; omega)
    rw [if_neg hmod, sub?_eq (Nat.le_of_lt hlt), Option.bind_some, add?_eq (by omega), hquot, hnext]
    congr 1
    omega

end Word

namespace Ring

variable {r : Ring} {cursor length align : Nat} {wrap : Bool}

/-- Where a slot starts, in words. -/
def place64 (r : Ring) (cursor length align : Nat) (wrap : Bool) : Option (Option Nat) := do
  let offset := cursor % r.capacity
  let aligned ← Word.roundUp? offset align
  let stop ← Word.add? aligned length
  if stop ≤ r.capacity then
    return some (← Word.add? cursor (← Word.sub? aligned offset))
  else if wrap then
    return some (← Word.add? cursor (← Word.sub? r.capacity offset))
  else return none

/-- Reserves a slot, in words. -/
def request64 (r : Ring) (length align : Nat) (wrap : Bool) : Option (Ring × Option Slot) :=
  if r.admits length align then do
    match ← r.place64 r.write length align wrap with
    | none => return (r, none)
    | some start =>
      let stop ← Word.add? start length
      if (← Word.sub? stop r.read) > r.capacity then return (r, none)
      else return ({ r with write := stop }, some (r.slotAt start length))
  else return (r, none)

/-- Takes a slot back, in words. -/
def retrieve64 (r : Ring) (length align : Nat) : Option (Ring × Option Slot) :=
  if r.admits length align && r.read < r.write then do
    match ← r.place64 r.read length align true with
    | none => return (r, none)
    | some start =>
      let stop ← Word.add? start length
      if stop > r.write then return (r, none)
      else return ({ r with read := stop }, some (r.slotAt start length))
  else return (r, none)

/-- The write cursor is two capacities below what a word cannot hold. -/
def Below (r : Ring) : Prop := r.write < 2 ^ 64 - 2 * r.capacity

instance (r : Ring) : Decidable r.Below := inferInstanceAs (Decidable (r.write < 2 ^ 64 - 2 * r.capacity))

theorem place64_eq (hfits : length ≤ r.capacity) (halign : align ∈ alignments) (h : cursor < 2 ^ 64 - 2 * r.capacity) :
    r.place64 cursor length align wrap = some (r.place? cursor length align wrap) := by
  have hpos := alignments_pos halign
  have hmax := le_of_mem_alignments halign
  have hoffset := Nat.mod_lt cursor r.capacity_pos
  have hle := Nat.mod_le cursor r.capacity
  have hup := le_roundUp (cursor % r.capacity) hpos
  have hlt := roundUp_lt (cursor % r.capacity) hpos
  unfold place64 place?
  simp only [Word.roundUp?_eq hpos (show cursor % r.capacity + align ≤ 2 ^ 64 by omega),
    Word.add?_eq (show roundUp (cursor % r.capacity) align + length < 2 ^ 64 by omega),
      Option.bind_eq_bind, Option.bind_some]
  by_cases hroom : roundUp (cursor % r.capacity) align + length ≤ r.capacity
  · rw [if_pos hroom, if_pos hroom, Word.sub?_eq hup, Option.bind_some, Word.add?_eq (by omega)]
    rfl
  · rw [if_neg hroom, if_neg hroom]
    by_cases hwrap : wrap = true
    · rw [if_pos hwrap, if_pos hwrap, Word.sub?_eq (Nat.le_of_lt hoffset), Option.bind_some, Word.add?_eq (by omega)]
      rfl
    · rw [if_neg hwrap, if_neg hwrap]
      rfl

theorem request64_eq (hw : r.Windowed) (h : r.Below) :
    r.request64 length align wrap = some (r.request length align wrap) := by
  have hread := hw.read_le
  unfold Below at h
  unfold request64 request
  by_cases hadmits : r.admits length align = true
  · obtain ⟨hpos, hfits, halign⟩ := admits_iff.mp hadmits
    rw [if_pos hadmits, if_pos hadmits, place64_eq hfits halign h]
    simp only [Option.bind_eq_bind, Option.bind_some]
    cases hplace : r.place? r.write length align wrap with
    | none => rfl
    | some start =>
      obtain ⟨hle, hturn, -⟩ := place?_eq_some hpos hfits (alignments_pos halign) hplace
      simp only [Word.add?_eq (show start + length < 2 ^ 64 by omega), Option.bind_some,
        Word.sub?_eq (show r.read ≤ start + length by omega)]
      split <;> rfl
  · rw [if_neg hadmits, if_neg hadmits]
    rfl

theorem retrieve64_eq (hw : r.Windowed) (h : r.Below) : r.retrieve64 length align = some (r.retrieve length align) := by
  have hread := hw.read_le
  unfold Below at h
  unfold retrieve64 retrieve
  by_cases hadmits : (r.admits length align && decide (r.read < r.write)) = true
  · obtain ⟨hpos, hfits, halign⟩ := admits_iff.mp (Bool.and_eq_true _ _ ▸ hadmits).1
    rw [if_pos hadmits, if_pos hadmits, place64_eq hfits halign (by omega)]
    simp only [Option.bind_eq_bind, Option.bind_some]
    cases hplace : r.place? r.read length align true with
    | none => rfl
    | some start =>
      obtain ⟨hle, hturn, -⟩ := place?_eq_some hpos hfits (alignments_pos halign) hplace
      simp only [Word.add?_eq (show start + length < 2 ^ 64 by omega), Option.bind_some]
      split <;> rfl
  · rw [if_neg hadmits, if_neg hadmits]
    rfl

end Ring

end PerfCounters
