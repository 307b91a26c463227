import PerfCounters.Proofs.Instances.Rows

/-! An id as a record of independent fields. Whatever is done to an id, each field holds the last value that was written
    to it and fitted, and a call that is refused changes nothing. The field of all positions lies over the slots of
    the single dimensions: writing it writes each of them with its bits of the value. -/

namespace PerfCounters

namespace InstanceId

/-- A field that is written in one with others holds its bits of the value. -/
theorem read_write_inside {word : BitVec 64} {start width value start' width' : Nat}
    (hfits : start + width ≤ 64) (hvalue : value < 2 ^ width) (hle : start ≤ start')
    (hle' : start' + width' ≤ start + width) :
    read (write word start width value) start' width' = value / 2 ^ (start' - start) % 2 ^ width' := by
  apply Nat.eq_of_testBit_eq
  intro i
  rw [testBit_read, Nat.testBit_mod_two_pow, Nat.testBit_div_two_pow]
  by_cases hi : i < width'
  · rw [getLsbD_write hfits hvalue (by omega), if_pos (by omega), show start' + i - start = i + (start' - start) by omega]
  · simp [hi]

/-! ### Calls that change an id -/

/-- What can be done to an id. -/
inductive Change where
  | counter (k : Nat)
  | position (d : Dimension) (p : Nat)
  | clear (d : Dimension)
deriving DecidableEq, Repr

namespace Change

/-- The lowest bit of the field that is written. -/
def start : Change → Nat
  | .counter _ => positionBits
  | .position d _ | .clear d => d.start

/-- The number of bits of this field. -/
def width : Change → Nat
  | .counter _ => 16
  | .position d _ | .clear d => d.width

def value : Change → Nat
  | .counter k => k
  | .position _ p => p
  | .clear _ => 0

def apply (c : Change) (id : InstanceId) : Except DimensionError InstanceId :=
  match c with
  | .counter k => id.setCounter k
  | .position d p => id.setPosition d p
  | .clear d => .ok (id.clear d)

/-- The value that the call writes to the counter number, if it does and is not refused. -/
def counter? : Change → Option Nat
  | .counter k => if k < 2 ^ 16 then some k else none
  | .position _ _ | .clear _ => none

/-- The value that the call writes to the position along a dimension with a slot, if it does and is not refused. -/
def position? (d : Dimension) : Change → Option Nat
  | .counter _ => none
  | .position e p =>
    if e = d then (if p < 2 ^ d.width then some p else none)
    else if e = .none then (if p < 2 ^ positionBits then some (p / 2 ^ d.start % 2 ^ d.width) else none)
    else none
  | .clear e => if e = d ∨ e = .none then some 0 else none

end Change

/-- The id after a call; a refused call leaves it. -/
def change (id : InstanceId) (c : Change) : InstanceId :=
  match c.apply id with
  | .ok id => id
  | .error _ => id

def changes (id : InstanceId) (cs : List Change) : InstanceId := cs.foldl change id

variable {id id' : InstanceId} {c : Change} {d : Dimension} {k value i : Nat} {ps qs : List (Dimension × Nat)}

theorem fits_change (c : Change) : c.start + c.width ≤ 64 := by
  cases c with
  | counter => exact fits_counter
  | position d | clear d => exact fits d

/-- A call writes its value to its field. -/
theorem apply_of_fits (h : c.value < 2 ^ c.width) (id : InstanceId) :
    c.apply id = .ok ⟨write id.word c.start c.width c.value⟩ := by
  cases c with
  | counter k => exact setCounter_eq_ok (Nat.le_of_lt_succ h)
  | position d p => exact setPosition_eq_ok h
  | clear d => rfl

/-- A call is refused if its field is too small. -/
theorem apply_of_large (h : 2 ^ c.width ≤ c.value) (id : InstanceId) : ∃ e, c.apply id = .error e := by
  cases c with
  | counter k => exact ⟨_, if_pos h⟩
  | position d p => exact ⟨_, if_pos (Nat.lt_of_lt_of_le (Nat.sub_lt (zero_lt_two_pow d.width) Nat.one_pos) h)⟩
  | clear d => exact absurd h (Nat.not_le.mpr (zero_lt_two_pow d.width))

theorem change_of_fits (h : c.value < 2 ^ c.width) : id.change c = ⟨write id.word c.start c.width c.value⟩ := by
  rw [change, apply_of_fits h]

theorem change_of_large (h : 2 ^ c.width ≤ c.value) : id.change c = id := by
  obtain ⟨e, he⟩ := apply_of_large h id
  rw [change, he]

/-- A call changes no bit outside of its field. -/
theorem getLsbD_of_apply (h : c.apply id = .ok id') (hi : i < c.start ∨ c.start + c.width ≤ i) :
    id'.word.getLsbD i = id.word.getLsbD i := by
  rcases Nat.lt_or_ge c.value (2 ^ c.width) with hfits | hlarge
  · rw [apply_of_fits hfits] at h
    cases h
    by_cases h64 : i < 64
    · rw [getLsbD_write (fits_change c) hfits h64, if_neg (by omega)]
    · rw [BitVec.getLsbD_of_ge _ _ (Nat.le_of_not_lt h64), BitVec.getLsbD_of_ge _ _ (Nat.le_of_not_lt h64)]
  · obtain ⟨e, he⟩ := apply_of_large hlarge id
    rw [he] at h
    cases h

theorem counter_change (id : InstanceId) (c : Change) : (id.change c).counter = c.counter?.getD id.counter := by
  rcases Nat.lt_or_ge c.value (2 ^ c.width) with hfits | hlarge
  · rw [change_of_fits hfits]
    cases c with
    | counter k =>
      have hk : Change.counter? (.counter k) = some k := if_pos hfits
      rw [hk]
      exact read_write_same fits_counter hfits
    | position d p | clear d => exact read_write_apart (apart_counter d) (fits d) fits_counter hfits
  · rw [change_of_large hlarge]
    cases c with
    | counter k =>
      have hk : Change.counter? (.counter k) = none := if_neg (Nat.not_lt.mpr hlarge)
      rw [hk, Option.getD_none]
    | position d p | clear d => rfl

/-- Writing a dimension, or all of them, as it shows along one with a slot. -/
theorem position_write (hd : d ≠ .none) {e : Dimension} (hvalue : value < 2 ^ e.width) :
    (⟨write id.word e.start e.width value⟩ : InstanceId).position d =
      if e = d then value else if e = .none then value / 2 ^ d.start % 2 ^ d.width else id.position d := by
  by_cases hed : e = d
  · subst hed
    rw [if_pos rfl]
    exact read_write_same (fits e) hvalue
  · rw [if_neg hed]
    by_cases he : e = .none
    · subst he
      rw [if_pos rfl]
      exact read_write_inside (fits .none) hvalue (within_none d).1 (within_none d).2
    · rw [if_neg he]
      exact read_write_apart (apart he hd hed) (fits e) (fits d) hvalue

theorem position?_of_fits {e : Dimension} {p : Nat} (h : p < 2 ^ e.width) (d : Dimension) :
    (Change.position e p).position? d =
      if e = d then some p else if e = .none then some (p / 2 ^ d.start % 2 ^ d.width) else none := by
  by_cases hed : e = d
  · subst hed
    simp [Change.position?, h]
  · by_cases he : e = .none
    · subst he
      have hp : p < 2 ^ positionBits := h
      simp [Change.position?, hed, hp]
    · simp [Change.position?, hed, he]

theorem position?_of_large {e : Dimension} {p : Nat} (h : 2 ^ e.width ≤ p) (d : Dimension) :
    (Change.position e p).position? d = none := by
  by_cases hed : e = d
  · subst hed
    simp [Change.position?, h]
  · by_cases he : e = .none
    · subst he
      have hp : 2 ^ positionBits ≤ p := h
      simp [Change.position?, hed, hp]
    · simp [Change.position?, hed, he]

theorem position_change (hd : d ≠ .none) (id : InstanceId) (c : Change) :
    (id.change c).position d = (c.position? d).getD (id.position d) := by
  rcases Nat.lt_or_ge c.value (2 ^ c.width) with hfits | hlarge
  · rw [change_of_fits hfits]
    cases c with
    | counter k => exact read_write_apart (apart_counter d).symm fits_counter (fits d) hfits
    | position e p =>
      have hp : p < 2 ^ e.width := hfits
      rw [position?_of_fits hp]
      refine (position_write hd hp).trans ?_
      split
      · rfl
      · split <;> rfl
    | clear e =>
      refine (position_write hd hfits).trans ?_
      by_cases hed : e = d <;> by_cases he : e = .none <;> simp [Change.position?, Change.value, hed, he]
  · rw [change_of_large hlarge]
    cases c with
    | counter k => rfl
    | position e p =>
      have hp : 2 ^ e.width ≤ p := hlarge
      rw [position?_of_large hp, Option.getD_none]
    | clear e => exact absurd hlarge (Nat.not_le.mpr (zero_lt_two_pow _))

/-- The last value that was written to a field is what the field holds after all calls. -/
theorem read_changes (field : InstanceId → Nat) {value? : Change → Option Nat}
    (h : ∀ id c, field (id.change c) = (value? c).getD (field id)) (id : InstanceId) (cs : List Change) :
    field (id.changes cs) = (cs.filterMap value?).getLastD (field id) := by
  induction cs generalizing id with
  | nil => rfl
  | cons c cs ih =>
    show field ((id.change c).changes cs) = _
    rw [ih, h]
    cases hc : value? c with
    | none => rw [List.filterMap_cons_none hc, Option.getD_none]
    | some v => rw [List.filterMap_cons_some hc, Option.getD_some, List.getLastD_cons]

/-! ### Packing -/

/-- The positions can be packed: each fits the slot of its dimension, and no dimension has two. -/
structure Packable (ps : List (Dimension × Nat)) : Prop where
  slotted : ∀ x ∈ ps, x.1 ≠ .none
  fits : ∀ x ∈ ps, x.2 < maxAxisSize
  distinct : (ps.map Prod.fst).Nodup

theorem Packable.tail {x : Dimension × Nat} (h : Packable (x :: ps)) : Packable ps :=
  ⟨fun y hy => h.slotted y (List.mem_cons_of_mem _ hy), fun y hy => h.fits y (List.mem_cons_of_mem _ hy),
    (List.nodup_cons.mp h.distinct).2⟩

theorem Packable.lt_width (h : Packable ps) {x : Dimension × Nat} (hx : x ∈ ps) : x.2 < 2 ^ x.1.width :=
  lt_two_pow_width (h.slotted x hx) (h.fits x hx)

theorem position_place_of_not_mem (h : Packable ps) (hd : d ≠ .none) (hnot : d ∉ ps.map Prod.fst) (o : InstanceId) :
    (Layout.place o ps).position d = o.position d := by
  induction ps generalizing o with
  | nil => rfl
  | cons x ps ih =>
    rw [List.map_cons, List.mem_cons, not_or] at hnot
    show (Layout.place (o.put x.1 x.2) ps).position d = _
    rw [ih h.tail hnot.2]
    exact position_put_of_ne (h.slotted x List.mem_cons_self) hd (Ne.symm hnot.1) (h.lt_width List.mem_cons_self)

theorem position_place_of_mem (h : Packable ps) {x : Dimension × Nat} (hx : x ∈ ps) (o : InstanceId) :
    (Layout.place o ps).position x.1 = x.2 := by
  induction ps generalizing o with
  | nil => cases hx
  | cons y ps ih =>
    rcases List.mem_cons.mp hx with rfl | hx
    · show (Layout.place (o.put x.1 x.2) ps).position x.1 = x.2
      rw [position_place_of_not_mem h.tail (h.slotted x List.mem_cons_self) (List.nodup_cons.mp h.distinct).1]
      exact position_put_same (h.lt_width List.mem_cons_self)
    · exact ih h.tail hx _

theorem counter_place (h : Packable ps) (o : InstanceId) : (Layout.place o ps).counter = o.counter := by
  induction ps generalizing o with
  | nil => rfl
  | cons x ps ih =>
    show (Layout.place (o.put x.1 x.2) ps).counter = _
    rw [ih h.tail]
    exact read_write_apart (apart_counter x.1) (fits x.1) fits_counter (h.lt_width List.mem_cons_self)

/-- Positions along distinct dimensions are placed in any order. -/
theorem place_perm (h : Packable ps) (hperm : ps.Perm qs) (o : InstanceId) : Layout.place o ps = Layout.place o qs := by
  refine hperm.foldl_eq' (fun x hx y hy id => ?_) o
  by_cases hxy : x = y
  · rw [hxy]
  · have hne : x.1 ≠ y.1 := fun heq => hxy (List.inj_on_of_nodup_map h.distinct hx hy heq)
    exact put_comm (h.slotted x hx) (h.slotted y hy) hne (h.lt_width hx) (h.lt_width hy)

/-- What packing makes of positions, whatever their order. -/
theorem pack_of_perm (hk : k ≤ maxCounterId) (h : Packable ps) (hperm : ps.Perm qs) :
    pack k qs = .ok (Layout.place (zero.withCounter k) ps) := by
  rw [place_perm h hperm]
  exact Layout.pack_eq_ok hk fun x hx => h.lt_width (hperm.mem_iff.mpr hx)

/-- The fields of an id are independent: each holds what was last written to it, a call is refused just when its value
is too large for its field and changes no bit outside of it, and packing gives each position its field. -/
theorem changes_keep_fields_apart (id : InstanceId) (cs : List Change) :
    (id.changes cs).counter = (cs.filterMap Change.counter?).getLastD id.counter ∧
      (∀ d, d ≠ .none → (id.changes cs).position d = (cs.filterMap (Change.position? d)).getLastD (id.position d)) ∧
      (∀ c : Change, ((∃ e, c.apply id = .error e) ↔ 2 ^ c.width ≤ c.value) ∧
        ∀ id', c.apply id = .ok id' → ∀ i, i < c.start ∨ c.start + c.width ≤ i →
          id'.word.getLsbD i = id.word.getLsbD i) ∧
      ∀ k ps, k ≤ maxCounterId → Packable ps → ∃ packed, (∀ qs, ps.Perm qs → pack k qs = .ok packed) ∧
        packed.counter = k ∧ (∀ x ∈ ps, packed.position x.1 = x.2) ∧
        ∀ d, d ≠ .none → d ∉ ps.map Prod.fst → packed.position d = 0 := by
  refine ⟨read_changes counter counter_change id cs,
    fun d hd => read_changes (fun id => id.position d) (position_change hd) id cs,
    fun c => ⟨⟨fun ⟨e, he⟩ => ?_, fun hlarge => apply_of_large hlarge id⟩, fun id' hok i hi => ?_⟩, fun k ps hk h => ?_⟩
  · by_contra hfits
    rw [apply_of_fits (Nat.lt_of_not_le hfits)] at he
    cases he
  · exact getLsbD_of_apply hok hi
  · refine ⟨Layout.place (zero.withCounter k) ps, fun qs hperm => pack_of_perm hk h hperm, ?_,
      fun x hx => position_place_of_mem h hx _, fun d hd hnot => ?_⟩
    · rw [counter_place h]
      exact read_write_same fits_counter (Nat.lt_succ_of_le hk)
    · rw [position_place_of_not_mem h hd hnot, position_withCounter hk]
      exact origin_zero.position d

/-- A position that is too large is refused; then all positions are written at once, and some of them again. -/
def mixedChanges : List Change :=
  [.position .xcc 64, .position .none 0x1041, .clear .aid, .counter 7, .counter 0x10000, .position .inst 3]

theorem fields_apart_in_mixedChanges :
    let id := (⟨0xFFFFFFFFFFFFFFFF⟩ : InstanceId).changes mixedChanges
    (id.counter = 7 ∧ id.position .xcc = 1 ∧ id.position .aid = 0 ∧ id.position .shaderEngine = 1 ∧ id.position .inst = 3) ∧
      ∃ packed, pack 9 [(.aid, 5), (.xcc, 2)] = .ok packed ∧ pack 9 [(.xcc, 2), (.aid, 5)] = .ok packed ∧
        packed.counter = 9 ∧ packed.position .aid = 5 ∧ packed.position .wgp = 0 := by
  obtain ⟨hcounter, hposition, -, hpack⟩ := changes_keep_fields_apart ⟨0xFFFFFFFFFFFFFFFF⟩ mixedChanges
  have hpackable : Packable [(.aid, 5), (.xcc, 2)] := ⟨by decide, by decide, by decide⟩
  obtain ⟨packed, hperm, hcounter', hmem, hnot⟩ := hpack 9 _ (by decide) hpackable
  refine ⟨⟨hcounter.trans (by decide), (hposition .xcc (by decide)).trans (by decide),
    (hposition .aid (by decide)).trans (by decide), (hposition .shaderEngine (by decide)).trans (by decide),
    (hposition .inst (by decide)).trans (by decide)⟩, packed, hperm _ (.refl _), hperm _ (.swap _ _ _), hcounter', ?_, ?_⟩
  · exact hmem (.aid, 5) (by decide)
  · exact hnot .wgp (by decide) (by decide)

end InstanceId

end PerfCounters
