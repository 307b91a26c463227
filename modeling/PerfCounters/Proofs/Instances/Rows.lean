import PerfCounters.Proofs.Instances.Layouts
import PerfCounters.Sample

/-! Values laid out over a layout: as many values as the layout has cells become samples with the ids of the
    layout, in order. -/

namespace PerfCounters

open InstanceId

namespace Layout

variable {l r s : Layout} {o : InstanceId} {i j k p : Nat}

/-- The digits of a number in the radices of a layout, the lowest digit first. -/
def digits : Layout → Nat → List (Dimension × Nat)
  | [], _ => []
  | a :: more, i => (a.dimension, i % max a.size 1) :: digits more (i / max a.size 1)

theorem count_reverse (l : Layout) : count l.reverse = l.count := by
  rw [count_eq_prod, count_eq_prod, List.map_reverse, List.prod_reverse_nat]

theorem positionsBackwards_eq_digits (hi : i < r.count) : positionsBackwards r i = digits r i := by
  induction r generalizing i with
  | nil => rfl
  | cons a r ih =>
    rw [count_cons] at hi
    cases r with
    | nil =>
      have hlt : i < max a.size 1 := by simpa [count] using hi
      show [(a.dimension, i)] = [(a.dimension, i % max a.size 1)]
      rw [Nat.mod_eq_of_lt hlt]
    | cons b r =>
      show (a.dimension, i % max a.size 1) :: positionsBackwards (b :: r) (i / max a.size 1) = _
      rw [ih (Nat.div_lt_of_lt_mul hi)]
      rfl

theorem digits_append (r s : Layout) (i : Nat) : digits (r ++ s) i = digits r i ++ digits s (i / r.count) := by
  induction r generalizing i with
  | nil =>
    show digits s i = digits s (i / 1)
    rw [Nat.div_one]
  | cons a r ih =>
    rw [List.cons_append, digits, ih, Nat.div_div_eq_div_mul, ← count_cons]
    rfl

/-- Multiples of the number of cells do not count. -/
theorem digits_mul_add (r : Layout) (p j : Nat) : digits r (p * r.count + j) = digits r j := by
  induction r generalizing p j with
  | nil => rfl
  | cons a r ih =>
    have hpos : 0 < max a.size 1 := by omega
    have hswap : p * (max a.size 1 * count r) + j = j + max a.size 1 * (p * count r) := by
      rw [Nat.mul_left_comm, Nat.add_comm]
    rw [digits, digits, count_cons, hswap, Nat.add_mul_mod_self_left, Nat.add_mul_div_left _ _ hpos,
      Nat.add_comm, ih]

theorem mem_digits {x : Dimension × Nat} (hl : l.Proper) (hx : x ∈ digits l i) :
    x.1 ≠ .none ∧ x.2 < maxAxisSize := by
  induction l generalizing i with
  | nil => cases hx
  | cons a l ih =>
    obtain ⟨hslot, hpos, hmax⟩ := encodable_iff.mp (hl.encodable a List.mem_cons_self)
    rcases List.mem_cons.mp hx with rfl | hx
    · have hlt : i % max a.size 1 < max a.size 1 := Nat.mod_lt _ (by omega)
      exact ⟨hslot, by show i % max a.size 1 < maxAxisSize; omega⟩
    · exact ih hl.tail hx

theorem Proper.reverse (h : l.Proper) : Proper l.reverse :=
  ⟨fun a ha => h.encodable a (List.mem_reverse.mp ha), by
    rw [List.map_reverse]
    exact List.nodup_reverse.mpr h.distinct⟩

/-- An id moved to positions, one after the other. -/
def place (o : InstanceId) (ps : List (Dimension × Nat)) : InstanceId := ps.foldl (fun id p => id.put p.1 p.2) o

theorem pack_eq_ok {ps : List (Dimension × Nat)} (hk : k ≤ maxCounterId) (hps : ∀ p ∈ ps, p.2 < 2 ^ p.1.width) :
    pack k ps = .ok (place (zero.withCounter k) ps) := by
  have hfold : ∀ id : InstanceId, ps.foldlM (fun id p => id.setPosition p.1 p.2) id = .ok (place id ps) := by
    induction ps with
    | nil => exact fun id => rfl
    | cons p ps ih =>
      intro id
      rw [List.foldlM_cons, setPosition_eq_ok (hps p List.mem_cons_self)]
      exact ih (fun q hq => hps q (List.mem_cons_of_mem _ hq)) _
  unfold pack
  rw [setCounter_eq_ok hk]
  exact hfold _

theorem range_mul (n m : Nat) :
    List.range (n * m) = (List.range n).flatMap fun p => (List.range m).map fun j => p * m + j := by
  induction n with
  | zero => simp
  | succ n ih => rw [Nat.succ_mul, List.range_add, ih, List.range_succ, List.flatMap_append, List.flatMap_singleton]

/-- The ids of a layout, from its positions. -/
theorem ids_eq_map_positions (h : l.Proper) (o : InstanceId) :
    l.ids o = (List.range l.count).map fun i => place o (l.positions i) := by
  have hdigits : ∀ i ∈ List.range l.count, place o (l.positions i) = place o (digits l.reverse i) := by
    intro i hi
    rw [positions, positionsBackwards_eq_digits]
    rw [count_reverse]
    exact List.mem_range.mp hi
  rw [List.map_congr_left hdigits]
  clear hdigits
  induction l with
  | nil => rfl
  | cons a rest ih =>
    have hsize : max a.size 1 = a.size := Nat.max_eq_left (h.size_pos List.mem_cons_self)
    rw [count_cons, hsize, range_mul, List.map_flatMap]
    show (List.range a.size).flatMap (fun p => (ids rest o).map (put a.dimension p)) = _
    apply List.flatMap_congr
    intro p hp
    rw [ih h.tail, List.map_map, List.map_map]
    apply List.map_congr_left
    intro j hj
    -- The first axis is the last digit: the row, with the place in the row left over.
    have hrow : (p * count rest + j) / count rest % a.size = p := by
      rw [Nat.mul_comm, Nat.mul_add_div (count_pos rest), Nat.div_eq_of_lt (List.mem_range.mp hj), Nat.add_zero]
      exact Nat.mod_eq_of_lt (List.mem_range.mp hp)
    have hdigits : digits (a :: rest).reverse (p * count rest + j) = digits rest.reverse j ++ [(a.dimension, p)] := by
      rw [List.reverse_cons, digits_append, count_reverse]
      nth_rewrite 1 [← count_reverse rest]
      rw [digits_mul_add]
      show _ ++ [(a.dimension, (p * count rest + j) / count rest % max a.size 1)] = _
      rw [hsize, hrow]
    show put a.dimension p (place o (digits rest.reverse j)) = place o (digits (a :: rest).reverse (p * count rest + j))
    rw [hdigits]
    unfold place
    rw [List.foldl_append]
    rfl

/-- As many values as there are cells become samples with the ids of the layout. -/
theorem layOut_ok {α : Type} {values : List α} (h : l.Proper) (hk : k ≤ maxCounterId) (hlen : values.length = l.count) :
    ∃ records, Sample.layOut k l values = .ok records ∧ records.map (fun r => r.id) = l.ids (zero.withCounter k) := by
  have hstep : ∀ x ∈ values.zipIdx, (do return ({ id := ← pack k (l.positions x.2), value := x.1 } : Sample α)) =
      Except.ok ({ id := place (zero.withCounter k) (l.positions x.2), value := x.1 } : Sample α) := by
    intro x hx
    have hi : x.2 < l.count := hlen ▸ (List.mem_zipIdx' hx).1
    rw [pack_eq_ok hk]
    · rfl
    · intro p hp
      rw [positions, positionsBackwards_eq_digits (by rwa [count_reverse])] at hp
      obtain ⟨hslot, hlt⟩ := mem_digits h.reverse hp
      exact lt_two_pow_width hslot hlt
  refine ⟨_, mapM_eq_ok hstep, ?_⟩
  rw [ids_eq_map_positions h, List.map_map, ← hlen, List.range_eq_range', ← List.zipIdx_map_snd 0 values, List.map_map]
  rfl

end Layout

end PerfCounters
