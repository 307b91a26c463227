import Mathlib.Data.List.Forall2
import PerfCounters.Proofs.Instances.Grid
import PerfCounters.Tree.Inference

/-! The ids of a layout, and what reducing and selecting make of them. The values of a counter are laid out
    over these ids; leaving out axes is taking the other positions along them for one; keeping one position
    along each of some axes is leaving out these axes. -/

namespace PerfCounters

open InstanceId

namespace Layout

variable {l l' : Layout} {o id : InstanceId} {d : Dimension} {ds : List Dimension}

/-- The axes of a block that was accepted: each can be told apart in an id, and none stands twice. -/
structure Proper (l : Layout) : Prop where
  encodable : ∀ a ∈ l, a.encodable = true
  distinct : (l.map Axis.dimension).Nodup

/-- All positions along each axis. -/
def axes (l : Layout) : Axes := l.map fun a => (a.dimension, List.range a.size)

/-- The ids of a layout, in row-major order. -/
def ids (l : Layout) (origin : InstanceId) : List InstanceId := l.axes.grid origin

/-- The cells of a layout, in row-major order: the position along every dimension, which is 0 along those that
    the layout does not have. -/
def cells : Layout → List (Dimension → Nat)
  | [] => [fun _ => 0]
  | a :: rest => (List.range a.size).flatMap fun p => (cells rest).map fun f => Function.update f a.dimension p

theorem encodable_iff {a : Axis} :
    a.encodable = true ↔ a.dimension ≠ .none ∧ 1 ≤ a.size ∧ a.size ≤ maxAxisSize := by
  simp [Axis.encodable, and_assoc]

theorem Proper.tail {a : Axis} (h : Proper (a :: l)) : Proper l :=
  ⟨fun b hb => h.encodable b (List.mem_cons_of_mem _ hb), (List.nodup_cons.mp h.distinct).2⟩

theorem Proper.size_pos {a : Axis} (h : l.Proper) (ha : a ∈ l) : 1 ≤ a.size := (encodable_iff.mp (h.encodable a ha)).2.1

theorem Proper.axes (h : l.Proper) : l.axes.Proper := by
  refine ⟨fun x hx => ?_, fun x hx p hp => ?_, ?_⟩
  · obtain ⟨a, ha, rfl⟩ := List.mem_map.mp hx
    exact (encodable_iff.mp (h.encodable a ha)).1
  · obtain ⟨a, ha, rfl⟩ := List.mem_map.mp hx
    exact Nat.lt_of_lt_of_le (List.mem_range.mp hp) (encodable_iff.mp (h.encodable a ha)).2.2
  · show ((l.map _).map Prod.fst).Nodup
    rw [List.map_map]
    exact h.distinct

theorem Proper.filter (h : l.Proper) (keep : Axis → Bool) : Proper (l.filter keep) :=
  ⟨fun a ha => h.encodable a (List.mem_filter.mp ha).1, h.distinct.sublist ((List.filter_sublist).map _)⟩

theorem proper_scalar : Proper scalar := ⟨by decide, by decide⟩

theorem Proper.orScalar (h : l.Proper) : Proper (orScalar l) := by
  unfold Layout.orScalar
  split
  · exact proper_scalar
  · exact h

theorem Proper.without (h : l.Proper) (removed : Dimension → Bool) : Proper (l.without removed) := (h.filter _).orScalar

/-! ### How many ids -/

theorem count_eq_prod (l : Layout) : l.count = (l.map fun a => max a.size 1).prod := by
  have hfold : ∀ (l : Layout) (n : Nat), l.foldl (fun n a => n * max a.size 1) n =
      n * (l.map fun a => max a.size 1).prod := by
    intro l
    induction l with
    | nil => intro n; simp
    | cons a l ih => intro n; simp [ih, Nat.mul_assoc]
  rw [count, hfold, Nat.one_mul]

theorem count_cons (a : Axis) (l : Layout) : count (a :: l) = max a.size 1 * l.count := by
  simp [count_eq_prod]

theorem count_pos (l : Layout) : 0 < l.count := by
  rw [count_eq_prod, List.prod_pos_iff_forall_pos_nat]
  intro n hn
  obtain ⟨a, _, rfl⟩ := List.mem_map.mp hn
  exact Nat.le_max_right a.size 1

theorem length_ids (h : l.Proper) (o : InstanceId) : (l.ids o).length = l.count := by
  rw [ids, Axes.length_grid, count_eq_prod, axes, List.map_map]
  congr 1
  apply List.map_congr_left
  intro a ha
  have := h.size_pos ha
  simp only [Function.comp_apply, List.length_range]
  omega

theorem nodup_ids (h : l.Proper) (ho : o.Origin) : (l.ids o).Nodup := by
  apply Axes.nodup_grid h.axes ho
  intro x hx
  obtain ⟨a, _, rfl⟩ := List.mem_map.mp hx
  exact List.nodup_range

/-- No cell twice. -/
theorem nodup_positions_ids (h : l.Proper) (ho : o.Origin) :
    ((l.ids o).map fun id => Dimension.slotted.map id.position).Nodup := by
  apply List.Nodup.map_on _ (nodup_ids h ho)
  intro id hid id' hid' heq
  apply Axes.eq_of_mem_grid h.axes ho hid hid'
  intro d hd
  exact List.map_inj_left.mp heq d (Dimension.mem_slotted_iff.mpr hd)

/-- The number of ids fits a machine word: there are seven dimensions of at most 64 positions. -/
theorem count_lt (h : l.Proper) : l.count < 2 ^ 64 := by
  have hlength : l.length ≤ 7 := by
    have hsub : l.map Axis.dimension ⊆ Dimension.slotted := by
      intro d hd
      obtain ⟨a, ha, rfl⟩ := List.mem_map.mp hd
      exact Dimension.mem_slotted_iff.mpr (encodable_iff.mp (h.encodable a ha)).1
    have hle := List.Nodup.length_le_of_subset h.distinct hsub
    rwa [List.length_map] at hle
  have hle : l.count ≤ maxAxisSize ^ l.length := by
    clear hlength
    induction l with
    | nil => exact Nat.le_refl 1
    | cons a l ih =>
      have hmax := (encodable_iff.mp (h.encodable a List.mem_cons_self)).2
      rw [count_cons, List.length_cons, Nat.pow_succ, Nat.mul_comm]
      exact Nat.mul_le_mul (ih h.tail) (by omega)
  calc l.count ≤ maxAxisSize ^ l.length := hle
    _ ≤ maxAxisSize ^ 7 := Nat.pow_le_pow_right (by decide) hlength
    _ < 2 ^ 64 := by decide

/-- The id is at a cell. -/
def At (id : InstanceId) (cell : Dimension → Nat) : Prop := ∀ d, d ≠ .none → id.position d = cell d

/-- The ids are at the cells of the layout, one after the other. -/
theorem at_cells_ids (h : l.Proper) (ho : o.Origin) : List.Forall₂ At (l.ids o) l.cells := by
  induction l with
  | nil => exact List.Forall₂.cons (fun d _ => ho.position d) List.Forall₂.nil
  | cons a rest ih =>
    show List.Forall₂ At ((List.range a.size).flatMap _) ((List.range a.size).flatMap _)
    apply List.rel_flatMap (R := fun p q => p = q ∧ p ∈ List.range a.size)
      (List.forall₂_same.mpr fun p hp => ⟨rfl, hp⟩)
    rintro p _ ⟨rfl, hp⟩
    apply List.rel_map _ (ih h.tail)
    intro id cell hat d hd
    have hslot := h.axes.head_slotted
    have hfits := h.axes.head_fits hp
    -- Moving along the first axis changes that position and no other.
    show (id.put a.dimension p).position d = Function.update cell a.dimension p d
    by_cases hne : a.dimension = d
    · rw [← hne, position_put_same hfits, Function.update_self]
    · rw [position_put_of_ne hslot hd hne hfits, Function.update_of_ne (Ne.symm hne), hat d hd]

/-! ### Axes of one position -/

/-- The axes with more than one position. -/
def wide (l : Layout) : Layout := l.filter fun a => a.size != 1

/-- An axis of one position moves nothing. -/
theorem ids_wide (h : l.Proper) (ho : o.Origin) : l.wide.ids o = l.ids o := by
  have hzero : ∀ x ∈ l.axes, (x.2.length == 1) = true → x.2 = [0] := by
    intro x hx hone
    obtain ⟨a, _, rfl⟩ := List.mem_map.mp hx
    have hsize : a.size = 1 := by simpa using hone
    show List.range a.size = [0]
    rw [hsize]
    rfl
  rw [ids, ids, Axes.grid_zero (fun x => x.2.length == 1) h.axes ho hzero, axes, axes, List.filter_map]
  congr 2
  apply List.filter_congr
  intro a ha
  simp [bne]

/-- Layouts with the same axes of more than one position. -/
def Alike (l l' : Layout) : Prop := l.wide = l'.wide

instance (l l' : Layout) : Decidable (Alike l l') := inferInstanceAs (Decidable (_ = _))

theorem Alike.ids_eq (h : Alike l l') (hl : l.Proper) (hl' : l'.Proper) (ho : o.Origin) : l.ids o = l'.ids o := by
  rw [← ids_wide hl ho, h, ids_wide hl' ho]

theorem alike_orScalar (l : Layout) : Alike (orScalar l) l := by
  unfold orScalar
  split
  · rename_i hnil
    rw [List.isEmpty_iff] at hnil
    subst hnil
    rfl
  · rfl

theorem ids_without (h : l.Proper) (ho : o.Origin) (removed : Dimension → Bool) :
    (l.without removed).ids o = ids (l.filter fun a => !removed a.dimension) o :=
  (alike_orScalar _).ids_eq (h.without removed) (h.filter _) ho

theorem count_eq_one_iff (h : l.Proper) : l.count = 1 ↔ ∀ a ∈ l, a.size = 1 := by
  induction l with
  | nil => exact ⟨fun _ a ha => (by cases ha), fun _ => rfl⟩
  | cons b rest ih =>
    rw [count_cons, List.forall_mem_cons, ← ih h.tail]
    have hpos := h.size_pos List.mem_cons_self
    constructor
    · intro hcount
      have hb := Nat.eq_one_of_mul_eq_one_right hcount
      exact ⟨by omega, Nat.eq_one_of_mul_eq_one_left hcount⟩
    · rintro ⟨hb, hrest⟩
      rw [hb, hrest]
      rfl

theorem count_without_of_count_one (h : l.Proper) (hcount : l.count = 1) (removed : Dimension → Bool) :
    (l.without removed).count = 1 := by
  have hfilter : count (l.filter fun a => !removed a.dimension) = 1 := by
    rw [count_eq_one_iff (h.filter _)]
    intro a ha
    exact (count_eq_one_iff h).mp hcount a (List.mem_filter.mp ha).1
  unfold without orScalar
  split
  · rfl
  · exact hfilter

theorem ids_of_count_one (h : l.Proper) (ho : o.Origin) (hcount : l.count = 1) : l.ids o = [o] := by
  have hwide : l.wide = [] := by
    apply List.filter_eq_nil_iff.mpr
    intro a ha
    simp [(count_eq_one_iff h).mp hcount a ha]
  rw [← ids_wide h ho, hwide]
  rfl

/-! ### Reductions and selections -/

/-- Ids cleared along `ds`, each once, are those of the layout without `ds`. -/
theorem eraseDups_clearAll_ids (h : l.Proper) (ho : o.Origin) (hds : Dimension.none ∉ ds) :
    ((l.ids o).map fun id => id.clearAll ds).eraseDups = (l.without ds.contains).ids o := by
  rw [ids_without h ho, ids, Axes.eraseDups_clearAll_grid h.axes ho hds, ids, axes, axes, List.filter_map]
  · rfl
  · intro x hx _ hnil
    obtain ⟨a, ha, rfl⟩ := List.mem_map.mp hx
    have := h.size_pos ha
    rw [List.range_eq_nil] at hnil
    omega
  · intro x hx _
    obtain ⟨a, ha, rfl⟩ := List.mem_map.mp hx
    exact List.nodup_range

/-- The number of positions along `d`; along a dimension that the layout does not have it is one. -/
def extent (l : Layout) (d : Dimension) : Nat := ((l.find? fun a => a.dimension == d).map Axis.size).getD 1

/-- The positions along `d` that filters leave. -/
def left (l : Layout) (filters : Filters) (d : Dimension) : List Nat := (List.range (l.extent d)).filter (filters.allows d)

/-- The filters leave a position along each dimension that they filter. Where they filter all positions at once,
    there is only one. -/
structure Met (l : Layout) (filters : Filters) : Prop where
  single : Dimension.none ∈ filters.dimensions → l.count = 1
  some_left : ∀ d ∈ filters.dimensions, l.left filters d ≠ []

/-- The filters leave one position along each dimension that they filter. -/
structure Pinned (l : Layout) (filters : Filters) : Prop where
  single : Dimension.none ∈ filters.dimensions → l.count = 1
  one_left : ∀ d ∈ filters.dimensions, (l.left filters d).length = 1

theorem Pinned.met {filters : Filters} (h : l.Pinned filters) : l.Met filters :=
  ⟨h.single, fun d hd hnil => by
    have hone := h.one_left d hd
    rw [hnil] at hone
    cases hone⟩

theorem extent_of_mem (h : l.Proper) {a : Axis} (ha : a ∈ l) : l.extent a.dimension = a.size := by
  have hfind : l.find? (fun b => b.dimension == a.dimension) = some a := by
    induction l with
    | nil => cases ha
    | cons b rest ih =>
      rcases List.mem_cons.mp ha with rfl | hmem
      · exact List.find?_cons_of_pos (by simp)
      · have hne : b.dimension ≠ a.dimension := fun heq =>
          (List.nodup_cons.mp h.distinct).1 (heq ▸ List.mem_map_of_mem hmem)
        rw [List.find?_cons_of_neg (by simpa using hne)]
        exact ih h.tail hmem
  rw [extent, hfind]
  rfl

theorem extent_of_notMem (hd : d ∉ l.map Axis.dimension) : l.extent d = 1 := by
  have hfind : l.find? (fun b => b.dimension == d) = none := by
    apply List.find?_eq_none.mpr
    intro b hb heq
    rw [beq_iff_eq] at heq
    exact hd (heq ▸ List.mem_map_of_mem hb)
  rw [extent, hfind]
  rfl

theorem axes_fst (l : Layout) : l.axes.map Prod.fst = l.map Axis.dimension := by
  rw [axes, List.map_map]
  rfl

/-- Along a dimension of one position, the position that is left is 0. -/
theorem allows_zero {filters : Filters} (hleft : l.left filters d ≠ []) (hone : l.extent d = 1) :
    filters.allows d 0 = true := by
  rw [left, hone] at hleft
  by_cases hallows : filters.allows d 0 = true
  · exact hallows
  · exact absurd (by simp [List.range_one, hallows]) hleft

/-- Along every dimension that a layout has, the filters leave what is left of its positions. -/
theorem mem_narrow {filters : Filters} (h : l.Proper) {x : Dimension × List Nat} (hx : x ∈ filters.narrow l.axes) :
    x.2 = l.left filters x.1 := by
  obtain ⟨y, hy, rfl⟩ := List.mem_map.mp hx
  obtain ⟨a, ha, rfl⟩ := List.mem_map.mp hy
  show (List.range a.size).filter _ = (List.range (l.extent a.dimension)).filter _
  rw [extent_of_mem h ha]

theorem proper_narrow (h : l.Proper) (filters : Filters) : Axes.Proper (filters.narrow l.axes) :=
  h.axes.of_positions (f := fun d ps => ps.filter (filters.allows d)) fun x hx p hp =>
    h.axes.fits x hx p (List.mem_filter.mp hp).1

/-- Without the filtered dimensions, what the filters leave are the axes without these dimensions. -/
theorem filter_narrow (l : Layout) (filters : Filters) :
    (filters.narrow l.axes).filter (fun x => !filters.dimensions.contains x.1) =
      axes (l.filter fun a => !filters.dimensions.contains a.dimension) := by
  rw [Filters.narrow, axes, axes, List.map_map, List.filter_map]
  apply List.map_congr_left
  intro a ha
  have hmem : a.dimension ∉ filters.dimensions := by simpa using (List.mem_filter.mp ha).2
  show (a.dimension, (List.range a.size).filter (filters.allows a.dimension)) = (a.dimension, List.range a.size)
  congr 1
  apply List.filter_eq_self.mpr
  intro p hp
  apply List.all_eq_true.mpr
  intro f hf
  have hne : f.1 ≠ a.dimension := fun heq => hmem (heq ▸ List.mem_map_of_mem hf)
  simp [hne]

section Selection

variable {filters : Filters}

/-- The ids of a layout that filters keep. -/
theorem filter_ids (h : l.Proper) (ho : o.Origin) (hmet : l.Met filters) (hnone : Dimension.none ∉ filters.dimensions) :
    (l.ids o).filter filters.keeps = Axes.grid o (filters.narrow l.axes) := by
  apply Filters.filter_grid h.axes ho hnone
  intro d hd hmem
  rw [axes_fst] at hmem
  exact allows_zero (hmet.some_left d hd) (extent_of_notMem hmem)

/-- One id, which filters keep. -/
theorem select_single (h : l.Proper) (ho : o.Origin) (hmet : l.Met filters) (hcount : l.count = 1) :
    ((l.ids o).filter filters.keeps).map (fun id => id.clearAll filters.dimensions) =
      (l.without filters.dimensions.contains).ids o := by
  have hone : ∀ d, l.extent d = 1 := by
    intro d
    by_cases hd : d ∈ l.map Axis.dimension
    · obtain ⟨a, ha, rfl⟩ := List.mem_map.mp hd
      rw [extent_of_mem h ha, (count_eq_one_iff h).mp hcount a ha]
    · exact extent_of_notMem hd
  have hkeeps : filters.keeps o = true :=
    Filters.keeps_of_origin ho fun d hd => allows_zero (hmet.some_left d hd) (hone d)
  have hcount' := count_without_of_count_one h hcount filters.dimensions.contains
  rw [ids_of_count_one h ho hcount, ids_of_count_one (h.without _) ho hcount', List.filter_cons_of_pos hkeeps,
    List.filter_nil, List.map_singleton, ho.clearAll]

/-- Selecting one position along each filtered dimension leaves out these dimensions. -/
theorem select_ids (h : l.Proper) (ho : o.Origin) (hpinned : l.Pinned filters) :
    ((l.ids o).filter filters.keeps).map (fun id => id.clearAll filters.dimensions) =
      (l.without filters.dimensions.contains).ids o := by
  by_cases hnone : Dimension.none ∈ filters.dimensions
  · exact select_single h ho hpinned.met (hpinned.single hnone)
  · rw [filter_ids h ho hpinned.met hnone, ids_without h ho,
      Axes.clearAll_grid_single (proper_narrow h filters) ho hnone, filter_narrow]
    · rfl
    · intro x hx hd
      rw [mem_narrow h hx]
      exact hpinned.one_left x.1 hd

/-- Selecting some positions along the filtered dimensions leaves out these dimensions, but for repetitions. -/
theorem eraseDups_select_ids (h : l.Proper) (ho : o.Origin) (hmet : l.Met filters) :
    (((l.ids o).filter filters.keeps).map (fun id => id.clearAll filters.dimensions)).eraseDups =
      (l.without filters.dimensions.contains).ids o := by
  by_cases hnone : Dimension.none ∈ filters.dimensions
  · rw [select_single h ho hmet (hmet.single hnone)]
    exact eraseDups_of_nodup (nodup_ids (h.without _) ho)
  · rw [filter_ids h ho hmet hnone, ids_without h ho,
      Axes.eraseDups_clearAll_grid (proper_narrow h filters) ho hnone, filter_narrow]
    · rfl
    · intro x hx hd
      rw [mem_narrow h hx]
      exact hmet.some_left x.1 hd
    · intro x hx _
      rw [mem_narrow h hx]
      exact List.nodup_range.filter _

end Selection

end Layout

end PerfCounters
