import PerfCounters.Proofs.Instances.Spilling
import PerfCounters.Proofs.Trees.Regrouping
import PerfCounters.Proofs.Trees.Selections

/-! Reductions of a whole layout. A layout splits into the axes that a reduction takes away and those that remain. For each
    cell of the remaining axes the cells of the others are a block, which is gathered in row-major order whether or not
    its cells are neighbours; and the blocks come in the row-major order of the remaining axes. -/

namespace PerfCounters

open InstanceId

namespace Layout

variable {α : Type} {l rest : Layout} {ds : List Dimension} {cell inner outer : Dimension → Nat} {d : Dimension} {k p : Nat}
  {o id id' : InstanceId}

/-- The place of a cell in row-major order. -/
def rank : Layout → (Dimension → Nat) → Nat
  | [], _ => 0
  | a :: rest, cell => cell a.dimension * count rest + rank rest cell

/-- The axes along one of `ds`. -/
def collapsed (l : Layout) (ds : List Dimension) : Layout := l.filter fun a => ds.contains a.dimension

/-- The axes along other dimensions than `ds`. -/
def remaining (l : Layout) (ds : List Dimension) : Layout := l.filter fun a => !ds.contains a.dimension

/-- The cell with the positions of `inner` along `ds`, and those of `outer` elsewhere. -/
def overlay (ds : List Dimension) (inner outer : Dimension → Nat) : Dimension → Nat :=
  fun d => if d ∈ ds then inner d else outer d

/-- The cells differ along `ds` only. -/
def Beside (ds : List Dimension) (cell outer : Dimension → Nat) : Prop := ∀ d ∈ Dimension.slotted, d ∉ ds → cell d = outer d

instance (ds : List Dimension) (cell outer : Dimension → Nat) : Decidable (Beside ds cell outer) :=
  inferInstanceAs (Decidable (∀ d ∈ Dimension.slotted, d ∉ ds → cell d = outer d))

theorem Proper.collapsed (h : l.Proper) (ds : List Dimension) : (l.collapsed ds).Proper := h.filter _

theorem Proper.remaining (h : l.Proper) (ds : List Dimension) : (l.remaining ds).Proper := h.filter _

/-! ### Cells -/

theorem cells_cons (a : Axis) (rest : Layout) : cells (a :: rest) =
    (List.range a.size).flatMap fun p => (cells rest).map fun f => Function.update f a.dimension p := rfl

theorem zero_of_mem_cells (hcell : cell ∈ l.cells) (hd : d ∉ l.map Axis.dimension) : cell d = 0 := by
  induction l generalizing cell with
  | nil =>
    rw [cells, List.mem_singleton] at hcell
    rw [hcell]
  | cons a rest ih =>
    rw [List.map_cons, List.mem_cons, not_or] at hd
    obtain ⟨p, -, hcell⟩ := List.mem_flatMap.mp hcell
    obtain ⟨f, hf, rfl⟩ := List.mem_map.mp hcell
    rw [Function.update_of_ne hd.1]
    exact ih hf hd.2

theorem rank_update (hd : d ∉ l.map Axis.dimension) : l.rank (Function.update cell d p) = l.rank cell := by
  induction l with
  | nil => rfl
  | cons a rest ih =>
    rw [List.map_cons, List.mem_cons, not_or] at hd
    rw [rank, rank, Function.update_of_ne (Ne.symm hd.1), ih hd.2]

/-- The cells are listed by their places. -/
theorem map_rank_cells (h : l.Proper) : l.cells.map l.rank = List.range l.count := by
  induction l with
  | nil => rfl
  | cons a rest ih =>
    have hnot : a.dimension ∉ rest.map Axis.dimension := (List.nodup_cons.mp h.distinct).1
    have hsize : max a.size 1 = a.size := Nat.max_eq_left (h.size_pos List.mem_cons_self)
    rw [cells_cons, List.map_flatMap, count_cons, hsize, range_mul]
    refine List.flatMap_congr fun p _ => ?_
    rw [← ih h.tail, List.map_map, List.map_map]
    refine List.map_congr_left fun f _ => ?_
    show Function.update f a.dimension p a.dimension * count rest + rank rest (Function.update f a.dimension p) = _
    rw [Function.update_self, rank_update hnot]
    rfl

theorem length_cells (h : l.Proper) : l.cells.length = (l.map Axis.size).prod := by
  rw [← List.length_map l.rank, map_rank_cells h, List.length_range, h.count_eq]

theorem rank_getElem (h : l.Proper) {i : Nat} (hi : i < l.cells.length) : l.rank l.cells[i] = i := by
  have hcount : i < l.count := by rwa [h.count_eq, ← length_cells h]
  have hget : (l.cells.map l.rank)[i]? = some (l.rank l.cells[i]) := by
    rw [List.getElem?_map, List.getElem?_eq_getElem hi, Option.map_some]
  rw [map_rank_cells h, List.getElem?_range hcount] at hget
  exact (Option.some.inj hget).symm

theorem beside_update (hd : d ∈ ds) : Beside ds (Function.update cell d p) outer ↔ Beside ds cell outer := by
  refine forall₃_congr fun e _ he => ?_
  have hne : e ≠ d := fun heq => he (heq ▸ hd)
  rw [Function.update_of_ne hne]

/-- Along a dimension beside `ds` the positions have to be equal. -/
theorem beside_update_update {q : Nat} (hd : d ≠ .none) (hds : d ∉ ds) (hcell : cell d = 0) (houter : outer d = 0) :
    Beside ds (Function.update cell d p) (Function.update outer d q) ↔ p = q ∧ Beside ds cell outer := by
  constructor
  · intro h
    have hhere := h d (Dimension.mem_slotted_iff.mpr hd) hds
    rw [Function.update_self, Function.update_self] at hhere
    refine ⟨hhere, fun e he he' => ?_⟩
    by_cases hed : e = d
    · rw [hed, hcell, houter]
    · have hthere := h e he he'
      rwa [Function.update_of_ne hed, Function.update_of_ne hed] at hthere
  · rintro ⟨rfl, h⟩ e he he'
    by_cases hed : e = d
    · rw [hed, Function.update_self, Function.update_self]
    · rw [Function.update_of_ne hed, Function.update_of_ne hed]
      exact h e he he'

theorem overlay_update_inner (hd : d ∈ ds) :
    overlay ds (Function.update inner d p) outer = Function.update (overlay ds inner outer) d p := by
  funext e
  by_cases hed : e = d
  · rw [hed, Function.update_self, overlay, if_pos hd, Function.update_self]
  · simp only [overlay, Function.update_of_ne hed]

theorem overlay_update_outer (hd : d ∉ ds) :
    overlay ds inner (Function.update outer d p) = Function.update (overlay ds inner outer) d p := by
  funext e
  by_cases hed : e = d
  · rw [hed, Function.update_self, overlay, if_neg hd, Function.update_self]
  · simp only [overlay, Function.update_of_ne hed]

/-- A row along one of `ds` is taken with the cells behind it. -/
theorem filter_row_of_mem (hd : d ∈ ds) (cells : List (Dimension → Nat)) :
    ((cells.map fun f => Function.update f d p).filter fun cell => Beside ds cell outer) =
      (cells.filter fun cell => Beside ds cell outer).map fun f => Function.update f d p := by
  rw [List.filter_map]
  exact congrArg _ (List.filter_congr fun f _ => decide_eq_decide.mpr (beside_update hd))

/-- Of the rows along another dimension only that of the outer cell is taken. -/
theorem filter_row_of_notMem {q : Nat} (hslot : d ≠ .none) (hd : d ∉ ds) (houter : outer d = 0)
    {cells : List (Dimension → Nat)}
    (hcells : ∀ f ∈ cells, f d = 0) :
    ((cells.map fun f => Function.update f d p).filter fun cell => Beside ds cell (Function.update outer d q)) =
      if p == q then (cells.filter fun cell => Beside ds cell outer).map fun f => Function.update f d p else [] := by
  rw [List.filter_map]
  have hiff : ∀ f ∈ cells, Beside ds (Function.update f d p) (Function.update outer d q) ↔ p = q ∧ Beside ds f outer :=
    fun f hf => beside_update_update hslot hd (hcells f hf) houter
  by_cases hpq : p = q
  · rw [if_pos (beq_iff_eq.mpr hpq)]
    exact congrArg _ (List.filter_congr fun f hf => decide_eq_decide.mpr ((hiff f hf).trans (and_iff_right hpq)))
  · rw [if_neg fun heq => hpq (beq_iff_eq.mp heq), List.map_eq_nil_iff, List.filter_eq_nil_iff]
    exact fun f hf hbeside => hpq ((hiff f hf).mp (of_decide_eq_true hbeside)).1

/-- The cells beside a cell of the remaining axes are its overlays with the cells of the collapsed ones, in their order. -/
theorem filter_cells (h : l.Proper) (houter : outer ∈ (l.remaining ds).cells) :
    (l.cells.filter fun cell => Beside ds cell outer) = (l.collapsed ds).cells.map fun inner => overlay ds inner outer := by
  induction l generalizing outer with
  | nil =>
    rw [remaining, List.filter_nil, cells, List.mem_singleton] at houter
    subst houter
    have hsame : overlay ds (fun _ => 0) (fun _ => 0) = fun _ => 0 := funext fun d => ite_self 0
    show [fun _ => 0].filter _ = [overlay ds (fun _ => 0) (fun _ => 0)]
    rw [hsame]
    exact List.filter_eq_self.mpr fun f hf => by rw [List.mem_singleton.mp hf]; exact decide_eq_true fun _ _ _ => rfl
  | cons a rest ih =>
    have hslot : a.dimension ≠ .none := (encodable_iff.mp (h.encodable a List.mem_cons_self)).1
    have hnot : a.dimension ∉ rest.map Axis.dimension := (List.nodup_cons.mp h.distinct).1
    rw [cells_cons, List.filter_flatMap]
    by_cases hmem : a.dimension ∈ ds
    · have hcollapsed : collapsed (a :: rest) ds = a :: collapsed rest ds := by simp [collapsed, hmem]
      have hremaining : remaining (a :: rest) ds = remaining rest ds := by simp [remaining, hmem]
      rw [hremaining] at houter
      rw [hcollapsed, cells_cons, List.map_flatMap]
      refine List.flatMap_congr fun p _ => ?_
      rw [filter_row_of_mem hmem, ih h.tail houter, List.map_map, List.map_map]
      exact List.map_congr_left fun f _ => (overlay_update_inner hmem).symm
    · have hcollapsed : collapsed (a :: rest) ds = collapsed rest ds := by simp [collapsed, hmem]
      have hremaining : remaining (a :: rest) ds = a :: remaining rest ds := by simp [remaining, hmem]
      rw [hremaining] at houter
      obtain ⟨q, hq, houter⟩ := List.mem_flatMap.mp houter
      obtain ⟨base, hbase, rfl⟩ := List.mem_map.mp houter
      have hzero : base a.dimension = 0 :=
        zero_of_mem_cells hbase fun hd => hnot ((List.filter_sublist.map Axis.dimension).subset hd)
      have hrow := fun p => filter_row_of_notMem (p := p) (q := q) hslot hmem hzero fun f hf => zero_of_mem_cells hf hnot
      have hone : (List.range a.size).filter (fun p => p == q) = [q] := by
        rw [List.filter_beq, List.count_eq_one_of_mem List.nodup_range hq]
        rfl
      rw [List.flatMap_congr fun p _ => hrow p, flatMap_if (fun p => p == q), hone, List.flatMap_singleton, ih h.tail hbase,
        List.map_map, hcollapsed]
      exact List.map_congr_left fun f _ => (overlay_update_outer hmem).symm

/-! ### Samples of a layout -/

/-- The sample is at the cell, with the value at its place. -/
structure Laid (l : Layout) (k : Nat) (values : List α) (s : Sample α) (cell : Dimension → Nat) : Prop where
  counter : s.id.counter = k
  position : At s.id cell
  value : values[l.rank cell]? = some s.value

theorem counter_of_mem_ids (h : l.Proper) (hk : k ≤ maxCounterId) (hid : id ∈ l.ids (zero.withCounter k)) :
    id.counter = k := by
  have hclear := Axes.clear_none_of_mem_grid h.axes (origin_zero.withCounter hk) hid
  have hcounter : (id.clear .none).counter = id.counter :=
    read_write_apart (apart_counter .none) (fits .none) fits_counter (zero_lt_two_pow _)
  rw [← hcounter, hclear]
  exact read_write_same fits_counter (Nat.lt_succ_of_le hk)

/-- Values laid out are at the cells of the layout, in their order. -/
theorem layOut_cells {values : List α} (h : l.Proper) (hne : l ≠ []) (hk : k ≤ maxCounterId)
    (hlen : values.length = (l.map Axis.size).prod) :
    ∃ records, Sample.layOut k l values = .ok records ∧ records.map (fun r => r.id) = l.ids (zero.withCounter k) ∧
      List.Forall₂ (Laid l k values) records l.cells := by
  obtain ⟨records, hok, hids⟩ := layOut_ok h hk (hlen.trans h.count_eq.symm)
  have hvalues : records.map (fun r => r.value) = values := by
    obtain ⟨a, rest, rfl⟩ := List.exists_cons_of_ne_nil hne
    exact ((layOut_enumerates h hk values).2 records hok).1
  have hat : List.Forall₂ (fun r cell => At r.id cell) records l.cells :=
    List.forall₂_map_left_iff.mp (hids ▸ at_cells_ids h (origin_zero.withCounter hk))
  refine ⟨records, hok, hids, List.forall₂_iff_get.mpr ⟨hat.length_eq, fun i hi hi' => ⟨?_, hat.get hi hi', ?_⟩⟩⟩
  · refine counter_of_mem_ids h hk ?_
    rw [← hids]
    exact List.mem_map_of_mem (List.get_mem _ _)
  · have hrank : l.rank (l.cells.get ⟨i, hi'⟩) = i := rank_getElem h hi'
    rw [hrank, ← hvalues, List.getElem?_map, List.getElem?_eq_getElem hi]
    rfl

/-- Ids of a layout come to one id without `ds` just when their positions along the other dimensions are equal. -/
theorem clearAll_eq_iff (h : l.Proper) (ho : o.Origin) (hds : Dimension.none ∉ ds) (hid : id ∈ l.ids o)
    (hid' : id' ∈ l.ids o) : id.clearAll ds = id'.clearAll ds ↔ Beside ds id.position id'.position := by
  constructor
  · intro heq d hd hnot
    have hslot := Dimension.mem_slotted_iff.mp hd
    have hposition := congrArg (fun id => InstanceId.position id d) heq
    simpa only [position_clearAll hslot hds, if_neg hnot] using hposition
  · intro hbeside
    have hmem : ∀ id ∈ l.ids o, id.clearAll ds ∈ (l.without ds.contains).ids o := fun id hid => by
      rw [← eraseDups_clearAll_ids h ho hds, List.mem_eraseDups]
      exact List.mem_map_of_mem hid
    refine Axes.eq_of_mem_grid (h.without _).axes ho (hmem id hid) (hmem id' hid') fun d hslot => ?_
    rw [position_clearAll hslot hds, position_clearAll hslot hds]
    split
    · rfl
    · rename_i hnot
      exact hbeside d (Dimension.mem_slotted_iff.mpr hslot) hnot

/-- What is filtered from two lists in step stays in step. -/
theorem map_filter_of_forall₂ {β γ δ : Type} {p : β → Bool} {q : γ → Bool} {f : β → δ} {g : γ → δ}
    {xs : List β} {ys : List γ}
    (h : List.Forall₂ (fun x y => p x = q y ∧ f x = g y) xs ys) : (xs.filter p).map f = (ys.filter q).map g := by
  induction h with
  | nil => rfl
  | cons hxy _ ih =>
    rw [List.filter_cons, List.filter_cons, hxy.1]
    split
    · rw [List.map_cons, List.map_cons, hxy.2, ih]
    · exact ih

theorem Beside.congr {cell' : Dimension → Nat} (h : ∀ d, d ≠ .none → cell d = cell' d) :
    Beside ds cell outer ↔ Beside ds cell' outer :=
  forall₃_congr fun d hd _ => by rw [h d (Dimension.mem_slotted_iff.mp hd)]

section Groups

variable {op : Reduction α} {values : List α} {records : Records α}

/-- The values beside a cell of the remaining axes, in the row-major order of the collapsed ones. -/
theorem values_beside (h : l.Proper) (hlaid : List.Forall₂ (Laid l k values) records l.cells)
    (houter : outer ∈ (l.remaining ds).cells) :
    ((records.filter fun s => Beside ds s.id.position outer).map fun s => some s.value) =
      (l.collapsed ds).cells.map fun inner => values[l.rank (overlay ds inner outer)]? := by
  have hstep := map_filter_of_forall₂ (p := fun s : Sample α => decide (Beside ds s.id.position outer))
    (q := fun cell => decide (Beside ds cell outer)) (f := fun s => some s.value) (g := fun cell => values[l.rank cell]?)
    (hlaid.imp fun s cell hs => ⟨decide_eq_decide.mpr (Beside.congr hs.position), hs.value.symm⟩)
  rw [hstep, filter_cells h houter, List.map_map]
  rfl

/-- The members of a group are the samples beside its cell. -/
theorem members_eq_beside {outerId : InstanceId} (h : l.Proper) (hk : k ≤ maxCounterId) (hds : Dimension.none ∉ ds)
    (hids : records.map (fun r => r.id) = l.ids (zero.withCounter k)) (hkey : outerId ∈ Records.keys ds records)
    (hat : At outerId outer) :
    Records.members ds outerId records = records.filter fun s => Beside ds s.id.position outer := by
  obtain ⟨s, hs, rfl⟩ := Records.mem_keys.mp hkey
  have hmem : ∀ r ∈ records, r.id ∈ l.ids (zero.withCounter k) := fun r hr => hids ▸ List.mem_map_of_mem hr
  refine List.filter_congr fun r hr => decide_eq_decide.mpr ?_
  refine (clearAll_eq_iff h (origin_zero.withCounter hk) hds (hmem r hr) (hmem s hs)).trans ?_
  refine forall₃_congr fun d hd hnot => ?_
  have hslot := Dimension.mem_slotted_iff.mp hd
  rw [← hat d hslot, position_clearAll hslot hds, if_neg hnot]

/-- The result for a cell of the remaining axes: it is made of the values beside this cell, which are those of the collapsed
    axes in row-major order. -/
structure Collapses (op : Reduction α) (l : Layout) (ds : List Dimension) (k : Nat) (values : List α) (records : Records α)
    (outer : Dimension → Nat) (r : Sample α) : Prop where
  counter : r.id.counter = k
  position : At r.id outer
  cleared : ∀ d ∈ ds, r.id.position d = 0
  value : ∃ first rest, (records.filter fun s => Beside ds s.id.position outer).map (fun s => s.value) = first :: rest ∧
    (first :: rest).map some = (l.collapsed ds).cells.map (fun inner => values[l.rank (overlay ds inner outer)]?) ∧
    (first :: rest).length = ((l.collapsed ds).map Axis.size).prod ∧
    r.value = op.finish (rest.foldl op.combine first) (first :: rest).length

theorem collapses_of_merges {outerId : InstanceId} {r : Sample α} (h : l.Proper) (hk : k ≤ maxCounterId)
    (hds : Dimension.none ∉ ds) (hids : records.map (fun r => r.id) = l.ids (zero.withCounter k))
    (hlaid : List.Forall₂ (Laid l k values) records l.cells)
    (hkey : outerId ∈ Records.keys ds records) (houter : outer ∈ (l.remaining ds).cells) (hat : At outerId outer)
    (hmerges : Records.Merges op outerId (Records.members ds outerId records) r) :
    Collapses op l ds k values records outer r := by
  have hbeside := values_beside h hlaid houter
  rw [members_eq_beside h hk hds hids hkey hat] at hmerges
  obtain ⟨first, rest, hgroup, rfl⟩ := hmerges
  rw [hgroup] at hbeside
  obtain ⟨s, hs, hclear⟩ := Records.mem_keys.mp hkey
  have hvalues : (first.value :: rest.map fun s => s.value).map some =
      (l.collapsed ds).cells.map fun inner => values[l.rank (overlay ds inner outer)]? := by
    rw [← hbeside, List.map_cons, List.map_cons, List.map_map]
    rfl
  refine ⟨?_, hat, fun d hd => ?_, first.value, rest.map fun s => s.value, ?_, hvalues, ?_, ?_⟩
  · rw [← hclear, counter_clearAll]
    exact counter_of_mem_ids h hk (hids ▸ List.mem_map_of_mem hs)
  · have hslot : d ≠ .none := fun heq => hds (heq ▸ hd)
    show outerId.position d = 0
    rw [← hclear, position_clearAll hslot hds, if_pos hd]
  · rw [hgroup, List.map_cons]
  · rw [← length_cells (h.collapsed ds), ← List.length_map some, hvalues, List.length_map]
  · rw [hgroup, List.foldl_map, List.length_cons, List.length_cons, List.length_map]

end Groups

/-- A reduction over some dimensions of a whole layout has one result for each cell of the axes that remain, in row-major
    order and at position 0 along the dimensions: one in all if no axis remains. It is made of the values whose other
    positions are those of the cell. They are as many for each cell as the collapsed axes have cells, and they are combined
    in the row-major order of these. -/
theorem reduce_collapses_axes {values : List α} (op : Reduction α) (h : l.Proper) (hne : l ≠ []) (hk : k ≤ maxCounterId)
    (hds : ds ≠ []) (hslot : Dimension.none ∉ ds) (hlen : values.length = (l.map Axis.size).prod) :
    ∃ records, Sample.layOut k l values = .ok records ∧ List.Forall₂ (Laid l k values) records l.cells ∧
      List.Forall₂ (Collapses op l ds k values records) (l.remaining ds).cells (Records.reduce op ds records) := by
  obtain ⟨records, hok, hids, hlaid⟩ := layOut_cells h hne hk hlen
  have ho := origin_zero.withCounter hk
  have hkeys : Records.keys ds records = (l.remaining ds).ids (zero.withCounter k) := by
    have hmap : (records.map fun r => r.id.clearAll ds) = (l.ids (zero.withCounter k)).map fun id => id.clearAll ds := by
      rw [← hids, List.map_map]
      rfl
    rw [Records.keys, hmap, eraseDups_clearAll_ids h ho hslot, ids_without h ho]
    rfl
  have hgroups : List.Forall₂ (fun outerId r => Records.Merges op outerId (Records.members ds outerId records) r)
      (Records.keys ds records) (Records.reduce op ds records) := Records.reduce_merges hds records
  have hmerges := List.forall₂_iff_get.mp hgroups
  have hat := List.forall₂_iff_get.mp (hkeys ▸ at_cells_ids (h.remaining ds) ho)
  refine ⟨records, hok, hlaid, List.forall₂_iff_get.mpr ⟨hat.1.symm.trans hmerges.1, fun i hi hi' => ?_⟩⟩
  have hkey : i < (Records.keys ds records).length := hmerges.1 ▸ hi'
  exact collapses_of_merges h hk hslot hids hlaid (List.get_mem _ _) (List.get_mem _ _) (hat.2 i hkey hi)
    (hmerges.2 i hkey hi')

/-- Values that are strung together as digits, behind their number. -/
def strung : Reduction Nat := ⟨fun x y => 10 * x + y, fun x n => 1000 * n + x⟩

/-- Eight values, of which the second axis of three is collapsed: each group has a value from either half of a row. -/
theorem reduce_collapses_middleAxis :
    Proper [⟨.xcc, 2⟩, ⟨.aid, 2⟩, ⟨.wgp, 2⟩] ∧ 7 ≤ maxCounterId ∧
    ∃ records, Sample.layOut 7 [⟨.xcc, 2⟩, ⟨.aid, 2⟩, ⟨.wgp, 2⟩] [1, 2, 3, 4, 5, 6, 7, 8] = .ok records ∧
      List.Forall₂ (Collapses strung [⟨.xcc, 2⟩, ⟨.aid, 2⟩, ⟨.wgp, 2⟩] [.aid] 7 [1, 2, 3, 4, 5, 6, 7, 8] records)
        (cells [⟨.xcc, 2⟩, ⟨.wgp, 2⟩]) (Records.reduce strung [.aid] records) ∧
      (Records.reduce strung [.aid] records).map (fun r => r.value) = [2013, 2024, 2057, 2068] := by
  have hproper : Proper [⟨.xcc, 2⟩, ⟨.aid, 2⟩, ⟨.wgp, 2⟩] := ⟨by decide, by decide⟩
  have hcounter : 7 ≤ maxCounterId := by decide
  have haid : ([.aid] : List Dimension) ≠ [] := by decide
  have hlength : [1, 2, 3, 4, 5, 6, 7, 8].length =
      (([⟨.xcc, 2⟩, ⟨.aid, 2⟩, ⟨.wgp, 2⟩] : Layout).map Axis.size).prod := by decide
  obtain ⟨records, hok, -, hresults⟩ :=
    reduce_collapses_axes strung hproper (List.cons_ne_nil _ _) hcounter haid (by decide) hlength
  have hvalues : (Sample.layOut 7 [⟨.xcc, 2⟩, ⟨.aid, 2⟩, ⟨.wgp, 2⟩] [1, 2, 3, 4, 5, 6, 7, 8]).map
      (fun records => (Records.reduce strung [.aid] records).map fun r => r.value) = .ok [2013, 2024, 2057, 2068] := by
    simp only [Records.reduce_eq_filterMap haid]
    decide +kernel
  rw [hok] at hvalues
  exact ⟨hproper, hcounter, records, hok, hresults, Except.ok.inj hvalues⟩

end Layout

end PerfCounters
