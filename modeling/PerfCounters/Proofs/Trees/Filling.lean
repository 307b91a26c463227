import PerfCounters.Proofs.Trees.Inference
import PerfCounters.Proofs.Trees.Shape

/-! When the ids of a value are those of the layout that was inferred for it. Inference compares lists of axes,
    evaluation counts samples: an operand with one axis is repeated along the other one by inference, an operand
    with one sample by evaluation. A selection may keep several positions along a dimension, or none, and has
    no axis for it. So a value may have the ids of its layout, or have some of them several times, or only be
    there at all; what follows from what below is said by `Tree.Fills`. -/

namespace PerfCounters

open InstanceId
open PerfCounters.Parser (bind_eq_ok)

/-- How the ids of a value go with its layout. -/
inductive Grade where
  /-- There are some. -/
  | inhabited
  /-- They are those of the layout, in order, if repetitions are left out. -/
  | covering
  /-- They are those of the layout, in order. -/
  | exact
deriving DecidableEq, Repr

/-- Ids of a grade, at positions of one origin. -/
def Filled (l : Layout) (ids : List InstanceId) (o : InstanceId) : Grade → Prop
  | .inhabited => ids ≠ [] ∧ ∀ id ∈ ids, id.clear .none = o
  | .covering => ids.eraseDups = l.ids o
  | .exact => ids = l.ids o

namespace Filled

variable {l l' : Layout} {ids : List InstanceId} {o : InstanceId} {g : Grade} {k : Nat}

theorem covering_of_exact (h : Filled l ids o .exact) (hl : l.Proper) (ho : o.Origin) : Filled l ids o .covering := by
  have h' : ids = l.ids o := h
  show ids.eraseDups = l.ids o
  rw [h', eraseDups_of_nodup (Layout.nodup_ids hl ho)]

theorem ids_ne_nil (hl : l.Proper) (o : InstanceId) : l.ids o ≠ [] := by
  intro hnil
  have hlen := Layout.length_ids hl o
  have hpos := Layout.count_pos l
  rw [hnil, List.length_nil] at hlen
  omega

theorem inhabited_of_covering (h : Filled l ids o .covering) (hl : l.Proper) (ho : o.Origin) :
    Filled l ids o .inhabited := by
  have h' : ids.eraseDups = l.ids o := h
  refine ⟨fun hnil => ids_ne_nil hl o ?_, fun id hid => ?_⟩
  · rw [← h', hnil]
    rfl
  · have hmem : id ∈ l.ids o := h' ▸ List.mem_eraseDups.mpr hid
    exact Axes.clear_none_of_mem_grid hl.axes ho hmem

/-- Exact ids are of every grade. -/
theorem of_exact (h : ids = l.ids o) (hl : l.Proper) (ho : o.Origin) (g : Grade) : Filled l ids o g := by
  have hexact : Filled l ids o .exact := h
  cases g with
  | inhabited => exact (hexact.covering_of_exact hl ho).inhabited_of_covering hl ho
  | covering => exact hexact.covering_of_exact hl ho
  | exact => exact h

theorem of_alike (h : Filled l ids o g) (hl : l.Proper) (hl' : l'.Proper) (ho : o.Origin) (halike : Layout.Alike l' l) :
    Filled l' ids o g := by
  have hids := halike.ids_eq hl' hl ho
  cases g with
  | inhabited => exact h
  | covering => exact Eq.trans h hids.symm
  | exact => exact Eq.trans h hids.symm

theorem map_withCounter_grid {axes : Axes} (h : axes.Proper) (hk : k ≤ maxCounterId) :
    (axes.grid o).map (withCounter k) = axes.grid (o.withCounter k) := by
  induction axes with
  | nil => rfl
  | cons x rest ih =>
    obtain ⟨d, ps⟩ := x
    rw [Axes.grid, Axes.grid, List.map_flatMap]
    apply List.flatMap_congr
    intro p hp
    rw [← ih h.tail, List.map_map, List.map_map]
    apply List.map_congr_left
    intro id _
    exact put_withCounter (h.head_fits hp) hk

theorem withCounter (h : Filled l ids o g) (hl : l.Proper) (ho : o.Origin) (hk : k ≤ maxCounterId) :
    Filled l (ids.map (withCounter k)) (o.withCounter k) g := by
  have hgrid : (l.ids o).map (InstanceId.withCounter k) = l.ids (o.withCounter k) := map_withCounter_grid hl.axes hk
  cases g with
  | inhabited =>
    refine ⟨fun hnil => h.1 (List.map_eq_nil_iff.mp hnil), fun id hid => ?_⟩
    obtain ⟨y, hy, rfl⟩ := List.mem_map.mp hid
    rw [clear_eq_put, ← put_withCounter (zero_lt_two_pow _) hk, ← clear_eq_put, h.2 y hy]
  | covering =>
    have h' : ids.eraseDups = l.ids o := h
    show (ids.map (InstanceId.withCounter k)).eraseDups = l.ids (o.withCounter k)
    rw [eraseDups_map, h', hgrid, eraseDups_of_nodup (Layout.nodup_ids hl (ho.withCounter hk))]
  | exact =>
    have h' : ids = l.ids o := h
    show ids.map (InstanceId.withCounter k) = l.ids (o.withCounter k)
    rw [h', hgrid]

end Filled

namespace Tree

/-- A tree whose values, where it has some, are of a grade. A metric fills the layout of its block, and so
    does a literal. Arithmetic answers the ids of the left operand, unless it is repeated along the right one. A
    reduction over everything needs a sample, over some dimensions one at each position; a selection keeps the
    grade of what it selects from if it keeps one position along each filtered dimension. -/
def Fills : Grade → Tree → Prop
  | _, .number _ _ | _, .reference _ _ | _, .accumulate _ _ _ => True
  | .inhabited, .binary _ _ lhs rhs => lhs.Fills .inhabited ∧ rhs.Fills .inhabited
  | g, .binary n _ lhs rhs =>
    if lhs.layout.count = 1 then lhs.Fills .exact ∧ rhs.Fills g ∧ n.layout.Alike rhs.layout
    else lhs.Fills g ∧ n.layout.Alike lhs.layout
  | .inhabited, .reduce _ child _ _ => child.Fills .inhabited
  | _, .reduce n child _ ds =>
    if ds = [] ∨ .none ∈ ds then child.Fills .inhabited ∧ n.layout.count = 1 else child.Fills .covering
  | .exact, .select _ child filters => child.Fills .exact ∧ child.layout.Pinned filters
  | _, .select _ child filters => child.Fills .covering ∧ child.layout.Met filters

variable {c : Catalog} {t : Tree} {n : Note} {l r : Layout} {ids lids rids : List InstanceId} {o : InstanceId} {g : Grade}
  {ds : List Dimension} {filters : Filters}

theorem fills_binary {op : BinaryOp} {lhs rhs : Tree} (hg : g ≠ .inhabited) : (binary n op lhs rhs).Fills g ↔
    if lhs.layout.count = 1 then lhs.Fills .exact ∧ rhs.Fills g ∧ n.layout.Alike rhs.layout
    else lhs.Fills g ∧ n.layout.Alike lhs.layout := by
  cases g with
  | inhabited => exact absurd rfl hg
  | covering | exact => exact Iff.rfl

theorem fills_reduce {op : ReduceOp} {child : Tree} (hg : g ≠ .inhabited) : (reduce n child op ds).Fills g ↔
    if ds = [] ∨ .none ∈ ds then child.Fills .inhabited ∧ n.layout.count = 1 else child.Fills .covering := by
  cases g with
  | inhabited => exact absurd rfl hg
  | covering | exact => exact Iff.rfl

theorem exists_filled_retagIds (h : Filled l ids o g) (hl : l.Proper) (ho : o.Origin)
    (hn : ∀ k, n.outId = some k → k ≤ maxCounterId) : ∃ o', o'.Origin ∧ Filled l (retagIds n ids) o' g := by
  unfold retagIds
  cases hid : n.outId with
  | none => exact ⟨o, ho, h⟩
  | some k => exact ⟨o.withCounter k, ho.withCounter (hn k hid), h.withCounter hl ho (hn k hid)⟩

/-! ### Arithmetic -/

theorem eq_of_fitIds (h : fitIds lids rids = .ok ids) :
    (ids = lids ∧ (lids.length = rids.length ∨ rids.length = 1)) ∨ (ids = rids ∧ lids.length = 1 ∧ rids.length ≠ 1) := by
  unfold fitIds Records.zipIds? at h
  by_cases hlen : lids.length = rids.length
  · rw [if_pos hlen] at h
    cases h
    exact Or.inl ⟨rfl, Or.inl hlen⟩
  · rw [if_neg hlen] at h
    match lids, rids with
    | [x], [] | [x], y :: z :: rids =>
      cases h
      exact Or.inr ⟨rfl, rfl, by simp⟩
    | [x], [y] => exact absurd rfl hlen
    | [], [y] | x :: x' :: lids, [y] =>
      cases h
      exact Or.inl ⟨rfl, Or.inr rfl⟩
    | [], [] => exact absurd rfl hlen
    | [], y :: y' :: rids | x :: x' :: lids, [] | x :: x' :: lids, y :: y' :: rids => cases h

/-- A list of one id, of a layout that it fills, is that of its origin. -/
theorem count_eq_one_of_length (h : Filled l ids o g) (hl : l.Proper) (hg : g ≠ .inhabited) (hlen : ids.length = 1) :
    l.count = 1 := by
  obtain ⟨x, rfl⟩ := List.length_eq_one_iff.mp hlen
  rw [← Layout.length_ids hl o]
  cases g with
  | inhabited => exact absurd rfl hg
  | covering =>
    have h' : [x].eraseDups = l.ids o := h
    rw [← h']
    simp [List.eraseDups_cons]
  | exact =>
    have h' : [x] = l.ids o := h
    rw [← h']
    rfl

/-- An operand that is not repeated keeps its ids. -/
theorem filled_fitIds_left (h : Filled l lids o g) (hl : l.Proper) (hg : g ≠ .inhabited) (hcount : l.count ≠ 1)
    (hfit : fitIds lids rids = .ok ids) : Filled l ids o g := by
  rcases eq_of_fitIds hfit with ⟨rfl, _⟩ | ⟨_, hone, _⟩
  · exact h
  · exact absurd (count_eq_one_of_length h hl hg hone) hcount

/-- A single sample is repeated along the other operand. -/
theorem filled_fitIds_right {o' : InstanceId} (h : Filled l lids o .exact) (hl : l.Proper) (ho : o.Origin)
    (hcount : l.count = 1) (h' : Filled r rids o' g) (hr : r.Proper) (ho' : o'.Origin) (hg : g ≠ .inhabited)
    (hfit : fitIds lids rids = .ok ids) : ∃ o, o.Origin ∧ Filled r ids o g := by
  have hlids : lids = [o] := Eq.trans h (Layout.ids_of_count_one hl ho hcount)
  rcases eq_of_fitIds hfit with ⟨rfl, hone⟩ | ⟨rfl, _, _⟩
  · rw [hlids] at hone ⊢
    have hrcount := count_eq_one_of_length h' hr hg (by rcases hone with hone | hone <;> simp_all)
    exact ⟨o, ho, Filled.of_exact (Layout.ids_of_count_one hr ho hrcount).symm hr ho g⟩
  · exact ⟨o', ho', h'⟩

theorem filled_fitIds_inhabited {o' : InstanceId} (h : Filled l lids o .inhabited) (h' : Filled r rids o' .inhabited)
    (ho : o.Origin) (ho' : o'.Origin) (hfit : fitIds lids rids = .ok ids) (layout : Layout) :
    ∃ o, o.Origin ∧ Filled layout ids o .inhabited := by
  rcases eq_of_fitIds hfit with ⟨rfl, _⟩ | ⟨rfl, _⟩
  · exact ⟨o, ho, h⟩
  · exact ⟨o', ho', h'⟩

theorem join_ok {joined : Layout} (h : l.join r = .ok joined) : joined = l ∨ joined = r := by
  unfold Layout.join at h
  split at h
  · cases h
    exact Or.inl rfl
  · split at h
    · cases h
      exact Or.inr rfl
    · split at h
      · cases h
        exact Or.inl rfl
      · cases h

/-- Every layout of a tree comes from those of its metrics by taking dimensions away. -/
theorem layout_of_laid {P : Layout → Prop} (hscalar : P Layout.scalar) (hwithout : ∀ l removed, P l → P (l.without removed))
    (hlaid : t.Laid c) (hmetrics : ∀ m ∈ t.leaves, P (metricLayout c m)) : P t.layout := by
  induction t with
  | number n v =>
    have h : (number n v).layout = Layout.scalar := hlaid
    rw [h]
    exact hscalar
  | reference n m =>
    have h : (reference n m).layout = metricLayout c m := hlaid
    rw [h]
    exact hmetrics m List.mem_cons_self
  | accumulate n m mode =>
    have h : (accumulate n m mode).layout = metricLayout c m := hlaid
    rw [h]
    exact hmetrics m List.mem_cons_self
  | binary n op lhs rhs ihl ihr =>
    obtain ⟨hl, hr, hjoin⟩ := hlaid
    rcases join_ok hjoin with h | h
    · have h : (binary n op lhs rhs).layout = lhs.layout := h
      rw [h]
      exact ihl hl fun m hm => hmetrics m (List.mem_append_left _ hm)
    · have h : (binary n op lhs rhs).layout = rhs.layout := h
      rw [h]
      exact ihr hr fun m hm => hmetrics m (List.mem_append_right _ hm)
  | reduce n child op ds ih =>
    obtain ⟨hc, hlayout⟩ := hlaid
    have h : (reduce n child op ds).layout = reducedLayout child.layout ds := hlayout
    rw [h, reducedLayout]
    split
    · exact hscalar
    · exact hwithout _ _ (ih hc hmetrics)
  | select n child filters ih =>
    obtain ⟨hc, hlayout⟩ := hlaid
    have h : (select n child filters).layout = selectedLayout child.layout filters := hlayout
    rw [h]
    exact hwithout _ _ (ih hc hmetrics)

theorem proper_layout (hlaid : t.Laid c) (hmetrics : ∀ m ∈ t.leaves, (metricLayout c m).Proper) : t.layout.Proper :=
  layout_of_laid Layout.proper_scalar (fun _ removed h => h.without removed) hlaid hmetrics

/-! ### Reductions and selections -/

theorem clear_none_clearAll (id : InstanceId) (ds : List Dimension) : (id.clearAll ds).clear .none = id.clear .none := by
  induction ds generalizing id with
  | nil => rfl
  | cons d ds ih =>
    show ((id.clear d).clearAll ds).clear .none = id.clear .none
    rw [ih, clear_eq_put (d := d), clear_none_put (zero_lt_two_pow _)]

/-- A reduction over all positions answers one sample. -/
theorem reduceIds_collapse (h : Filled l ids o .inhabited) (hds : ds = [] ∨ Dimension.none ∈ ds) :
    Records.reduceIds ds ids = [o] := by
  obtain ⟨hne, hclear⟩ := h
  cases ids with
  | nil => exact absurd rfl hne
  | cons id ids =>
    rw [Records.reduceIds_cons]
    by_cases hnil : ds = []
    · rw [if_pos hnil, hclear id List.mem_cons_self]
    · have hnone : Dimension.none ∈ ds := hds.resolve_left hnil
      have hconst : (id :: ids).map (fun id => id.clearAll ds) = (id :: ids).map fun _ => o := by
        apply List.map_congr_left
        intro id' hid'
        rw [clearAll_of_none_mem hnone, hclear id' hid']
      rw [if_neg hnil, hconst, eraseDups_map_const hne]

/-- A reduction over some dimensions leaves them out, each position once. -/
theorem reduceIds_covering (h : Filled l ids o .covering) (hl : l.Proper) (ho : o.Origin) (hds : ds ≠ [])
    (hnone : Dimension.none ∉ ds) : Records.reduceIds ds ids = (reducedLayout l ds).ids o := by
  have h' : ids.eraseDups = l.ids o := h
  rw [reducedLayout, if_neg hds, ← Layout.eraseDups_clearAll_ids hl ho hnone, ← h', ← eraseDups_map]
  cases ids with
  | nil => rfl
  | cons id ids =>
    rw [Records.reduceIds_cons, if_neg hds]

theorem reduceIds_inhabited (h : Filled l ids o .inhabited) : Filled l (Records.reduceIds ds ids) o .inhabited := by
  obtain ⟨hne, hclear⟩ := h
  cases ids with
  | nil => exact absurd rfl hne
  | cons id ids =>
    have hid : ∀ x ∈ Records.reduceIds ds (id :: ids), x.clear .none = o := by
      intro x hx
      rw [Records.reduceIds_cons] at hx
      split at hx
      · rw [List.mem_singleton.mp hx, origin_clear_none, hclear id List.mem_cons_self]
      · obtain ⟨y, hy, rfl⟩ := List.mem_map.mp (List.mem_eraseDups.mp hx)
        rw [clear_none_clearAll, hclear y hy]
    refine ⟨?_, hid⟩
    rw [Records.reduceIds_cons]
    split
    · exact List.cons_ne_nil _ _
    · rw [List.map_cons, List.eraseDups_cons]
      exact List.cons_ne_nil _ _

theorem selectIds_covering (h : Filled l ids o .covering) (hl : l.Proper) (ho : o.Origin) (hmet : l.Met filters) :
    Filled (selectedLayout l filters) (Records.selectIds filters ids) o .covering := by
  have h' : ids.eraseDups = l.ids o := h
  show ((ids.filter filters.keeps).map fun id => id.clearAll filters.dimensions).eraseDups = _
  rw [eraseDups_map, eraseDups_filter, h']
  exact Layout.eraseDups_select_ids hl ho hmet

theorem selectIds_exact (h : Filled l ids o .exact) (hl : l.Proper) (ho : o.Origin) (hpinned : l.Pinned filters) :
    Filled (selectedLayout l filters) (Records.selectIds filters ids) o .exact := by
  have h' : ids = l.ids o := h
  show (ids.filter filters.keeps).map (fun id => id.clearAll filters.dimensions) = _
  rw [h']
  exact Layout.select_ids hl ho hpinned

/-! ### Trees -/

/-- What is read of the metrics of a tree has the ids of their layouts, whose axes ids can tell apart. -/
structure Reads (c : Catalog) (leaf : Metric → Except EvalError (List InstanceId)) (t : Tree) : Prop where
  laid : t.Laid c
  metrics : ∀ m ∈ t.leaves, (metricLayout c m).Proper
  bounded : ∀ k ∈ t.outIds, k ≤ maxCounterId
  origin : ∀ m ∈ t.leaves, ∀ ids, leaf m = .ok ids → ∃ o, o.Origin ∧ ids = (metricLayout c m).ids o

namespace Reads

variable {leaf : Metric → Except EvalError (List InstanceId)}

theorem proper (h : Reads c leaf t) : t.layout.Proper := proper_layout h.laid h.metrics

theorem outId_le (h : Reads c leaf t) : ∀ k, t.note.outId = some k → k ≤ maxCounterId := Tree.outId_le h.bounded

theorem left {op : BinaryOp} {lhs rhs : Tree} (h : Reads c leaf (binary n op lhs rhs)) : Reads c leaf lhs where
  laid := h.laid.1
  metrics m hm := h.metrics m (List.mem_append_left _ hm)
  bounded k hk := h.bounded k (by simp [outIds, hk])
  origin m hm := h.origin m (List.mem_append_left _ hm)

theorem right {op : BinaryOp} {lhs rhs : Tree} (h : Reads c leaf (binary n op lhs rhs)) : Reads c leaf rhs where
  laid := h.laid.2.1
  metrics m hm := h.metrics m (List.mem_append_right _ hm)
  bounded k hk := h.bounded k (by simp [outIds, hk])
  origin m hm := h.origin m (List.mem_append_right _ hm)

theorem reduced {op : ReduceOp} {child : Tree} (h : Reads c leaf (reduce n child op ds)) : Reads c leaf child where
  laid := h.laid.1
  metrics := h.metrics
  bounded k hk := h.bounded k (by simp [outIds, hk])
  origin := h.origin

theorem selected {child : Tree} (h : Reads c leaf (select n child filters)) : Reads c leaf child where
  laid := h.laid.1
  metrics := h.metrics
  bounded k hk := h.bounded k (by simp [outIds, hk])
  origin := h.origin

end Reads

theorem exists_filled_binary {op : BinaryOp} {lhs rhs : Tree} (hl : lhs.layout.Proper) (hr : rhs.layout.Proper)
    (hn : n.layout.Proper) (hfit : fitIds lids rids = .ok ids) (hfills : (binary n op lhs rhs).Fills g)
    (hlids : ∀ g, lhs.Fills g → ∃ o, o.Origin ∧ Filled lhs.layout lids o g)
    (hrids : ∀ g, rhs.Fills g → ∃ o, o.Origin ∧ Filled rhs.layout rids o g) : ∃ o, o.Origin ∧ Filled n.layout ids o g := by
  by_cases hg : g = .inhabited
  · subst hg
    obtain ⟨o, ho, h⟩ := hlids _ hfills.1
    obtain ⟨o', ho', h'⟩ := hrids _ hfills.2
    exact filled_fitIds_inhabited h h' ho ho' hfit n.layout
  · rw [fills_binary hg] at hfills
    by_cases hcount : lhs.layout.count = 1
    · rw [if_pos hcount] at hfills
      obtain ⟨hlfills, hrfills, halike⟩ := hfills
      obtain ⟨o, ho, h⟩ := hlids _ hlfills
      obtain ⟨o', ho', h'⟩ := hrids _ hrfills
      obtain ⟨o₂, ho₂, h₂⟩ := filled_fitIds_right h hl ho hcount h' hr ho' hg hfit
      exact ⟨o₂, ho₂, h₂.of_alike hr hn ho₂ halike⟩
    · rw [if_neg hcount] at hfills
      obtain ⟨hlfills, halike⟩ := hfills
      obtain ⟨o, ho, h⟩ := hlids _ hlfills
      exact ⟨o, ho, (filled_fitIds_left h hl hg hcount hfit).of_alike hl hn ho halike⟩

theorem exists_filled_reduce {op : ReduceOp} {child : Tree} (hlayout : n.layout = reducedLayout child.layout ds)
    (hchild : child.layout.Proper) (hn : n.layout.Proper) (hfills : (reduce n child op ds).Fills g)
    (hids : ∀ g, child.Fills g → ∃ o, o.Origin ∧ Filled child.layout ids o g) :
    ∃ o, o.Origin ∧ Filled n.layout (Records.reduceIds ds ids) o g := by
  by_cases hg : g = .inhabited
  · subst hg
    obtain ⟨o, ho, h⟩ := hids _ hfills
    exact ⟨o, ho, reduceIds_inhabited h⟩
  · rw [fills_reduce hg] at hfills
    by_cases hds : ds = [] ∨ .none ∈ ds
    · rw [if_pos hds] at hfills
      obtain ⟨o, ho, h⟩ := hids _ hfills.1
      refine ⟨o, ho, Filled.of_exact ?_ hn ho g⟩
      rw [reduceIds_collapse h hds]
      exact (Layout.ids_of_count_one hn ho hfills.2).symm
    · rw [if_neg hds] at hfills
      obtain ⟨hne, hnone⟩ := not_or.mp hds
      obtain ⟨o, ho, h⟩ := hids _ hfills
      refine ⟨o, ho, Filled.of_exact ?_ hn ho g⟩
      rw [reduceIds_covering h hchild ho hne hnone, hlayout]

theorem exists_filled_select {child : Tree} (hlayout : n.layout = selectedLayout child.layout filters)
    (hchild : child.layout.Proper) (hfills : (select n child filters).Fills g)
    (hids : ∀ g, child.Fills g → ∃ o, o.Origin ∧ Filled child.layout ids o g) :
    ∃ o, o.Origin ∧ Filled n.layout (Records.selectIds filters ids) o g := by
  rw [hlayout]
  cases g with
  | inhabited =>
    obtain ⟨o, ho, h⟩ := hids _ hfills.1
    exact ⟨o, ho, (selectIds_covering h hchild ho hfills.2).inhabited_of_covering (hchild.without _) ho⟩
  | covering =>
    obtain ⟨o, ho, h⟩ := hids _ hfills.1
    exact ⟨o, ho, selectIds_covering h hchild ho hfills.2⟩
  | exact =>
    obtain ⟨o, ho, h⟩ := hids _ hfills.1
    exact ⟨o, ho, selectIds_exact h hchild ho hfills.2⟩

/-- A tree that fills its layout has values of that grade. -/
theorem exists_filled {leaf : Metric → Except EvalError (List InstanceId)} (hreads : Reads c leaf t) (hfills : t.Fills g)
    (hshape : t.shape leaf = .ok ids) : ∃ o, o.Origin ∧ Filled t.layout ids o g := by
  have hn := hreads.outId_le
  induction t generalizing g ids with
  | number n v =>
    cases hshape
    have h : n.layout = Layout.scalar := hreads.laid
    have hzero : [zero] = n.layout.ids zero := by
      rw [h, Layout.ids_of_count_one Layout.proper_scalar origin_zero rfl]
    exact exists_filled_retagIds (Filled.of_exact hzero hreads.proper origin_zero g) hreads.proper origin_zero hn
  | reference n m | accumulate n m mode =>
    obtain ⟨leafIds, hm, hret⟩ := bind_eq_ok hshape
    cases hret
    obtain ⟨o, ho, hids⟩ := hreads.origin m List.mem_cons_self leafIds hm
    have h : n.layout = metricLayout c m := hreads.laid
    rw [← h] at hids
    exact exists_filled_retagIds (Filled.of_exact hids hreads.proper ho g) hreads.proper ho hn
  | binary n op lhs rhs ihl ihr =>
    obtain ⟨lids, hl, hshape⟩ := bind_eq_ok hshape
    obtain ⟨rids, hr, hshape⟩ := bind_eq_ok hshape
    obtain ⟨joined, hfit, hret⟩ := bind_eq_ok hshape
    cases hret
    obtain ⟨o, ho, h⟩ := exists_filled_binary hreads.left.proper hreads.right.proper hreads.proper hfit hfills
      (fun g hg => ihl hreads.left hg hl hreads.left.outId_le) (fun g hg => ihr hreads.right hg hr hreads.right.outId_le)
    exact exists_filled_retagIds h hreads.proper ho hn
  | reduce n child op ds ih =>
    obtain ⟨cids, hc, hret⟩ := bind_eq_ok hshape
    cases hret
    obtain ⟨o, ho, h⟩ := exists_filled_reduce hreads.laid.2 hreads.reduced.proper hreads.proper hfills
      fun g hg => ih hreads.reduced hg hc hreads.reduced.outId_le
    exact exists_filled_retagIds h hreads.proper ho hn
  | select n child filters ih =>
    obtain ⟨cids, hc, hret⟩ := bind_eq_ok hshape
    cases hret
    obtain ⟨o, ho, h⟩ := exists_filled_select hreads.laid.2 hreads.selected.proper hfills
      fun g hg => ih hreads.selected hg hc hreads.selected.outId_le
    exact exists_filled_retagIds h hreads.proper ho hn

end Tree

end PerfCounters
