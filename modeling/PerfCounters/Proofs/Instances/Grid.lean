import Mathlib.Data.List.Nodup
import Mathlib.Logic.Function.Basic
import PerfCounters.Expr.Basic
import PerfCounters.Proofs.Instances.Codec
import PerfCounters.Proofs.Lists

/-! Ids in row-major order. A grid gives each of some dimensions the positions it runs through, the first
    dimension being the slowest. Moving the ids of a grid to position 0, keeping some of their positions and
    leaving out repetitions each come to the same on the positions of the single dimensions. -/

namespace PerfCounters

open InstanceId

/-- Dimensions with the positions that ids run through along them. -/
abbrev Axes := List (Dimension × List Nat)

namespace Axes

/-- Every axis has a slot of its own, which holds its positions. -/
structure Proper (axes : Axes) : Prop where
  slotted : ∀ x ∈ axes, x.1 ≠ .none
  fits : ∀ x ∈ axes, ∀ p ∈ x.2, p < maxAxisSize
  distinct : (axes.map Prod.fst).Nodup

/-- The ids that start at `origin` and run through the positions, row by row. -/
def grid (origin : InstanceId) : Axes → List InstanceId
  | [] => [origin]
  | (d, ps) :: rest => ps.flatMap fun p => (grid origin rest).map (put d p)

variable {o id : InstanceId} {d : Dimension} {ps : List Nat} {axes rest : Axes}

theorem Proper.tail {x : Dimension × List Nat} (h : Proper (x :: rest)) : Proper rest :=
  ⟨fun y hy => h.slotted y (List.mem_cons_of_mem _ hy), fun y hy => h.fits y (List.mem_cons_of_mem _ hy),
    (List.nodup_cons.mp h.distinct).2⟩

theorem Proper.head_slotted (h : Proper ((d, ps) :: rest)) : d ≠ .none := h.slotted _ List.mem_cons_self

theorem Proper.head_fits (h : Proper ((d, ps) :: rest)) {p : Nat} (hp : p ∈ ps) : p < 2 ^ d.width :=
  lt_two_pow_width h.head_slotted (h.fits _ List.mem_cons_self p hp)

theorem Proper.head_notMem (h : Proper ((d, ps) :: rest)) : d ∉ rest.map Prod.fst := (List.nodup_cons.mp h.distinct).1

/-- Other positions of the same dimensions. -/
theorem Proper.of_positions {f : Dimension → List Nat → List Nat} (h : axes.Proper)
    (hf : ∀ x ∈ axes, ∀ p ∈ f x.1 x.2, p < maxAxisSize) : Proper (axes.map fun x => (x.1, f x.1 x.2)) := by
  refine ⟨fun y hy => ?_, fun y hy => ?_, ?_⟩
  · obtain ⟨x, hx, rfl⟩ := List.mem_map.mp hy
    exact h.slotted x hx
  · obtain ⟨x, hx, rfl⟩ := List.mem_map.mp hy
    exact hf x hx
  · rw [List.map_map]
    exact h.distinct

/-- An id of a grid is one of its origin, moved. -/
theorem clear_none_of_mem_grid (h : axes.Proper) (ho : o.Origin) (hid : id ∈ axes.grid o) : id.clear .none = o := by
  induction axes generalizing id with
  | nil =>
    rw [grid, List.mem_singleton] at hid
    rw [hid]
    exact ho
  | cons x rest ih =>
    obtain ⟨d, ps⟩ := x
    obtain ⟨p, hp, hid⟩ := List.mem_flatMap.mp hid
    obtain ⟨y, hy, rfl⟩ := List.mem_map.mp hid
    rw [clear_none_put (h.head_fits hp)]
    exact ih h.tail hy

/-- Along other dimensions the ids of a grid are at position 0. -/
theorem position_of_mem_grid (h : axes.Proper) (ho : o.Origin) (hid : id ∈ axes.grid o) (hd : d ≠ .none)
    (hmem : d ∉ axes.map Prod.fst) : id.position d = 0 := by
  induction axes generalizing id with
  | nil =>
    rw [grid, List.mem_singleton] at hid
    rw [hid]
    exact ho.position d
  | cons x rest ih =>
    obtain ⟨e, ps⟩ := x
    obtain ⟨p, hp, hid⟩ := List.mem_flatMap.mp hid
    obtain ⟨y, hy, rfl⟩ := List.mem_map.mp hid
    rw [List.map_cons, List.mem_cons, not_or] at hmem
    rw [position_put_of_ne h.head_slotted hd (Ne.symm hmem.1) (h.head_fits hp)]
    exact ih h.tail hy hmem.2

/-- Ids of a grid differ in a position. -/
theorem eq_of_mem_grid {id' : InstanceId} (h : axes.Proper) (ho : o.Origin)
    (hid : id ∈ axes.grid o) (hid' : id' ∈ axes.grid o)
    (hsame : ∀ d, d ≠ .none → id.position d = id'.position d) : id = id' := by
  induction axes generalizing id id' with
  | nil => rw [List.mem_singleton.mp hid, List.mem_singleton.mp hid']
  | cons x rest ih =>
    obtain ⟨d, ps⟩ := x
    obtain ⟨p, hp, hid⟩ := List.mem_flatMap.mp hid
    obtain ⟨y, hy, rfl⟩ := List.mem_map.mp hid
    obtain ⟨p', hp', hid'⟩ := List.mem_flatMap.mp hid'
    obtain ⟨y', hy', rfl⟩ := List.mem_map.mp hid'
    have hfits := h.head_fits hp
    have hfits' := h.head_fits hp'
    have hpos := hsame d h.head_slotted
    rw [position_put_same hfits, position_put_same hfits'] at hpos
    subst hpos
    rw [ih h.tail hy hy' fun d' hd' => ?_]
    by_cases hd : d = d'
    · rw [← hd, position_of_mem_grid h.tail ho hy h.head_slotted h.head_notMem,
        position_of_mem_grid h.tail ho hy' h.head_slotted h.head_notMem]
    · have hother := hsame d' hd'
      rwa [position_put_of_ne h.head_slotted hd' hd hfits, position_put_of_ne h.head_slotted hd' hd hfits] at hother

/-- Axes that run through position 0 only may be left out. -/
theorem grid_zero (gone : Dimension × List Nat → Bool) (h : axes.Proper) (ho : o.Origin)
    (hgone : ∀ x ∈ axes, gone x = true → x.2 = [0]) : axes.grid o = grid o (axes.filter fun x => !gone x) := by
  induction axes with
  | nil => rfl
  | cons x rest ih =>
    obtain ⟨d, ps⟩ := x
    have hrest := ih h.tail fun y hy => hgone y (List.mem_cons_of_mem _ hy)
    cases hx : gone (d, ps) with
    | false =>
      rw [List.filter_cons_of_pos (by simp [hx]), grid, grid, hrest]
    | true =>
      have hps : ps = [0] := hgone _ List.mem_cons_self hx
      subst hps
      rw [List.filter_cons_of_neg (by simp [hx]), ← hrest, grid, List.flatMap_singleton]
      conv => rhs; rw [← List.map_id (grid o rest)]
      apply List.map_congr_left
      intro id hid
      exact put_position (position_of_mem_grid h.tail ho hid h.head_slotted h.head_notMem)

theorem length_grid (o : InstanceId) (axes : Axes) :
    (axes.grid o).length = (axes.map fun x => x.2.length).prod := by
  induction axes with
  | nil => rfl
  | cons x rest ih =>
    obtain ⟨d, ps⟩ := x
    simp [grid, List.length_flatMap, ih]

/-! ### What is done to the ids of a grid -/

/-- The axes with repetitions left out. -/
def once (axes : Axes) : Axes := axes.map fun x => (x.1, x.2.eraseDups)

theorem eraseDups_grid (h : axes.Proper) (ho : o.Origin) : (axes.grid o).eraseDups = axes.once.grid o := by
  induction axes with
  | nil => rfl
  | cons x rest ih =>
    obtain ⟨d, ps⟩ := x
    have hzero : ∀ y ∈ grid o rest, y.position d = 0 := fun y hy =>
      position_of_mem_grid h.tail ho hy h.head_slotted h.head_notMem
    -- The positions along `d` tell the ids of different rows apart.
    have hrows : ∀ p ∈ ps, ∀ q ∈ ps, p ≠ q → ∀ z ∈ (grid o rest).map (put d p), z ∉ (grid o rest).map (put d q) := by
      intro p hp q hq hne z hz hz'
      obtain ⟨y, _, rfl⟩ := List.mem_map.mp hz
      obtain ⟨y', _, heq⟩ := List.mem_map.mp hz'
      have hpos := congrArg (fun id => position id d) heq
      simp only [position_put_same (h.head_fits hp), position_put_same (h.head_fits hq)] at hpos
      exact hne hpos.symm
    have hrow : ∀ p ∈ ps, ((grid o rest).map (put d p)).eraseDups = (grid o (once rest)).map (put d p) := by
      intro p hp
      rw [← ih h.tail]
      apply eraseDups_map_of_inj
      intro y hy z hz heq
      have hback := congrArg (put d 0) heq
      rwa [put_put (zero_lt_two_pow _) (h.head_fits hp), put_put (zero_lt_two_pow _) (h.head_fits hp),
        put_position (hzero y hy), put_position (hzero z hz)] at hback
    rw [grid, eraseDups_flatMap hrows]
    show _ = ps.eraseDups.flatMap fun p => (grid o (once rest)).map (put d p)
    apply List.flatMap_congr
    intro p hp
    exact hrow p (List.mem_eraseDups.mp hp)

/-- Different ids, if no position is given twice. -/
theorem nodup_grid (h : axes.Proper) (ho : o.Origin) (hps : ∀ x ∈ axes, x.2.Nodup) : (axes.grid o).Nodup := by
  have honce : axes.once = axes := by
    unfold once
    conv => rhs; rw [← List.map_id axes]
    apply List.map_congr_left
    intro x hx
    rw [eraseDups_of_nodup (hps x hx)]
    rfl
  rw [← honce, ← eraseDups_grid h ho]
  exact nodup_eraseDups _

/-- The axes with the positions along `ds` replaced by 0. -/
def zeroed (ds : List Dimension) (axes : Axes) : Axes :=
  axes.map fun x => (x.1, if x.1 ∈ ds then x.2.map fun _ => 0 else x.2)

theorem clearAll_put {ds : List Dimension} {p : Nat} (hd : d ≠ .none) (hds : Dimension.none ∉ ds) (hp : p < 2 ^ d.width) :
    (put d p id).clearAll ds = put d (if d ∈ ds then 0 else p) (id.clearAll ds) := by
  induction ds generalizing id p with
  | nil => rfl
  | cons e ds ih =>
    rw [List.mem_cons, not_or] at hds
    show ((put d p id).clear e).clearAll ds = put d _ ((id.clear e).clearAll ds)
    by_cases he : d = e
    · subst he
      have hclear : (put d p id).clear d = put d 0 (id.clear d) := by
        rw [clear_eq_put, clear_eq_put, put_put (zero_lt_two_pow _) hp, put_put (zero_lt_two_pow _) (zero_lt_two_pow _)]
      rw [hclear, ih hds.2 (zero_lt_two_pow _)]
      simp
    · have hclear : (put d p id).clear e = put d p (id.clear e) := by
        rw [clear_eq_put, clear_eq_put, put_comm hd (Ne.symm hds.1) he hp (zero_lt_two_pow _)]
      rw [hclear, ih hds.2 hp]
      simp [he]

theorem clearAll_grid {ds : List Dimension} (h : axes.Proper) (ho : o.Origin) (hds : Dimension.none ∉ ds) :
    ((axes.grid o).map fun id => id.clearAll ds) = (axes.zeroed ds).grid o := by
  induction axes with
  | nil =>
    show [o.clearAll ds] = [o]
    rw [ho.clearAll]
  | cons x rest ih =>
    obtain ⟨d, ps⟩ := x
    have hrow : ∀ p ∈ ps, (((grid o rest).map (put d p)).map fun id => id.clearAll ds) =
        (grid o (zeroed ds rest)).map (put d (if d ∈ ds then 0 else p)) := by
      intro p hp
      rw [← ih h.tail, List.map_map, List.map_map]
      apply List.map_congr_left
      intro id hid
      exact clearAll_put h.head_slotted hds (h.head_fits hp)
    rw [grid, List.map_flatMap, List.flatMap_congr hrow]
    show _ = grid o ((d, if d ∈ ds then ps.map fun _ => 0 else ps) :: zeroed ds rest)
    rw [grid]
    split
    · rw [List.flatMap_map]
    · rfl

theorem Proper.zeroed (h : axes.Proper) (ds : List Dimension) : Proper (axes.zeroed ds) := by
  refine h.of_positions (f := fun d ps => if d ∈ ds then ps.map fun _ => 0 else ps) fun x hx p hp => ?_
  split at hp
  · obtain ⟨_, _, rfl⟩ := List.mem_map.mp hp
    decide
  · exact h.fits x hx p hp

/-- Clearing ids of which one is left along `ds`. -/
theorem clearAll_grid_single {ds : List Dimension} (h : axes.Proper) (ho : o.Origin) (hds : Dimension.none ∉ ds)
    (hone : ∀ x ∈ axes, x.1 ∈ ds → x.2.length = 1) :
    ((axes.grid o).map fun id => id.clearAll ds) = grid o (axes.filter fun x => !ds.contains x.1) := by
  have hzero : ∀ x ∈ axes.zeroed ds, ds.contains x.1 = true → x.2 = [0] := by
    intro x hx hmem
    obtain ⟨y, hy, rfl⟩ := List.mem_map.mp hx
    have hmem' : y.1 ∈ ds := by simpa using hmem
    obtain ⟨p, hp⟩ := List.length_eq_one_iff.mp (hone y hy hmem')
    simp [hmem', hp]
  rw [clearAll_grid h ho hds, grid_zero (fun x => ds.contains x.1) (h.zeroed ds) ho hzero, zeroed, List.filter_map]
  congr 1
  conv => rhs; rw [← List.map_id (axes.filter _)]
  apply List.map_congr_left
  intro x hx
  have hx' : x.1 ∉ ds := by simpa using (List.mem_filter.mp hx).2
  rw [if_neg hx']
  rfl

/-- Clearing ids along `ds` and leaving out repetitions. -/
theorem eraseDups_clearAll_grid {ds : List Dimension} (h : axes.Proper) (ho : o.Origin) (hds : Dimension.none ∉ ds)
    (hsome : ∀ x ∈ axes, x.1 ∈ ds → x.2 ≠ []) (hnodup : ∀ x ∈ axes, x.1 ∉ ds → x.2.Nodup) :
    ((axes.grid o).map fun id => id.clearAll ds).eraseDups = grid o (axes.filter fun x => !ds.contains x.1) := by
  have hzero : ∀ x ∈ once (axes.zeroed ds), ds.contains x.1 = true → x.2 = [0] := by
    intro x hx hmem
    obtain ⟨y, hy, rfl⟩ := List.mem_map.mp hx
    obtain ⟨z, hz, rfl⟩ := List.mem_map.mp hy
    have hmem' : z.1 ∈ ds := by simpa using hmem
    show (if z.1 ∈ ds then z.2.map fun _ => 0 else z.2).eraseDups = [0]
    rw [if_pos hmem', eraseDups_map_const (hsome z hz hmem')]
  have honce : Proper (once (axes.zeroed ds)) :=
    (h.zeroed ds).of_positions (f := fun _ ps => ps.eraseDups) fun x hx p hp =>
      (h.zeroed ds).fits x hx p (List.mem_eraseDups.mp hp)
  rw [clearAll_grid h ho hds, eraseDups_grid (h.zeroed ds) ho, grid_zero (fun x => ds.contains x.1) honce ho hzero,
    once, zeroed, List.map_map, List.filter_map]
  congr 1
  conv => rhs; rw [← List.map_id (axes.filter _)]
  apply List.map_congr_left
  intro x hx
  have hx' : x.1 ∉ ds := by simpa using (List.mem_filter.mp hx).2
  show (x.1, (if x.1 ∈ ds then x.2.map fun _ => 0 else x.2).eraseDups) = x
  rw [if_neg hx', eraseDups_of_nodup (hnodup x (List.mem_filter.mp hx).1 hx')]

/-- The axes with only those positions along `d` that are in `ns`. -/
def narrowed (d : Dimension) (ns : List Nat) (axes : Axes) : Axes :=
  axes.map fun x => (x.1, if x.1 = d then x.2.filter ns.contains else x.2)

/-- Keeping positions along a dimension; if it is none of those of the grid, position 0 has to be kept. -/
theorem filter_grid {ns : List Nat} (h : axes.Proper) (ho : o.Origin) (hd : d ≠ .none)
    (hzero : d ∉ axes.map Prod.fst → 0 ∈ ns) :
    ((axes.grid o).filter fun id => ns.contains (id.position d)) = (axes.narrowed d ns).grid o := by
  induction axes with
  | nil =>
    show [o].filter (fun id => ns.contains (id.position d)) = [o]
    rw [List.filter_cons_of_pos, List.filter_nil]
    rw [ho.position]
    simpa using hzero
  | cons x rest ih =>
    obtain ⟨e, ps⟩ := x
    show _ = grid o ((e, if e = d then ps.filter ns.contains else ps) :: narrowed d ns rest)
    rw [grid, List.filter_flatMap, grid]
    by_cases he : e = d
    · subst he
      have hrest : narrowed e ns rest = rest := by
        unfold narrowed
        conv => rhs; rw [← List.map_id rest]
        apply List.map_congr_left
        intro x hx
        rw [if_neg]
        · rfl
        · intro heq
          exact h.head_notMem (heq ▸ List.mem_map_of_mem hx)
      have hrow : ∀ p ∈ ps, (((grid o rest).map (put e p)).filter fun id => ns.contains (id.position e)) =
          if ns.contains p then (grid o rest).map (put e p) else [] := by
        intro p hp
        have hposition : ∀ id ∈ (grid o rest).map (put e p), ns.contains (id.position e) = ns.contains p := by
          intro id hid
          obtain ⟨y, _, rfl⟩ := List.mem_map.mp hid
          rw [position_put_same (h.head_fits hp)]
        rw [List.filter_congr hposition]
        cases ns.contains p <;> simp
      rw [hrest, if_pos rfl, List.flatMap_congr hrow, flatMap_if]
    · have hrow : ∀ p ∈ ps, (((grid o rest).map (put e p)).filter fun id => ns.contains (id.position d)) =
          (grid o (narrowed d ns rest)).map (put e p) := by
        intro p hp
        rw [← ih h.tail fun hmem => hzero (by simp [hmem, Ne.symm he]), List.filter_map]
        congr 1
        apply List.filter_congr
        intro id hid
        show ns.contains ((put e p id).position d) = _
        rw [position_put_of_ne h.head_slotted hd he (h.head_fits hp)]
      rw [if_neg he, List.flatMap_congr hrow]

end Axes

/-! ### Filters -/

namespace Filters

/-- Nothing in the filters is against position `p` along `d`. -/
def allows (filters : Filters) (d : Dimension) (p : Nat) : Bool := filters.all fun f => f.1 != d || f.2.contains p

/-- Nothing in the filters is against the positions of an id. -/
def keeps (filters : Filters) (id : InstanceId) : Bool := filters.all fun f => f.2.contains (id.position f.1)

/-- What the filters leave of axes. -/
def narrow (filters : Filters) (axes : Axes) : Axes := axes.map fun x => (x.1, x.2.filter (filters.allows x.1))

variable {o id : InstanceId} {axes : Axes} {filters : Filters}

theorem allows_cons {f : Dimension × List Nat} {d : Dimension} {p : Nat} :
    allows (f :: filters) d p = ((f.1 != d || f.2.contains p) && allows filters d p) := rfl

/-- An id at position 0 is kept if position 0 is allowed along every filtered dimension. -/
theorem keeps_of_origin (ho : o.Origin) (hzero : ∀ d ∈ filters.dimensions, filters.allows d 0 = true) :
    filters.keeps o = true := by
  apply List.all_eq_true.mpr
  intro f hf
  have hallows := List.all_eq_true.mp (hzero f.1 (List.mem_map_of_mem hf)) f hf
  rw [ho.position]
  simpa using hallows

theorem narrow_cons (f : Dimension × List Nat) (filters : Filters) (axes : Axes) :
    narrow filters (axes.narrowed f.1 f.2) = narrow (f :: filters) axes := by
  unfold narrow Axes.narrowed
  rw [List.map_map]
  apply List.map_congr_left
  intro x hx
  show (x.1, (if x.1 = f.1 then x.2.filter f.2.contains else x.2).filter (allows filters x.1)) = _
  congr 1
  by_cases heq : x.1 = f.1
  · rw [if_pos heq, List.filter_filter]
    apply List.filter_congr
    intro p hp
    rw [allows_cons, heq, Bool.and_comm]
    simp
  · rw [if_neg heq]
    apply List.filter_congr
    intro p hp
    have hne : (f.1 != x.1) = true := by simpa using Ne.symm heq
    rw [allows_cons, hne, Bool.true_or, Bool.true_and]

/-- The ids of a grid that filters keep, if along dimensions that the grid does not have they allow position 0. -/
theorem filter_grid (h : axes.Proper) (ho : o.Origin) (hnone : Dimension.none ∉ filters.dimensions)
    (hzero : ∀ d ∈ filters.dimensions, d ∉ axes.map Prod.fst → filters.allows d 0 = true) :
    (axes.grid o).filter filters.keeps = (filters.narrow axes).grid o := by
  induction filters generalizing axes with
  | nil =>
    have hnarrow : narrow [] axes = axes := by
      unfold narrow
      conv => rhs; rw [← List.map_id axes]
      apply List.map_congr_left
      intro x hx
      have hall : x.2.filter (allows [] x.1) = x.2 := List.filter_eq_self.mpr fun p hp => rfl
      rw [hall]
      rfl
    have hkeeps : ∀ id ∈ axes.grid o, keeps [] id = true := fun id hid => rfl
    rw [hnarrow, List.filter_eq_self.mpr hkeeps]
  | cons f filters ih =>
    have hne : f.1 ≠ .none := fun heq => hnone (heq ▸ List.mem_cons_self)
    have hnarrowed : (axes.narrowed f.1 f.2).Proper :=
      h.of_positions (f := fun d ps => if d = f.1 then ps.filter f.2.contains else ps) fun x hx p hp => by
        split at hp
        · exact h.fits x hx p (List.mem_filter.mp hp).1
        · exact h.fits x hx p hp
    have hdims : (axes.narrowed f.1 f.2).map Prod.fst = axes.map Prod.fst := by
      unfold Axes.narrowed
      rw [List.map_map]
      rfl
    have hfirst : f.1 ∉ axes.map Prod.fst → 0 ∈ f.2 := by
      intro hmem
      have hallows := hzero f.1 List.mem_cons_self hmem
      rw [allows_cons, Bool.and_eq_true] at hallows
      simpa using hallows.1
    have hrest := ih hnarrowed (fun hmem => hnone (List.mem_cons_of_mem _ hmem))
      fun d hd hmem => by
        rw [hdims] at hmem
        have hallows := hzero d (List.mem_cons_of_mem _ hd) hmem
        rw [allows_cons, Bool.and_eq_true] at hallows
        exact hallows.2
    rw [← narrow_cons, ← hrest, ← Axes.filter_grid h ho hne hfirst, List.filter_filter]
    apply List.filter_congr
    intro id hid
    exact Bool.and_comm _ _

end Filters

end PerfCounters
