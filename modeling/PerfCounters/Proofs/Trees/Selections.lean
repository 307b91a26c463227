import PerfCounters.Proofs.Trees.Regrouping

/-! Selections. A selection looks at the positions along the filtered dimensions and takes them out of the ids it keeps;
    other positions are neither looked at nor changed. So selections along different dimensions do not see each other, and a
    reduction over other dimensions makes groups that a selection keeps or drops as a whole. If each filter allows one
    position only, taking it out makes no two groups one. -/

namespace PerfCounters

namespace InstanceId

variable {id id' : InstanceId} {d : Dimension} {ds ds' : List Dimension}

theorem clearAll_comm (id : InstanceId) (ds ds' : List Dimension) :
    (id.clearAll ds).clearAll ds' = (id.clearAll ds').clearAll ds := by
  rw [← clearAll_append, ← clearAll_append]
  exact clearAll_congr fun d => by rw [List.mem_append, List.mem_append, or_comm]

theorem position_clearAll (hd : d ≠ .none) (hds : Dimension.none ∉ ds) (id : InstanceId) :
    (id.clearAll ds).position d = if d ∈ ds then 0 else id.position d := by
  induction ds generalizing id with
  | nil => rfl
  | cons e ds ih =>
    rw [List.mem_cons, not_or] at hds
    show ((id.clear e).clearAll ds).position d = _
    rw [ih hds.2, clear_eq_put]
    by_cases he : d = e
    · subst he
      rw [position_put_same (zero_lt_two_pow _), ite_self, if_pos List.mem_cons_self]
    · rw [position_put_of_ne (Ne.symm hds.1) hd (Ne.symm he) (zero_lt_two_pow _)]
      simp only [List.mem_cons, he, false_or]

theorem counter_clearAll (id : InstanceId) (ds : List Dimension) : (id.clearAll ds).counter = id.counter := by
  induction ds generalizing id with
  | nil => rfl
  | cons d ds ih =>
    exact (ih (id.clear d)).trans (read_write_apart (apart_counter d) (fits d) fits_counter (zero_lt_two_pow _))

/-- A bit of a position is a bit of the id. -/
theorem getLsbD_of_position (h : id.position d = id'.position d)
    {i : Nat} (hle : d.start ≤ i) (hlt : i < d.start + d.width) :
    id.word.getLsbD i = id'.word.getLsbD i := by
  have hbits := congrArg (fun n : Nat => n.testBit (i - d.start)) h
  have hin : i - d.start < d.width := by omega
  simpa only [position, testBit_read, hin, decide_true, Bool.true_and, Nat.add_sub_cancel' hle] using hbits

/-- Ids with equal positions along some dimensions stay apart when these are cleared. -/
theorem clearAll_inj (h : ∀ d ∈ ds, id.position d = id'.position d) : id.clearAll ds = id'.clearAll ds ↔ id = id' := by
  refine ⟨fun heq => congrArg InstanceId.mk (word_ext fun i hi => ?_), fun heq => heq ▸ rfl⟩
  by_cases hin : ∃ d ∈ ds, d.start ≤ i ∧ i < d.start + d.width
  · obtain ⟨d, hd, hle, hlt⟩ := hin
    exact getLsbD_of_position (h d hd) hle hlt
  · have hout : (ds.any fun d => d.start ≤ i ∧ i < d.start + d.width) = false := by
      rw [Bool.eq_false_iff, ne_eq, List.any_eq_true]
      simpa using hin
    have hbit := congrArg (fun id : InstanceId => id.word.getLsbD i) heq
    simpa only [getLsbD_clearAll hi, hout, Bool.not_false, Bool.and_true] using hbit

end InstanceId

namespace Filters

variable {f g h : Filters} {id : InstanceId} {ds : List Dimension}

theorem keeps_iff : f.keeps id = true ↔ ∀ x ∈ f, id.position x.1 ∈ x.2 := by
  simp [keeps]

theorem keeps_append : keeps (f ++ g) id = (f.keeps id && g.keeps id) := List.all_append

theorem dimensions_append (f g : Filters) : dimensions (f ++ g) = f.dimensions ++ g.dimensions := List.map_append

/-- Filters do not look at other positions. -/
theorem keeps_clearAll (hf : Dimension.none ∉ f.dimensions) (hds : Dimension.none ∉ ds)
    (hapart : ∀ d ∈ ds, d ∉ f.dimensions) (id : InstanceId) : f.keeps (id.clearAll ds) = f.keeps id := by
  rw [Bool.eq_iff_iff, keeps_iff, keeps_iff]
  refine forall₂_congr fun x hx => ?_
  have hdim : x.1 ∈ f.dimensions := List.mem_map_of_mem hx
  have hslot : x.1 ≠ .none := fun heq => hf (heq ▸ hdim)
  rw [InstanceId.position_clearAll hslot hds, if_neg fun hmem => hapart _ hmem hdim]

end Filters

namespace Records

variable {α : Type} {op : Reduction α} {f g h : Filters} {ds es : List Dimension} {records : Records α}

theorem select_eq (f : Filters) (records : Records α) :
    records.select f = (records.filter fun r => f.keeps r.id).map (cleared f.dimensions) := rfl

/-- The sample is at position 0 along `ds`, and is the other one in all other respects. -/
structure Pins (ds : List Dimension) (r r' : Sample α) : Prop where
  kept : r' = { r with id := r'.id }
  counter : r'.id.counter = r.id.counter
  zero : ∀ d ∈ ds, r'.id.position d = 0
  position : ∀ d, d ≠ .none → d ∉ ds → r'.id.position d = r.id.position d
  outside : ∀ i < 64, (∀ d ∈ ds, i < d.start ∨ d.start + d.width ≤ i) → r'.id.word.getLsbD i = r.id.word.getLsbD i

theorem pins_cleared (hds : Dimension.none ∉ ds) (r : Sample α) : Pins ds r (cleared ds r) where
  kept := rfl
  counter := InstanceId.counter_clearAll r.id ds
  zero d hd := by
    have hslot : d ≠ .none := fun heq => hds (heq ▸ hd)
    exact (InstanceId.position_clearAll hslot hds r.id).trans (if_pos hd)
  position d hslot hd := (InstanceId.position_clearAll hslot hds r.id).trans (if_neg hd)
  outside i hi hout := by
    have hnone : (ds.any fun d => d.start ≤ i ∧ i < d.start + d.width) = false := by
      rw [Bool.eq_false_iff, ne_eq, List.any_eq_true]
      rintro ⟨d, hd, hin⟩
      have hin := of_decide_eq_true hin
      rcases hout d hd with hbefore | hbehind <;> omega
    show (r.id.clearAll ds).word.getLsbD i = _
    rw [InstanceId.getLsbD_clearAll hi, hnone, Bool.not_false, Bool.and_true]

theorem select_pins (hf : Dimension.none ∉ f.dimensions) (records : Records α) :
    List.Forall₂ (Pins f.dimensions) (records.filter fun r => ∀ x ∈ f, r.id.position x.1 ∈ x.2) (records.select f) := by
  have hkeeps : (records.filter fun r => ∀ x ∈ f, r.id.position x.1 ∈ x.2) = records.filter fun r => f.keeps r.id :=
    List.filter_congr fun r _ => by rw [Bool.eq_iff_iff, decide_eq_true_iff, Filters.keeps_iff]
  rw [select_eq, hkeeps, List.forall₂_map_right_iff]
  exact List.forall₂_same.mpr fun r _ => pins_cleared hf r

/-! ### One selection after another -/

theorem cleared_cleared (ds es : List Dimension) (r : Sample α) : cleared es (cleared ds r) = cleared (ds ++ es) r := by
  rw [cleared, cleared, cleared, InstanceId.clearAll_append]

/-- Two selections are one with the filters of both. -/
theorem select_append (hf : Dimension.none ∉ f.dimensions) (hg : Dimension.none ∉ g.dimensions)
    (hapart : ∀ d ∈ f.dimensions, d ∉ g.dimensions) (records : Records α) :
    (records.select f).select g = records.select (f ++ g) := by
  have hkeeps : ∀ r : Sample α, (g.keeps (cleared f.dimensions r).id && f.keeps r.id) =
      Filters.keeps (f ++ g) r.id := fun r => by
    show (g.keeps (r.id.clearAll f.dimensions) && f.keeps r.id) = _
    rw [Filters.keeps_clearAll hg hf hapart, Filters.keeps_append, Bool.and_comm]
  rw [select_eq, select_eq, select_eq, List.filter_map, List.map_map, List.filter_filter, Filters.dimensions_append]
  refine congrArg₂ List.map (funext fun r => cleared_cleared _ _ r) (List.filter_congr fun r _ => hkeeps r)

/-- Only the entries of filters count. -/
theorem select_congr (h : ∀ x, x ∈ f ↔ x ∈ g) (records : Records α) : records.select f = records.select g := by
  have hdims : ∀ d, d ∈ f.dimensions ↔ d ∈ g.dimensions := fun d => by
    simp only [Filters.dimensions, List.mem_map, h]
  rw [select_eq, select_eq]
  refine congrArg₂ List.map (funext fun r => ?_) (List.filter_congr fun r _ => ?_)
  · rw [cleared, cleared, InstanceId.clearAll_congr hdims]
  · rw [Bool.eq_iff_iff, Filters.keeps_iff, Filters.keeps_iff]
    exact forall_congr' fun x => by rw [h x]

/-! ### Selections and reductions -/

theorem total_map_cleared (op : Reduction α) (es : List Dimension) (first : Sample α) (rest : Records α) :
    total op (cleared es first) (rest.map (cleared es)) = total op first rest := by
  unfold total
  rw [List.foldl_map, List.length_map]
  rfl

/-- What keeps the members of a group together and apart from the others keeps the group. -/
theorem members_map {k k' : InstanceId} {φ : Sample α → Sample α}
    (h : ∀ r ∈ records, (φ r).id.clearAll ds = k' ↔ r.id.clearAll ds = k) :
    members ds k' (records.map φ) = (members ds k records).map φ ∧
      others ds k' (records.map φ) = (others ds k records).map φ := by
  unfold members others
  rw [List.filter_map, List.filter_map]
  exact ⟨congrArg _ (List.filter_congr fun r hr => decide_eq_decide.mpr (h r hr)),
    congrArg _ (List.filter_congr fun r hr => decide_eq_decide.mpr (not_congr (h r hr)))⟩

/-- Samples with equal positions along some dimensions are grouped in the same way without these positions. -/
theorem reduce_map_cleared (hds : ds ≠ []) (hslot : Dimension.none ∉ ds) (hslot' : Dimension.none ∉ es)
    (hapart : ∀ d ∈ ds, d ∉ es) (op : Reduction α) (records : Records α)
    (hagree : ∀ r ∈ records, ∀ s ∈ records, ∀ d ∈ es, r.id.position d = s.id.position d) :
    reduce op ds (records.map (cleared es)) = (records.reduce op ds).map (cleared es) := by
  induction records using induction_on_groups ds with
  | nil => rfl
  | cons first rest ih =>
    have hkey : (first.id.clearAll es).clearAll ds = (first.id.clearAll ds).clearAll es := InstanceId.clearAll_comm ..
    -- Along `es` all ids agree, before and after a reduction over `ds`, so clearing `es` keeps keys apart.
    have hsame : ∀ r ∈ rest, (r.id.clearAll es).clearAll ds = (first.id.clearAll ds).clearAll es ↔
        r.id.clearAll ds = first.id.clearAll ds := fun r hr => by
      rw [InstanceId.clearAll_comm]
      refine InstanceId.clearAll_inj fun d hd => ?_
      have hd' : d ≠ .none := fun heq => hslot' (heq ▸ hd)
      have hnot : d ∉ ds := fun hmem => hapart d hmem hd
      rw [InstanceId.position_clearAll hd' hslot, InstanceId.position_clearAll hd' hslot, if_neg hnot, if_neg hnot]
      exact hagree r (List.mem_cons_of_mem _ hr) first List.mem_cons_self d hd
    obtain ⟨hmembers, hothers⟩ := members_map (φ := cleared es) hsame
    have hrest := ih fun r hr s hs => hagree r (List.mem_cons_of_mem _ (List.mem_filter.mp hr).1) s
      (List.mem_cons_of_mem _ (List.mem_filter.mp hs).1)
    rw [List.map_cons, reduce_cons_groups hds, reduce_cons_groups hds, List.map_cons]
    show ({ first with id := (first.id.clearAll es).clearAll ds, value := total op (cleared es first) (members ds
        ((first.id.clearAll es).clearAll ds) (rest.map (cleared es))) } : Sample α) :: reduce op ds (others ds
        ((first.id.clearAll es).clearAll ds) (rest.map (cleared es))) = _
    rw [hkey, hmembers, hothers, hrest, total_map_cleared]
    rfl

/-- A selection of one position along each filtered dimension may be made before or after a reduction over others. -/
theorem reduce_select (hf : Dimension.none ∉ f.dimensions) (hds : ds ≠ []) (hslot : Dimension.none ∉ ds)
    (hapart : ∀ d ∈ ds, d ∉ f.dimensions) (hone : ∀ x ∈ f, ∃ p, x.2 = [p]) (op : Reduction α) (records : Records α) :
    (records.select f).reduce op ds = (records.reduce op ds).select f := by
  have hagree : ∀ r ∈ records.filter (fun r => f.keeps r.id), ∀ s ∈ records.filter (fun r => f.keeps r.id),
      ∀ d ∈ f.dimensions, r.id.position d = s.id.position d := by
    intro r hr s hs d hd
    obtain ⟨x, hx, rfl⟩ := List.mem_map.mp hd
    obtain ⟨p, hp⟩ := hone x hx
    have hr' := Filters.keeps_iff.mp (List.mem_filter.mp hr).2 x hx
    have hs' := Filters.keeps_iff.mp (List.mem_filter.mp hs).2 x hx
    rw [hp, List.mem_singleton] at hr' hs'
    rw [hr', hs']
  rw [select_eq, select_eq, reduce_map_cleared hds hslot hf hapart op _ hagree, filter_reduce hds]
  simp only [Filters.keeps_clearAll hf hslot hapart]

/-- A selection keeps, in their order, the samples whose position along each filtered dimension is allowed, and changes
    nothing of them but these positions, which become 0. Selections along different dimensions may be made in either order
    or at once; and one that allows a single position along each of its dimensions may be made before or after any
    reduction over other dimensions. -/
theorem select_keeps_allowed (hf : Dimension.none ∉ f.dimensions) (records : Records α) :
    List.Forall₂ (Pins f.dimensions) (records.filter fun r => ∀ x ∈ f, r.id.position x.1 ∈ x.2) (records.select f) ∧
    (∀ g h : Filters, Dimension.none ∉ g.dimensions → (∀ d ∈ f.dimensions, d ∉ g.dimensions) →
      (∀ x, x ∈ h ↔ x ∈ f ∨ x ∈ g) →
      (records.select f).select g = records.select h ∧ (records.select g).select f = records.select h) ∧
    ∀ (op : Reduction α) ds, ds ≠ [] → Dimension.none ∉ ds → (∀ d ∈ ds, d ∉ f.dimensions) → (∀ x ∈ f, ∃ p, x.2 = [p]) →
      (records.select f).reduce op ds = (records.reduce op ds).select f := by
  refine ⟨select_pins hf records, fun g h hg hapart hboth => ⟨?_, ?_⟩, fun op ds hds hslot hapart hone =>
    reduce_select hf hds hslot hapart hone op records⟩
  · rw [select_append hf hg hapart]
    exact select_congr (fun x => by rw [List.mem_append, hboth]) records
  · rw [select_append hg hf fun d hd hd' => hapart d hd' hd]
    exact select_congr (fun x => by rw [List.mem_append, hboth, or_comm]) records

/-- Samples of two dies, of which the second one has no shader array 3. -/
def unevenDies : Records Nat :=
  [{ id := InstanceId.zero.put .xcc 1, value := 5, agent := 1 },
    { id := InstanceId.zero.put .xcc 2, value := 7, agent := 2 },
    { id := (InstanceId.zero.put .xcc 1).put .shaderArray 3, value := 9, agent := 3 },
    { id := (InstanceId.zero.put .xcc 1).put .wgp 4, value := 2, agent := 4 }]

theorem select_keeps_allowed_unevenDies :
    let die : Filters := [(.xcc, [1])]
    let arrays : Filters := [(.shaderArray, [0, 3])]
    let sum : Reduction Nat := ⟨fun x y => x + y, fun x _ => x⟩
    Dimension.none ∉ die.dimensions ∧ Dimension.none ∉ arrays.dimensions ∧ (∀ d ∈ die.dimensions, d ∉ arrays.dimensions) ∧
    (∀ x ∈ die, ∃ p, x.2 = [p]) ∧
    (unevenDies.select die).map (fun r => (r.id, r.agent)) =
      [(InstanceId.zero, 1), (InstanceId.zero.put .shaderArray 3, 3), (InstanceId.zero.put .wgp 4, 4)] ∧
    ((unevenDies.select arrays).select die).map (fun r => r.id) =
      [InstanceId.zero, InstanceId.zero, InstanceId.zero.put .wgp 4] ∧
    ((unevenDies.reduce sum [.shaderArray]).select die).map (fun r => (r.value, r.agent)) = [(14, 1), (2, 4)] := by
  intro die arrays sum
  have hdie : Dimension.none ∉ die.dimensions := by decide
  have hone : ∀ x ∈ die, ∃ p, x.2 = [p] := fun x hx => ⟨1, by rw [List.mem_singleton.mp hx]⟩
  obtain ⟨-, hselect, hreduce⟩ := select_keeps_allowed hdie unevenDies
  refine ⟨hdie, by decide, by decide, hone, by decide +kernel, ?_, ?_⟩
  · rw [(hselect arrays (die ++ arrays) (by decide) (by decide) fun x => List.mem_append).2]
    decide +kernel
  · rw [← hreduce sum [.shaderArray] (by decide) (by decide) (by decide) hone, reduce_eq_filterMap (by decide)]
    decide +kernel

end Records

end PerfCounters
