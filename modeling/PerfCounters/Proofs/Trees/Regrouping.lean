import PerfCounters.Proofs.Trees.Grouping

/-! Reductions of reductions. A reduction over further dimensions takes whole groups together: those whose ids it takes to
    one id. Where the order in which values are combined does not count, this comes to the same as one reduction over all
    the dimensions; and a reduction that is repeated finds every sample alone in its group. -/

namespace PerfCounters

namespace InstanceId

variable {ds ds' : List Dimension}

theorem clearAll_append (id : InstanceId) (ds ds' : List Dimension) :
    id.clearAll (ds ++ ds') = (id.clearAll ds).clearAll ds' := List.foldl_append

theorem clearAll_clearAll (id : InstanceId) (ds : List Dimension) : (id.clearAll ds).clearAll ds = id.clearAll ds := by
  rw [← clearAll_append]
  exact clearAll_congr fun d => by rw [List.mem_append, or_self]

end InstanceId

/-- The order in which values are combined does not count. -/
structure Reduction.Orderless {α : Type} (op : Reduction α) : Prop where
  assoc : ∀ x y z, op.combine (op.combine x y) z = op.combine x (op.combine y z)
  comm : ∀ x y, op.combine x y = op.combine y x

/-- The result is what was combined. -/
def Reduction.Plain {α : Type} (op : Reduction α) : Prop := ∀ x n, op.finish x n = x

theorem ReduceOp.plain_reduction {o : ReduceOp} (h : o ≠ .avg) : o.reduction.Plain := by
  cases o with
  | avg => exact absurd rfl h
  | min | max | sum => exact fun _ _ => rfl

namespace Records

variable {α : Type} {op : Reduction α} {ds ds' : List Dimension} {k : InstanceId} {x y : α} {r r' : Sample α}
  {group records records' : Records α}

/-! ### Whole groups -/

/-- A group that is kept by its id is kept as a whole. -/
theorem members_filter {p : InstanceId → Bool} (hp : p k = true) (records : Records α) :
    members ds k (records.filter fun r => p (r.id.clearAll ds)) = members ds k records := by
  unfold members
  rw [List.filter_filter]
  refine List.filter_congr fun r _ => ?_
  by_cases hr : r.id.clearAll ds = k <;> simp [hr, hp]

/-- Of a group that is not kept nothing is. -/
theorem filter_others {p : InstanceId → Bool} (hp : ¬p k = true) (records : Records α) :
    ((others ds k records).filter fun r => p (r.id.clearAll ds)) = records.filter fun r => p (r.id.clearAll ds) := by
  unfold others
  rw [List.filter_filter]
  refine List.filter_congr fun r _ => ?_
  by_cases hr : r.id.clearAll ds = k <;> simp [hr, hp]

/-- What is kept of the results by their ids are the results for the samples that go to these ids. -/
theorem filter_reduce (hds : ds ≠ []) (op : Reduction α) (p : InstanceId → Bool) (records : Records α) :
    (records.reduce op ds).filter (fun r => p r.id) = reduce op ds (records.filter fun r => p (r.id.clearAll ds)) := by
  induction records using induction_on_groups ds with
  | nil => rfl
  | cons first rest ih =>
    rw [reduce_cons_groups hds]
    by_cases hp : p (first.id.clearAll ds) = true
    · have hothers : others ds (first.id.clearAll ds) (rest.filter fun r => p (r.id.clearAll ds)) =
          (others ds (first.id.clearAll ds) rest).filter fun r => p (r.id.clearAll ds) := List.filter_comm ..
      rw [List.filter_cons, List.filter_cons, if_pos hp, if_pos hp, reduce_cons_groups hds, ih, members_filter hp, hothers]
    · rw [List.filter_cons, List.filter_cons, if_neg hp, if_neg hp, ih, filter_others hp]

theorem keys_reduce (hds : ds ≠ []) (op : Reduction α) (records : Records α) :
    keys ds' (records.reduce op ds) = keys (ds ++ ds') records := by
  have hids : (records.reduce op ds).map (fun r => r.id.clearAll ds') =
      (keys ds records).map fun id => id.clearAll ds' := by
    rw [← map_id_reduce hds op, List.map_map]
    rfl
  unfold keys at hids ⊢
  rw [hids, ← eraseDups_map, List.map_map]
  simp only [InstanceId.clearAll_append]
  rfl

theorem members_reduce (hds : ds ≠ []) (op : Reduction α) (k : InstanceId) (records : Records α) :
    members ds' k (records.reduce op ds) = (members (ds ++ ds') k records).reduce op ds := by
  unfold members
  simp only [InstanceId.clearAll_append]
  exact filter_reduce hds op (fun id => id.clearAll ds' = k) records

/-! ### Values of whole groups -/

/-- The values of samples, combined from `x` on. -/
def gather (op : Reduction α) (x : α) (records : Records α) : α := records.foldl (fun acc r => op.combine acc r.value) x

theorem gather_append (op : Reduction α) (x : α) (records records' : Records α) :
    gather op x (records ++ records') = gather op (gather op x records) records' := List.foldl_append

theorem combine_gather (h : op.Orderless) (records : Records α) :
    op.combine x (gather op y records) = gather op (op.combine x y) records := by
  induction records generalizing y with
  | nil => rfl
  | cons r records ih =>
    show op.combine x (gather op (op.combine y r.value) records) = gather op (op.combine (op.combine x y) r.value) records
    rw [ih, h.assoc]

theorem gather_perm (h : op.Orderless) (hperm : records.Perm records') (x : α) :
    gather op x records = gather op x records' := by
  refine hperm.foldl_eq' (fun r _ s _ acc => ?_) x
  rw [h.assoc, h.comm r.value, h.assoc]

/-- The values of groups combine to what the values of all samples combine to. -/
theorem gather_reduce (h : op.Orderless) (hplain : op.Plain) (hds : ds ≠ []) (records : Records α) :
    gather op x (records.reduce op ds) = gather op x records := by
  induction records using induction_on_groups ds generalizing x with
  | nil => rfl
  | cons first rest ih =>
    have hperm := perm_members_others ds (first.id.clearAll ds) rest
    have htotal : total op first (members ds (first.id.clearAll ds) rest) =
        gather op first.value (members ds (first.id.clearAll ds) rest) := hplain _ _
    rw [reduce_cons_groups hds, htotal]
    calc gather op (op.combine x (gather op first.value (members ds (first.id.clearAll ds) rest)))
          (reduce op ds (others ds (first.id.clearAll ds) rest))
        = gather op (op.combine x first.value)
            (members ds (first.id.clearAll ds) rest ++ others ds (first.id.clearAll ds) rest) := by
          rw [ih, combine_gather h, gather_append]
      _ = gather op (op.combine x first.value) rest := gather_perm h hperm _

/-- A group may be reduced before it is merged. -/
theorem Merges.reduce (h : op.Orderless) (hplain : op.Plain) (hds : ds ≠ []) (hmerges : Merges op k group r) :
    Merges op k (group.reduce op ds) r := by
  obtain ⟨first, rest, rfl, rfl⟩ := hmerges
  refine ⟨_, _, reduce_cons_groups hds op first rest, ?_⟩
  have hperm := perm_members_others ds (first.id.clearAll ds) rest
  have hvalue : gather op (total op first (members ds (first.id.clearAll ds) rest))
      (Records.reduce op ds (others ds (first.id.clearAll ds) rest)) = gather op first.value rest := by
    rw [gather_reduce h hplain hds, ← gather_perm h hperm, gather_append]
    exact congrArg (fun y => gather op y _) (hplain _ _)
  simp only [hplain _ _]
  exact congrArg (fun y => ({ first with id := k, value := y } : Sample α)) hvalue.symm

theorem reduce_append (h : op.Orderless) (hplain : op.Plain) (hds : ds ≠ []) (hds' : ds' ≠ []) (records : Records α) :
    (records.reduce op ds).reduce op ds' = records.reduce op (ds ++ ds') := by
  have hunique : Relator.RightUnique fun k r => Merges op k (members ds' k (records.reduce op ds)) r :=
    fun _ _ _ hr hr' => hr.unique hr'
  refine hunique.forall₂ (reduce_merges hds' (records.reduce op ds)) ?_
  rw [keys_reduce hds]
  refine (reduce_merges (List.append_ne_nil_of_left_ne_nil hds ds') records).imp fun k r hmerges => ?_
  rw [members_reduce hds]
  exact hmerges.reduce h hplain hds

/-! ### Samples alone in their groups -/

/-- A sample that is alone in its group, and there already, is its own result. -/
theorem reduce_of_apart (hds : ds ≠ []) (hids : (records.map fun r => r.id).Nodup)
    (hcleared : ∀ r ∈ records, r.id.clearAll ds = r.id) (hone : ∀ r ∈ records, op.finish r.value 1 = r.value) :
    records.reduce op ds = records := by
  induction records with
  | nil => rfl
  | cons first rest ih =>
    obtain ⟨hfirst, hrest⟩ := List.nodup_cons.mp hids
    have hids' := hcleared first List.mem_cons_self
    have hne : ∀ r ∈ rest, r.id.clearAll ds ≠ first.id.clearAll ds := fun r hr heq => by
      rw [hcleared r (List.mem_cons_of_mem _ hr), hids'] at heq
      exact hfirst (List.mem_map.mpr ⟨r, hr, heq⟩)
    have hmembers : members ds (first.id.clearAll ds) rest = [] :=
      List.filter_eq_nil_iff.mpr fun r hr => by simpa using hne r hr
    have hothers : others ds (first.id.clearAll ds) rest = rest :=
      List.filter_eq_self.mpr fun r hr => by simpa using hne r hr
    have htotal : total op first [] = first.value := hone first List.mem_cons_self
    rw [reduce_cons_groups hds, hmembers, hothers, htotal, hids', ih hrest
      (fun r hr => hcleared r (List.mem_cons_of_mem _ hr)) fun r hr => hone r (List.mem_cons_of_mem _ hr)]

theorem reduce_reduce_self (hds : ds ≠ []) (records : Records α)
    (hone : ∀ r ∈ records.reduce op ds, op.finish r.value 1 = r.value) :
    (records.reduce op ds).reduce op ds = records.reduce op ds := by
  refine reduce_of_apart hds ?_ (fun r hr => ?_) hone
  · rw [map_id_reduce hds]
    exact nodup_eraseDups _
  · have hkey : r.id ∈ keys ds records := map_id_reduce hds op records ▸ List.mem_map_of_mem hr
    obtain ⟨s, -, hs⟩ := mem_keys.mp hkey
    rw [← hs, InstanceId.clearAll_clearAll]

/-- A reduction can be made in stages: where values combine in any order and are left as they are combined, as by every
    operator but the average, reducing over some dimensions and then over others is reducing over them all, with the same
    ids, attribution and order of the results. A repeated reduction changes nothing, whatever the operator, if finishing
    leaves a value that stands alone. -/
theorem reduce_in_stages (op : Reduction α) (records : Records α) :
    (op.Orderless → op.Plain → ∀ ds ds', ds ≠ [] → ds' ≠ [] →
      (records.reduce op ds).reduce op ds' = records.reduce op (ds ++ ds')) ∧
    (∀ ds, ds ≠ [] → (∀ r ∈ records.reduce op ds, op.finish r.value 1 = r.value) →
      (records.reduce op ds).reduce op ds = records.reduce op ds) ∧
    ∀ o : ReduceOp, o ≠ .avg → o.reduction.Plain :=
  ⟨fun h hplain _ _ hds hds' => reduce_append h hplain hds hds' records,
    fun _ hds hone => reduce_reduce_self hds records hone, fun _ h => ReduceOp.plain_reduction h⟩

/-- Samples of two dies; a reduction over shader arrays makes two groups of them whose members alternate, and one over
    the dies makes one group of these. -/
def alternating : Records ℚ :=
  [{ id := InstanceId.zero.put .xcc 1, value := 5, agent := 1 },
    { id := InstanceId.zero.put .xcc 2, value := 1 / 2, agent := 2 },
    { id := (InstanceId.zero.put .xcc 1).put .shaderArray 1, value := -3, agent := 3 },
    { id := (InstanceId.zero.put .xcc 2).put .shaderArray 4, value := 7, agent := 4 }]

theorem reduce_in_stages_alternating :
    let least : Reduction ℚ := ⟨min, fun x _ => x⟩
    let mean : Reduction ℚ := ⟨fun x y => x + y, fun x n => x / n⟩
    least.Orderless ∧ least.Plain ∧ (∀ x, mean.finish x 1 = x) ∧
    ((alternating.reduce least [.shaderArray]).reduce least [.xcc]).map (fun r => (r.id, r.value, r.agent)) =
      [(InstanceId.zero, -3, 1)] ∧
    (alternating.reduce mean [.shaderArray]).map (fun r => (r.value, r.agent)) = [(1, 1), (15 / 4, 2)] ∧
    (alternating.reduce mean [.shaderArray]).reduce mean [.shaderArray] = alternating.reduce mean [.shaderArray] := by
  intro least mean
  have horderless : least.Orderless := ⟨min_assoc, min_comm⟩
  have hplain : least.Plain := fun _ _ => rfl
  have hone : ∀ x, mean.finish x 1 = x := fun x => by simp [mean]
  refine ⟨horderless, hplain, hone, ?_, ?_, ?_⟩
  · rw [(reduce_in_stages least alternating).1 horderless hplain [.shaderArray] [.xcc] (by decide) (by decide),
      reduce_eq_filterMap (by decide)]
    decide +kernel
  · rw [reduce_eq_filterMap (by decide)]
    decide +kernel
  · exact (reduce_in_stages mean alternating).2.1 [.shaderArray] (by decide) fun r _ => hone r.value

end Records

end PerfCounters
