import Mathlib
import PerfCounters.Proofs.Trees.Counters

/-! Reductions as groups. A reduction over dimensions takes every sample to the id that it has with these dimensions
    cleared. There is one result for each such id, in the order in which they first appear, made of all samples that are
    taken there. Which dimensions there are decides the ids, not their order or how often each is listed. -/

namespace PerfCounters

namespace InstanceId

variable {id id' : InstanceId} {ds ds' : List Dimension} {i : Nat}

/-- Clearing takes the bits of all the dimensions, and no others. -/
theorem getLsbD_clearAll (hi : i < 64) : (id.clearAll ds).word.getLsbD i =
    (id.word.getLsbD i && !ds.any fun d => d.start ≤ i ∧ i < d.start + d.width) := by
  induction ds generalizing id with
  | nil => simp [clearAll]
  | cons d ds ih =>
    show ((id.clear d).clearAll ds).word.getLsbD i = _
    rw [ih, clear, getLsbD_write (fits d) (zero_lt_two_pow _) hi, List.any_cons]
    by_cases hd : d.start ≤ i ∧ i < d.start + d.width <;> simp [hd]

theorem clearAll_congr (h : ∀ d, d ∈ ds ↔ d ∈ ds') : id.clearAll ds = id.clearAll ds' := by
  have hword : (id.clearAll ds).word = (id.clearAll ds').word := word_ext fun i hi => by
    rw [getLsbD_clearAll hi, getLsbD_clearAll hi]
    congr 2
    rw [Bool.eq_iff_iff, List.any_eq_true, List.any_eq_true]
    simp only [h]
  exact congrArg InstanceId.mk hword

/-- Without positions, only the counter number is left. -/
theorem clear_none_congr (h : id.counter = id'.counter) : id.clear .none = id'.clear .none := by
  refine congrArg InstanceId.mk (word_ext fun i hi => ?_)
  rw [getLsbD_write (fits .none) (zero_lt_two_pow _) hi, getLsbD_write (fits .none) (zero_lt_two_pow _) hi]
  split
  · rfl
  · rename_i hout
    have hle : positionBits ≤ i := by
      have hnone : Dimension.none.start = 0 ∧ Dimension.none.width = positionBits := by decide
      rw [hnone.1, hnone.2] at hout
      omega
    have hbits : (read id.word positionBits 16).testBit (i - positionBits) =
        (read id'.word positionBits 16).testBit (i - positionBits) :=
      congrArg (fun n : Nat => n.testBit (i - positionBits)) h
    have hlt : i - positionBits < 16 := by
      have : positionBits = 48 := rfl
      omega
    simpa [testBit_read, hlt, Nat.add_sub_cancel' hle] using hbits

end InstanceId

namespace Records

variable {α : Type} {op : Reduction α} {ds : List Dimension} {k : InstanceId} {first : Sample α} {rest : Records α}

theorem perm_members_others (ds : List Dimension) (k : InstanceId) (records : Records α) :
    (members ds k records ++ others ds k records).Perm records := by
  simpa [members, others] using List.filter_append_perm (fun r => decide (r.id.clearAll ds = k)) records

theorem perm_members (ds : List Dimension) (records : Records α) :
    ((keys ds records).flatMap fun k => members ds k records).Perm records := by
  induction records using induction_on_groups ds with
  | nil => exact .nil
  | cons first rest ih =>
    rw [keys_cons, List.flatMap_cons, members_cons_self]
    have hrest : ∀ k ∈ keys ds (others ds (first.id.clearAll ds) rest),
        members ds k (first :: rest) = members ds k (others ds (first.id.clearAll ds) rest) :=
      fun k hk => members_cons_of_ne (ne_of_mem_keys_others hk)
    rw [List.flatMap_congr hrest]
    exact ((ih.append_left _).trans (perm_members_others ds _ rest)).cons first

theorem reduce_congr {ds' : List Dimension} (hds : ds ≠ []) (h : ∀ d, d ∈ ds' ↔ d ∈ ds) (records : Records α) :
    records.reduce op ds' = records.reduce op ds := by
  have hds' : ds' ≠ [] := by
    obtain ⟨d, hd⟩ := List.exists_mem_of_ne_nil ds hds
    exact List.ne_nil_of_mem ((h d).mpr hd)
  have hcleared : cleared (α := α) ds' = cleared ds := funext fun r => by rw [cleared, cleared, InstanceId.clearAll_congr h]
  cases records with
  | nil => rfl
  | cons first rest => rw [reduce, reduce, if_neg hds, if_neg hds', grouping, grouping, hcleared]

/-- Over all positions, samples of one counter are one group. -/
theorem reduce_everything {records : Records α} (h : ∀ r ∈ records, ∀ s ∈ records, r.id.counter = s.id.counter) :
    records.reduce op [] = records.reduce op [.none] := by
  cases records with
  | nil => rfl
  | cons first rest =>
    have hkey : ∀ r ∈ rest, r.id.clearAll [.none] = first.id.clearAll [.none] := fun r hr =>
      InstanceId.clear_none_congr (h r (List.mem_cons_of_mem _ hr) first List.mem_cons_self)
    have hmembers : members [.none] (first.id.clearAll [.none]) rest = rest :=
      List.filter_eq_self.mpr fun r hr => by simp [hkey r hr]
    have hothers : others [.none] (first.id.clearAll [.none]) rest = [] :=
      List.filter_eq_nil_iff.mpr fun r hr => by simp [hkey r hr]
    have hgroup := reduce_cons_groups (List.cons_ne_nil Dimension.none []) op first rest
    rw [hmembers, hothers] at hgroup
    have hwhole : reduce op [] (first :: rest) =
        [{ first with id := first.id.clear .none, value := total op first rest }] := by simp [reduce]
    exact hwhole.trans hgroup.symm

/-- A reduction over dimensions has one result for each id that samples are taken to, in the order in which these first
    appear: it has this id, the attribution of the first sample of the group, and the values of the group combined in their
    order and finished with their number. Every sample is in one group. The dimensions may be listed in any order and
    repeatedly, and samples of one counter are reduced over all positions as over none. An average is the sum divided by
    the number of values, and the other operators leave what was combined. -/
theorem reduce_is_group_by (op : Reduction α) (hds : ds ≠ []) (records : Records α) :
    List.Forall₂ (fun k r => Merges op k (members ds k records) r) (keys ds records) (records.reduce op ds) ∧
    (keys ds records).Nodup ∧
    ((keys ds records).flatMap fun k => members ds k records).Perm records ∧
    (∀ ds', (∀ d, d ∈ ds' ↔ d ∈ ds) → records.reduce op ds' = records.reduce op ds) ∧
    ((∀ r ∈ records, ∀ s ∈ records, r.id.counter = s.id.counter) → records.reduce op [] = records.reduce op [.none]) ∧
    ∀ (o : ReduceOp) x n, o.reduction.finish x n = if o = .avg then x / n.toUInt64.toFloat else x :=
  ⟨reduce_merges hds records, nodup_eraseDups _, perm_members ds records, fun _ h => reduce_congr hds h records,
    reduce_everything, fun o x n => by cases o <;> rfl⟩

/-- Three samples of two dies; those of the first die, of which one comes first and one last, are of two shader arrays. -/
def interleaved : Records Nat :=
  [{ id := InstanceId.zero.put .xcc 1, value := 5, agent := 1 },
    { id := InstanceId.zero.put .xcc 2, value := 7, agent := 2 },
    { id := (InstanceId.zero.put .xcc 1).put .shaderArray 1, value := 9, agent := 3 }]

theorem reduce_is_group_by_interleaved :
    let sum : Reduction Nat := ⟨fun x y => x + y, fun x _ => x⟩
    ([.shaderArray] : List Dimension) ≠ [] ∧
    keys [.shaderArray] interleaved = [InstanceId.zero.put .xcc 1, InstanceId.zero.put .xcc 2] ∧
    (interleaved.reduce sum [.shaderArray]).map (fun r => (r.value, r.agent)) = [(14, 1), (7, 2)] ∧
    List.Forall₂ (fun k r => Merges sum k (members [.shaderArray] k interleaved) r)
      (keys [.shaderArray] interleaved) (interleaved.reduce sum [.shaderArray]) ∧
    interleaved.reduce sum [] = interleaved.reduce sum [.none] := by
  intro sum
  have h := reduce_is_group_by sum (List.cons_ne_nil Dimension.shaderArray []) interleaved
  refine ⟨by decide, by decide +kernel, ?_, h.1, h.2.2.2.2.1 (by decide +kernel)⟩
  rw [reduce_eq_filterMap (List.cons_ne_nil _ _)]
  decide +kernel

end Records

end PerfCounters
