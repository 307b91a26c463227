import PerfCounters.Proofs.Lists
import PerfCounters.Records

/-! The groups that a reduction makes. Its loop keeps them in an array and finds them by an index of their places.
    Array and index stay in step with the samples read: there is one group for each id that samples were taken to, at
    the place that the index has for it, in the order in which the ids first appeared, and made of all samples that
    were taken there. -/

namespace PerfCounters

namespace Records

variable {α : Type} {op : Reduction α} {ds : List Dimension} {k : InstanceId} {i : Nat} {first r : Sample α}
  {rest read group : Records α} {g : Grouping α} {x : Group α}

/-- The samples that a reduction over `ds` takes to the id `k`, in their order. -/
def members (ds : List Dimension) (k : InstanceId) (records : Records α) : Records α :=
  records.filter fun r => r.id.clearAll ds = k

/-- The samples that it takes elsewhere. -/
def others (ds : List Dimension) (k : InstanceId) (records : Records α) : Records α :=
  records.filter fun r => r.id.clearAll ds ≠ k

/-- The ids that a reduction over `ds` takes samples to, each once, in the order in which they first appear. -/
def keys (ds : List Dimension) (records : Records α) : List InstanceId :=
  (records.map fun r => r.id.clearAll ds).eraseDups

theorem mem_keys {records : Records α} : k ∈ keys ds records ↔ ∃ r ∈ records, r.id.clearAll ds = k := by
  unfold keys
  rw [List.mem_eraseDups, List.mem_map]

/-! ### One sample more -/

theorem keys_concat (ds : List Dimension) (read : Records α) (r : Sample α) : keys ds (read ++ [r]) =
    if r.id.clearAll ds ∈ keys ds read then keys ds read else keys ds read ++ [r.id.clearAll ds] := by
  simp only [keys, List.map_append, List.map_cons, List.map_nil, eraseDups_concat, List.mem_eraseDups]

theorem members_concat_self (ds : List Dimension) (read : Records α) (r : Sample α) :
    members ds (r.id.clearAll ds) (read ++ [r]) = members ds (r.id.clearAll ds) read ++ [r] := by
  simp [members]

theorem members_concat_of_ne (h : k ≠ r.id.clearAll ds) : members ds k (read ++ [r]) = members ds k read := by
  simp [members, h.symm]

/-- What samples make together under an id: the first one, with the values of all of them combined, and their number. -/
def groupOf (op : Reduction α) (k : InstanceId) : Records α → Option (Group α)
  | [] => none
  | first :: rest =>
    some ⟨{ first with id := k, value := rest.foldl (fun acc r => op.combine acc r.value) first.value }, rest.length + 1⟩

theorem groupOf_concat (h : groupOf op k group = some x) (r : Sample α) :
    groupOf op k (group ++ [r]) = some (x.add op r) := by
  cases group with
  | nil => cases h
  | cons first rest =>
    cases h
    simp [groupOf, Group.add]

/-! ### The loop -/

/-- Groups and index are those of the samples read so far. -/
structure Grouping.Tracks (op : Reduction α) (ds : List Dimension) (g : Grouping α) (read : Records α) : Prop where
  index : ∀ (k : InstanceId) (i : Nat), g.index[k]? = some i ↔ (keys ds read)[i]? = some k
  groups : List.Forall₂ (fun k x => groupOf op k (members ds k read) = some x) (keys ds read) g.groups.toList

theorem Grouping.Tracks.empty (op : Reduction α) (ds : List Dimension) : ({} : Grouping α).Tracks op ds [] :=
  ⟨fun k i => by simp [keys], .nil⟩

theorem Grouping.Tracks.size_eq (h : g.Tracks op ds read) : g.groups.size = (keys ds read).length := by
  rw [h.groups.length_eq, Array.length_toList]

/-- A sample of an id that was met before goes to the group at the place of this id, and to no other one. -/
theorem Grouping.Tracks.add (h : g.Tracks op ds read) (hi : (keys ds read)[i]? = some (r.id.clearAll ds)) :
    ({ g with groups := g.groups.modify i (Group.add op r) } : Grouping α).Tracks op ds (read ++ [r]) := by
  have hkeys : keys ds (read ++ [r]) = keys ds read := by rw [keys_concat, if_pos (List.mem_of_getElem? hi)]
  obtain ⟨hlength, hgroups⟩ := List.forall₂_iff_get.mp h.groups
  refine ⟨fun k j => by rw [hkeys]; exact h.index k j, ?_⟩
  rw [hkeys, Array.toList_modify]
  refine List.forall₂_iff_get.mpr ⟨by rw [List.length_modify, hlength], fun j hj hj' => ?_⟩
  have hgroup := hgroups j hj (hlength ▸ hj)
  simp only [List.get_eq_getElem, List.getElem_modify] at hgroup ⊢
  by_cases hij : i = j
  · subst hij
    have hkey : (keys ds read)[i] = r.id.clearAll ds := Option.some.inj ((List.getElem?_eq_getElem hj).symm.trans hi)
    rw [if_pos rfl, hkey, members_concat_self]
    rw [hkey] at hgroup
    exact groupOf_concat hgroup r
  · have hne : (keys ds read)[j] ≠ r.id.clearAll ds := fun heq => by
      have hj' : (keys ds read)[j]? = some (r.id.clearAll ds) := by rw [List.getElem?_eq_getElem hj, heq]
      have hsame := (h.index _ i).mpr hi
      rw [(h.index _ j).mpr hj'] at hsame
      exact hij (Option.some.inj hsame).symm
    rw [if_neg hij, members_concat_of_ne hne]
    exact hgroup

/-- A sample of a new id starts a group, and the index leads to it. -/
theorem Grouping.Tracks.start (h : g.Tracks op ds read) (hnew : r.id.clearAll ds ∉ keys ds read) :
    ({ groups := g.groups.push ⟨cleared ds r, 1⟩, index := g.index.insert (r.id.clearAll ds) g.groups.size } :
      Grouping α).Tracks op ds (read ++ [r]) := by
  have hkeys : keys ds (read ++ [r]) = keys ds read ++ [r.id.clearAll ds] := by rw [keys_concat, if_neg hnew]
  refine ⟨fun k i => ?_, ?_⟩
  · rw [hkeys, Std.HashMap.getElem?_insert, h.size_eq, getElem?_concat_eq_some]
    by_cases hk : r.id.clearAll ds = k
    · have hnot : (keys ds read)[i]? ≠ some k := fun hi => hnew (hk ▸ List.mem_of_getElem? hi)
      simp [hk, hnot, eq_comm]
    · simp [hk, h.index k i]
  · have hold : ∀ k x, k ∈ keys ds read ∧ groupOf op k (members ds k read) = some x →
        groupOf op k (members ds k (read ++ [r])) = some x := fun k x hx => by
      rw [members_concat_of_ne fun heq => hnew (heq ▸ hx.1)]
      exact hx.2
    have hnone : members ds (r.id.clearAll ds) read = [] :=
      List.filter_eq_nil_iff.mpr fun s hs hkey => hnew (mem_keys.mpr ⟨s, hs, of_decide_eq_true hkey⟩)
    rw [hkeys, Array.toList_push]
    refine List.rel_append (((List.forall₂_and_left _ _).mpr ⟨fun _ hk => hk, h.groups⟩).imp hold) (.cons ?_ .nil)
    rw [members_concat_self, hnone]
    rfl

theorem Grouping.Tracks.insert (h : g.Tracks op ds read) (r : Sample α) :
    (g.insert op (cleared ds r)).Tracks op ds (read ++ [r]) := by
  have hid : (cleared ds r).id = r.id.clearAll ds := rfl
  unfold Grouping.insert
  rw [hid]
  cases hfind : g.index[r.id.clearAll ds]? with
  | some i => exact h.add ((h.index _ i).mp hfind)
  | none =>
    refine h.start fun hmem => ?_
    obtain ⟨i, hi⟩ := List.mem_iff_getElem?.mp hmem
    rw [(h.index _ i).mpr hi] at hfind
    cases hfind

theorem Grouping.Tracks.foldl (h : g.Tracks op ds read) (records : Records α) :
    (records.foldl (fun g r => g.insert op (cleared ds r)) g).Tracks op ds (read ++ records) := by
  induction records generalizing g read with
  | nil => rwa [List.append_nil]
  | cons r records ih =>
    have hrest := ih (h.insert r)
    rwa [List.append_assoc] at hrest

theorem tracks_grouping (op : Reduction α) (ds : List Dimension) (records : Records α) :
    (grouping op ds records).Tracks op ds records :=
  (Grouping.Tracks.empty op ds).foldl records

/-! ### The results -/

/-- The result that a group comes to. -/
def Group.result (op : Reduction α) (x : Group α) : Sample α := { x.sample with value := op.finish x.sample.value x.size }

theorem reduce_groupsOf (hds : ds ≠ []) (op : Reduction α) (records : Records α) :
    List.Forall₂ (fun k r => (groupOf op k (members ds k records)).map (Group.result op) = some r)
      (keys ds records) (records.reduce op ds) := by
  cases records with
  | nil => exact .nil
  | cons first rest =>
    rw [reduce, if_neg hds, List.forall₂_map_right_iff]
    exact (tracks_grouping op ds (first :: rest)).groups.imp fun _ _ h => by
      rw [h]
      rfl

/-- The results, without the loop. -/
theorem reduce_eq_filterMap (hds : ds ≠ []) (op : Reduction α) (records : Records α) : records.reduce op ds =
    (keys ds records).filterMap fun k => (groupOf op k (members ds k records)).map (Group.result op) :=
  (filterMap_of_forall₂ (reduce_groupsOf hds op records)).symm

/-- The result for a group: the attribution of its first sample, with the value of them all. -/
def Merges (op : Reduction α) (k : InstanceId) (group : Records α) (r : Sample α) : Prop :=
  ∃ first rest, group = first :: rest ∧
    r = { first with
      id := k
      value := op.finish (rest.foldl (fun acc s => op.combine acc s.value) first.value) group.length }

theorem merges_of_groupOf (h : (groupOf op k group).map (Group.result op) = some r) : Merges op k group r := by
  cases group with
  | nil => cases h
  | cons first rest =>
    cases h
    exact ⟨first, rest, rfl, rfl⟩

theorem Merges.unique {s : Sample α} (h : Merges op k group r) (h' : Merges op k group s) : r = s := by
  obtain ⟨first, rest, rfl, rfl⟩ := h
  obtain ⟨_, _, heq, rfl⟩ := h'
  cases heq
  rfl

/-- There is one result for each id, in their order, made of the samples that were taken there. -/
theorem reduce_merges (hds : ds ≠ []) (records : Records α) :
    List.Forall₂ (fun k r => Merges op k (members ds k records) r) (keys ds records) (records.reduce op ds) :=
  (reduce_groupsOf hds op records).imp fun _ _ => merges_of_groupOf

theorem Merges.id_eq (h : Merges op k group r) : r.id = k := by
  obtain ⟨_, _, -, rfl⟩ := h
  rfl

theorem map_id_reduce (hds : ds ≠ []) (op : Reduction α) (records : Records α) :
    (records.reduce op ds).map (fun r => r.id) = keys ds records := by
  have hids : List.Forall₂ Eq ((records.reduce op ds).map fun r => r.id) (keys ds records) := by
    rw [List.forall₂_map_left_iff]
    exact ((reduce_merges hds records).imp fun _ _ (h : Merges op _ _ _) => h.id_eq).flip
  rwa [List.forall₂_eq_eq_eq] at hids

/-! ### Group by group -/

/-- What holds of a list if it holds without the samples that go where the first one goes, holds of every list. -/
theorem induction_on_groups {P : Records α → Prop} (ds : List Dimension) (nil : P [])
    (cons : ∀ first rest, P (others ds (first.id.clearAll ds) rest) → P (first :: rest)) : ∀ records, P records
  | [] => nil
  | first :: rest => cons first rest (induction_on_groups ds nil cons (others ds (first.id.clearAll ds) rest))
termination_by records => records.length
decreasing_by exact Nat.lt_succ_of_le (List.length_filter_le _ _)

theorem keys_cons : keys ds (first :: rest) = first.id.clearAll ds :: keys ds (others ds (first.id.clearAll ds) rest) := by
  unfold keys others
  rw [List.map_cons, List.eraseDups_cons, List.filter_map]
  congr 3
  refine List.filter_congr fun r _ => ?_
  simp [beq_eq_decide]

theorem ne_of_mem_keys_others {k' : InstanceId} {records : Records α} (h : k' ∈ keys ds (others ds k records)) :
    k' ≠ k := by
  obtain ⟨r, hr, rfl⟩ := mem_keys.mp h
  simpa [others] using (List.mem_filter.mp hr).2

/-- Samples that go elsewhere are not missed in a group. -/
theorem members_others {k' : InstanceId} (hne : k' ≠ k) (records : Records α) :
    members ds k' (others ds k records) = members ds k' records := by
  unfold members others
  rw [List.filter_filter]
  refine List.filter_congr fun r _ => ?_
  by_cases h : r.id.clearAll ds = k' <;> simp [h, hne]

theorem members_cons_self : members ds (first.id.clearAll ds) (first :: rest) =
    first :: members ds (first.id.clearAll ds) rest := by
  simp [members]

theorem members_cons_of_ne (hne : k ≠ first.id.clearAll ds) :
    members ds k (first :: rest) = members ds k (others ds (first.id.clearAll ds) rest) := by
  rw [members_others hne]
  simp [members, hne.symm]

/-- The first result is made of the samples that go where the first sample goes, and the others of the others. -/
theorem reduce_cons_groups (hds : ds ≠ []) (op : Reduction α) (first : Sample α) (rest : Records α) :
    reduce op ds (first :: rest) =
      { first with id := first.id.clearAll ds, value := total op first (members ds (first.id.clearAll ds) rest) } ::
        reduce op ds (others ds (first.id.clearAll ds) rest) := by
  have hunique : Relator.RightUnique fun k r => Merges op k (members ds k (first :: rest)) r := fun _ _ _ => Merges.unique
  refine hunique.forall₂ (reduce_merges hds (first :: rest)) ?_
  rw [keys_cons]
  refine .cons ⟨first, members ds (first.id.clearAll ds) rest, members_cons_self, ?_⟩ ?_
  · rw [members_cons_self]
    rfl
  · have hrest := (List.forall₂_and_left _ _).mpr
      ⟨fun _ hk => hk, (reduce_merges hds (others ds (first.id.clearAll ds) rest) :
        List.Forall₂ (fun k r => Merges op k _ r) _ _)⟩
    refine hrest.imp fun k r h => ?_
    rw [members_cons_of_ne (ne_of_mem_keys_others h.1)]
    exact h.2

end Records

end PerfCounters
