import PerfCounters.Proofs.Trees.Shape

/-! The counter numbers that samples bear. Arithmetic, reduction and selection carry them along, and only a
    reduction looks at them, where it compares ids. So if all samples of a list bear one number they might
    bear any other one: nothing else in a result tells the two apart. -/

namespace PerfCounters

open InstanceId

namespace InstanceId

variable {id : InstanceId} {d : Dimension} {j k : Nat}

theorem withCounter_withCounter (hj : j ≤ maxCounterId) (hk : k ≤ maxCounterId) :
    (id.withCounter j).withCounter k = id.withCounter k :=
  congrArg InstanceId.mk
    (write_write fits_counter (Nat.lt_succ_of_le hk) (Nat.le_refl _) (Nat.le_refl _) (Nat.lt_succ_of_le hj))

theorem withCounter_counter (id : InstanceId) : id.withCounter id.counter = id :=
  congrArg InstanceId.mk (write_read fits_counter rfl)

theorem counter_le (id : InstanceId) : id.counter ≤ maxCounterId := Nat.le_of_lt_succ (read_lt id.word positionBits 16)

theorem clear_withCounter (hk : k ≤ maxCounterId) : (id.withCounter k).clear d = (id.clear d).withCounter k :=
  (put_withCounter (zero_lt_two_pow _) hk).symm

theorem clearAll_withCounter (hk : k ≤ maxCounterId) (ds : List Dimension) :
    (id.withCounter k).clearAll ds = (id.clearAll ds).withCounter k := by
  induction ds generalizing id with
  | nil => rfl
  | cons d ds ih =>
    show ((id.withCounter k).clear d).clearAll ds = ((id.clear d).clearAll ds).withCounter k
    rw [clear_withCounter hk, ih]

end InstanceId

namespace Records

variable {α : Type} {op : Reduction α} {ds : List Dimension} {filters : Filters} {c j k : Nat} {rs : Records α}

/-- The samples with another counter number. -/
def mark (k : Nat) (records : Records α) : Records α := records.map fun r => { r with id := r.id.withCounter k }

theorem length_mark (k : Nat) (records : Records α) : (records.mark k).length = records.length := List.length_map _

theorem mark_mark (hj : j ≤ maxCounterId) (hk : k ≤ maxCounterId) (records : Records α) :
    (records.mark j).mark k = records.mark k := by
  unfold mark
  rw [List.map_map]
  refine List.map_congr_left fun r _ => ?_
  simp only [Function.comp, withCounter_withCounter hj hk]

theorem mark_eq_self (h : ∀ r ∈ rs, r.id.counter = k) : rs.mark k = rs := by
  unfold mark
  refine (List.map_congr_left fun r hr => ?_).trans (List.map_id rs)
  rw [← h r hr, withCounter_counter]
  rfl

theorem withCounter_of_mark (h : rs.mark k = rs) {r : Sample α} (hr : r ∈ rs) : r.id.withCounter k = r.id := by
  obtain ⟨i, hi⟩ := List.mem_iff_getElem?.mp hr
  have hi' : (rs.mark k)[i]? = some { r with id := r.id.withCounter k } := by rw [mark, List.getElem?_map, hi]; rfl
  rw [h, hi] at hi'
  exact (congrArg Sample.id (Option.some.inj hi')).symm

/-! ### Arithmetic and selection -/

/-- The results keep the ids of one of the operands. -/
theorem zipValues?_mark (f : α → α → α) (l r : Records α) :
    (∀ j k, zipValues? f (l.mark j) (r.mark k) = (zipValues? f l r).map (mark j)) ∨
    (∀ j k, zipValues? f (l.mark j) (r.mark k) = (zipValues? f l r).map (mark k)) := by
  unfold zipValues?
  simp only [length_mark]
  by_cases hlen : l.length = r.length
  · left
    intro j k
    simp only [if_pos hlen, Option.map_some, mark, List.zipWith_map, List.map_zipWith]
  · simp only [if_neg hlen]
    match l, r with
    | [l], r =>
      right
      intro j k
      simp [mark, Function.comp_def]
    | [], [r] | _ :: _ :: _, [r] =>
      left
      intro j k
      simp [mark, Function.comp_def]
    | [], [] | [], _ :: _ :: _ | _ :: _ :: _, [] | _ :: _ :: _, _ :: _ :: _ =>
      left
      intro j k
      simp [mark]

theorem select_mark (hk : k ≤ maxCounterId) (records : Records α) :
    (records.mark k).select filters = (records.select filters).mark k := by
  unfold select mark
  rw [List.filter_map, List.map_map, List.map_map]
  simp only [Function.comp_def, position_withCounter hk, cleared, clearAll_withCounter hk]

/-! ### Reduction -/

theorem total_mark (k : Nat) (first : Sample α) (rest : Records α) :
    total op { first with id := first.id.withCounter k } (rest.mark k) = total op first rest := by
  unfold total mark
  rw [List.foldl_map, List.length_map]

/-- Samples of one number go together under any other number if they did before. -/
theorem clearAll_withCounter_inj (hc : c ≤ maxCounterId) (hk : k ≤ maxCounterId) {id id' : InstanceId}
    (hid : id.withCounter c = id) (hid' : id'.withCounter c = id') :
    (id.withCounter k).clearAll ds = (id'.withCounter k).clearAll ds ↔ id.clearAll ds = id'.clearAll ds := by
  rw [clearAll_withCounter hk, clearAll_withCounter hk]
  refine ⟨fun heq => ?_, fun heq => by rw [heq]⟩
  have hback := congrArg (withCounter c) heq
  rwa [withCounter_withCounter hk hc, withCounter_withCounter hk hc, ← clearAll_withCounter hc, ← clearAll_withCounter hc,
    hid, hid'] at hback

theorem reduce_groups_mark (hds : ds ≠ []) (hc : c ≤ maxCounterId) (hk : k ≤ maxCounterId)
    (hrs : ∀ r ∈ rs, r.id.withCounter c = r.id) : (rs.mark k).reduce op ds = (rs.reduce op ds).mark k := by
  induction rs using induction_on_groups ds with
  | nil => rfl
  | cons first rest ih =>
    have hrest : ∀ r ∈ rest, r.id.withCounter c = r.id := fun r hr => hrs r (List.mem_cons_of_mem _ hr)
    have hsame : ∀ r ∈ rest, (r.id.withCounter k).clearAll ds = (first.id.withCounter k).clearAll ds ↔
        r.id.clearAll ds = first.id.clearAll ds := fun r hr =>
      clearAll_withCounter_inj hc hk (hrest r hr) (hrs first List.mem_cons_self)
    have hmembers : members ds ((first.id.withCounter k).clearAll ds) (rest.mark k) =
        (members ds (first.id.clearAll ds) rest).mark k := by
      unfold members mark
      rw [List.filter_map]
      exact congrArg _ (List.filter_congr fun r hr => decide_eq_decide.mpr (hsame r hr))
    have hothers : others ds ((first.id.withCounter k).clearAll ds) (rest.mark k) =
        (others ds (first.id.clearAll ds) rest).mark k := by
      unfold others mark
      rw [List.filter_map]
      exact congrArg _ (List.filter_congr fun r hr => decide_eq_decide.mpr (not_congr (hsame r hr)))
    show reduce op ds ({ first with id := first.id.withCounter k } :: mark k rest) = _
    rw [reduce_cons_groups hds, reduce_cons_groups hds, hmembers, hothers, total_mark,
      ih fun r hr => hrest r (List.mem_of_mem_filter hr), clearAll_withCounter hk]
    rfl

theorem reduce_mark (hc : c ≤ maxCounterId) (hk : k ≤ maxCounterId) (hrs : rs.mark c = rs) :
    (rs.mark k).reduce op ds = (rs.reduce op ds).mark k := by
  by_cases hds : ds = []
  · cases rs with
    | nil => rfl
    | cons first rest =>
      show reduce op ds ({ first with id := first.id.withCounter k } :: mark k rest) = _
      rw [reduce, reduce, if_pos hds, if_pos hds, total_mark, clear_withCounter hk]
      rfl
  · exact reduce_groups_mark hds hc hk fun _ => withCounter_of_mark hrs

/-! ### Samples that differ in their numbers only -/

/-- The same samples, but for the counter number, which is one for all of the first and one for all of the second. -/
def Twins (rs rs' : Records α) : Prop :=
  ∃ k k', k ≤ maxCounterId ∧ k' ≤ maxCounterId ∧ rs.mark k = rs ∧ rs' = rs.mark k'

variable {rs' l l' r r' : Records α}

theorem Twins.self (hk : k ≤ maxCounterId) (h : rs.mark k = rs) : Twins rs rs := ⟨k, k, hk, hk, h, h.symm⟩

theorem Twins.marked (h : Twins rs rs) (hk : k ≤ maxCounterId) : Twins rs (rs.mark k) := by
  obtain ⟨j, -, hj, -, hself, -⟩ := h
  exact ⟨j, k, hj, hk, hself, rfl⟩

theorem Twins.length_eq (h : Twins rs rs') : rs.length = rs'.length := by
  obtain ⟨_, k', -, -, -, rfl⟩ := h
  exact (length_mark k' rs).symm

/-- Another number on all of them leaves no difference. -/
theorem Twins.mark_eq (h : Twins rs rs') (hk : k ≤ maxCounterId) : rs.mark k = rs'.mark k := by
  obtain ⟨_, k', -, hk', -, rfl⟩ := h
  exact (mark_mark hk' hk rs).symm

theorem Twins.select (h : Twins rs rs') (filters : Filters) : Twins (rs.select filters) (rs'.select filters) := by
  obtain ⟨k, k', hk, hk', hself, rfl⟩ := h
  exact ⟨k, k', hk, hk', by rw [← select_mark hk, hself], select_mark hk' rs⟩

theorem Twins.reduce (h : Twins rs rs') (op : Reduction α) (ds : List Dimension) :
    Twins (rs.reduce op ds) (rs'.reduce op ds) := by
  obtain ⟨k, k', hk, hk', hself, rfl⟩ := h
  exact ⟨k, k', hk, hk', by rw [← reduce_mark hk hk hself, hself], reduce_mark hk hk' hself⟩

theorem Twins.zipValues? (hl : Twins l l') (hr : Twins r r') (f : α → α → α) :
    (Records.zipValues? f l r = none ∧ Records.zipValues? f l' r' = none) ∨
    ∃ o o', Records.zipValues? f l r = some o ∧ Records.zipValues? f l' r' = some o' ∧ Twins o o' := by
  obtain ⟨j, j', hj, hj', hselfl, rfl⟩ := hl
  obtain ⟨k, k', hk, hk', hselfr, rfl⟩ := hr
  cases ho : Records.zipValues? f l r with
  | none =>
    refine Or.inl ⟨rfl, ?_⟩
    rcases zipValues?_mark f l r with h | h <;> rw [h j' k', ho] <;> rfl
  | some o =>
    refine Or.inr ?_
    rcases zipValues?_mark f l r with h | h
    · refine ⟨o, o.mark j', rfl, by rw [h j' k', ho]; rfl, j, j', hj, hj', ?_, rfl⟩
      have hself := h j k
      rw [hselfl, hselfr, ho] at hself
      exact (Option.some.inj hself).symm
    · refine ⟨o, o.mark k', rfl, by rw [h j' k', ho]; rfl, k, k', hk, hk', ?_, rfl⟩
      have hself := h j k
      rw [hselfl, hselfr, ho] at hself
      exact (Option.some.inj hself).symm

end Records

end PerfCounters
