import Mathlib
import PerfCounters.Proofs.Trees.Caching
import PerfCounters.Proofs.Trees.Following
import PerfCounters.Proofs.Trees.Inference
import PerfCounters.Proofs.Trees.Shape

/-! Which samples a metric needs. The metrics that are collected for a tree follow every definition down to
    measured metrics; evaluation reads the samples of the metrics that the expanded tree names. The two differ
    in the derived metrics that are read through `accumulate`: they are followed there and read here. -/

namespace PerfCounters

open PerfCounters.Parser (bind_eq_ok)

namespace Tree

/-- The metrics that a tree reads through `accumulate` are those collected, each once. -/
theorem mem_accumulated {t : Tree} {found : List (Metric × AccumulateMode)} {p : Metric × AccumulateMode}
    (h : p ∈ t.accumulated found) : p ∈ found ∨ p.1 ∈ t.leaves := by
  induction t generalizing found with
  | number n v | reference n m => exact Or.inl h
  | accumulate n m mode =>
    rw [accumulated] at h
    split at h
    · exact Or.inl h
    · rcases List.mem_append.mp h with h | h
      · exact Or.inl h
      · rw [List.mem_singleton.mp h]
        exact Or.inr List.mem_cons_self
  | binary n op lhs rhs ihl ihr =>
    rcases ihr h with h | h
    · rcases ihl h with h | h
      · exact Or.inl h
      · exact Or.inr (List.mem_append_left _ h)
    · exact Or.inr (List.mem_append_right _ h)
  | reduce n child op ds ih | select n child filters ih => exact ih h

theorem mem_accumulated_of_mem {t : Tree} {found : List (Metric × AccumulateMode)} {p : Metric × AccumulateMode}
    (h : p ∈ found) : p ∈ t.accumulated found := by
  induction t generalizing found with
  | number n v | reference n m => exact h
  | accumulate n m mode =>
    rw [accumulated]
    split
    · exact h
    · exact List.mem_append_left _ h
  | binary n op lhs rhs ihl ihr => exact ihr (ihl h)
  | reduce n child op ds ih | select n child filters ih => exact ih h

theorem exists_accumulated {t : Tree} {m : Metric} (hm : m ∈ t.accumulands) (found : List (Metric × AccumulateMode)) :
    ∃ p ∈ t.accumulated found, p.1.id = m.id := by
  induction t generalizing found with
  | number n v | reference n x => cases hm
  | accumulate n x mode =>
    rw [List.mem_singleton.mp hm, accumulated]
    split
    · rename_i hany
      obtain ⟨p, hp, hid⟩ := List.any_eq_true.mp hany
      exact ⟨p, hp, by simpa using hid⟩
    · exact ⟨(x, mode), List.mem_append_right _ (List.mem_singleton.mpr rfl), rfl⟩
  | binary n op lhs rhs ihl ihr =>
    rcases List.mem_append.mp hm with hm | hm
    · obtain ⟨p, hp, hid⟩ := ihl hm found
      exact ⟨p, mem_accumulated_of_mem (t := rhs) hp, hid⟩
    · exact ihr hm _
  | reduce n child op ds ih | select n child filters ih => exact ih hm found

end Tree

namespace BaseSamples

variable {base : BaseSamples} {id : Nat}

theorem get?_cons (j : Nat) (records : Records Float) (base : BaseSamples) (k : Nat) :
    get? ((j, records) :: base) k = if k = j then some records else base.get? k := by
  unfold get?
  rw [List.lookup_cons]
  by_cases hk : k = j
  · simp [hk]
  · have hne : (k == j) = false := by simpa using hk
    rw [hne, if_neg hk]

theorem get?_set (id : Nat) (records : Records Float) (base : BaseSamples) (k : Nat) :
    (base.set id records).get? k = if k = id then some records else base.get? k := by
  induction base with
  | nil => exact get?_cons id records [] k
  | cons p base ih =>
    obtain ⟨j, old⟩ := p
    rw [set]
    by_cases hlt : id < j
    · rw [if_pos hlt, get?_cons]
    · rw [if_neg hlt]
      by_cases hid : id = j
      · rw [if_pos hid, get?_cons, get?_cons]
        split <;> rename_i hk
        · rfl
        · rw [if_neg (hid ▸ hk)]
      · rw [if_neg hid, get?_cons, get?_cons, ih]
        by_cases hkj : k = j
        · rw [if_pos hkj, if_pos hkj, if_neg fun hk => hid (hk.symm.trans hkj)]
        · rw [if_neg hkj, if_neg hkj]

/-- There are samples for all these metrics. -/
def Covers (base : BaseSamples) (ms : List Metric) : Prop := ∀ m ∈ ms, ∃ records, base.get? m.id = some records

/-- No samples, but an entry, for each of some metrics. -/
def blank (ms : List Metric) : BaseSamples := ms.foldr (fun m base => base.set m.id []) []

theorem get?_blank (ms : List Metric) (id : Nat) : (blank ms).get? id = if ∃ m ∈ ms, m.id = id then some [] else none := by
  induction ms with
  | nil => simp [blank, get?]
  | cons m ms ih =>
    show ((blank ms).set m.id []).get? id = _
    rw [get?_set, ih]
    by_cases hid : id = m.id
    · simp [hid]
    · have hid' : ¬m.id = id := Ne.symm hid
      simp [hid, hid']

theorem get?_blank_of_mem {m : Metric} {ms : List Metric} (hm : m ∈ ms) : (blank ms).get? m.id = some [] := by
  rw [get?_blank, if_pos ⟨m, hm, rfl⟩]

end BaseSamples

namespace Tree

open BaseSamples

/-- Operands of at most one sample fit. -/
theorem fitIds_of_few {l r : List InstanceId} (hl : l.length ≤ 1) (hr : r.length ≤ 1) :
    ∃ ids, fitIds l r = .ok ids ∧ ids.length ≤ 1 := by
  match l, r with
  | [], [] | [_], [_] | [], [_] | [_], [] => exact ⟨_, rfl, by simp⟩
  | _ :: _ :: _, _ => simp at hl
  | _, _ :: _ :: _ => simp at hr

theorem length_retagIds (n : Note) (ids : List InstanceId) : (retagIds n ids).length = ids.length := by
  unfold retagIds
  split
  · rfl
  · exact List.length_map _

theorem length_reduceIds_le (ds : List Dimension) (ids : List InstanceId) (h : ids.length ≤ 1) :
    (Records.reduceIds ds ids).length ≤ 1 := by
  match ids with
  | [] => simp [Records.reduceIds]
  | [id] =>
    show (if ds = [] then [id.clear .none] else [id.clearAll ds].eraseDups).length ≤ 1
    split <;> simp [List.eraseDups_cons]
  | _ :: _ :: _ => simp at h

theorem length_selectIds_le (filters : Filters) (ids : List InstanceId) :
    (Records.selectIds filters ids).length ≤ ids.length := by
  unfold Records.selectIds
  rw [List.length_map]
  exact List.length_filter_le _ _

theorem leafIds_error {base : BaseSamples} {m : Metric} {e : EvalError} (h : leafIds base m = .error e) :
    base.get? m.id = none ∧ e = .missingBaseCounter m.name m.id := by
  unfold leafIds leaf at h
  cases hget : base.get? m.id with
  | some records => rw [hget] at h; cases h
  | none =>
    rw [hget] at h
    cases h
    exact ⟨rfl, rfl⟩

theorem leafIds_blank_ok {ms : List Metric} {m : Metric} {ids : List InstanceId} (h : leafIds (blank ms) m = .ok ids) :
    ids = [] ∧ ∃ x ∈ ms, x.id = m.id := by
  unfold leafIds leaf at h
  rw [get?_blank] at h
  by_cases hmem : ∃ x ∈ ms, x.id = m.id
  · rw [if_pos hmem] at h
    cases h
    exact ⟨rfl, hmem⟩
  · rw [if_neg hmem] at h
    cases h

/-- Where no metric has more than one sample, no operands are rejected: only a metric that has no samples
    leaves a tree without a value. -/
theorem shape_of_few {leaf : Metric → Except EvalError (List InstanceId)} {t : Tree}
    (hleaf : ∀ m ids, leaf m = .ok ids → ids.length ≤ 1) :
    (∃ ids, t.shape leaf = .ok ids ∧ ids.length ≤ 1) ∨
      ∃ m ∈ t.leaves, ∃ e, leaf m = .error e ∧ t.shape leaf = .error e := by
  induction t with
  | number n v => exact Or.inl ⟨_, rfl, by simp [length_retagIds]⟩
  | reference n m | accumulate n m mode =>
    cases hm : leaf m with
    | error e => exact Or.inr ⟨m, List.mem_cons_self, e, hm, by rw [shape, hm]; rfl⟩
    | ok ids =>
      refine Or.inl ⟨retagIds n ids, by rw [shape, hm]; rfl, ?_⟩
      rw [length_retagIds]
      exact hleaf m ids hm
  | binary n op lhs rhs ihl ihr =>
    rcases ihl with ⟨l, hl, hlenl⟩ | ⟨m, hm, e, he, hl⟩
    · rcases ihr with ⟨r, hr, hlenr⟩ | ⟨m, hm, e, he, hr⟩
      · obtain ⟨ids, hfit, hlen⟩ := fitIds_of_few hlenl hlenr
        exact Or.inl ⟨retagIds n ids, by rw [shape, hl, hr]; show (fitIds l r).map _ = _; rw [hfit]; rfl,
          by rwa [length_retagIds]⟩
      · exact Or.inr ⟨m, List.mem_append_right _ hm, e, he, by rw [shape, hl, hr]; rfl⟩
    · exact Or.inr ⟨m, List.mem_append_left _ hm, e, he, by rw [shape, hl]; rfl⟩
  | reduce n child op ds ih =>
    rcases ih with ⟨ids, hchild, hlen⟩ | ⟨m, hm, e, he, hchild⟩
    · refine Or.inl ⟨_, by rw [shape, hchild]; rfl, ?_⟩
      rw [length_retagIds]
      exact length_reduceIds_le ds ids hlen
    · exact Or.inr ⟨m, hm, e, he, by rw [shape, hchild]; rfl⟩
  | select n child filters ih =>
    rcases ih with ⟨ids, hchild, hlen⟩ | ⟨m, hm, e, he, hchild⟩
    · refine Or.inl ⟨_, by rw [shape, hchild]; rfl, ?_⟩
      rw [length_retagIds]
      exact Nat.le_trans (length_selectIds_le filters ids) hlen
    · exact Or.inr ⟨m, hm, e, he, by rw [shape, hchild]; rfl⟩

end Tree

namespace Evaluator

open BaseSamples PerfCounters.Tree

variable {c : Catalog} {architecture name : String} {e : Evaluator} {ms : List Metric} {t : Tree} {base : BaseSamples}

theorem evaluate_of_tree (ht : e.tree name = .ok t) (base : BaseSamples) : e.evaluate name base = t.value base := by
  unfold evaluate evaluateIn
  rw [ht]
  exact (t.evaluate_eq_value base #[]).1

theorem value_eq_error {cause : EvalError} (hflat : t.Flat c architecture) :
    t.value base = .error cause ↔ t.shape (leafIds base) = .error cause := by
  rw [← map_ids_value hflat.bounded, map_eq_error]

/-- What is required is measured, and it is all that is measured and named by the tree. -/
theorem required_ok (hc : c.Numbered) (he : ofCatalog c architecture = .ok e) (hms : e.required name = .ok ms) :
    ∃ m t, m.architecture = architecture ∧ e.tree name = .ok t ∧ TreeOf c m t ∧
      (∀ x ∈ ms, c.Holds x ∧ x.isDerived = false) ∧ ∀ x ∈ t.leaves, x.isDerived = false → x ∈ ms := by
  obtain ⟨t, ht, h⟩ := bind_eq_ok hms
  obtain ⟨m, hm, harch, -, htree⟩ := tree_ok hc he ht
  have hfollows := (follows_collect hc).1 [] t [] fun x hx _ => (htree.flat.known x hx).1
  rw [(ofCatalog_ok hc he).1] at h
  unfold Tree.required at h
  split at h
  · cases h
  · rename_i found heq
    cases h
    rw [heq] at hfollows
    have hsound : ∀ x ∈ ms, c.Holds x ∧ x.isDerived = false := by
      intro x hx
      obtain ⟨hmeasured, z, hz, hzx⟩ := (hfollows.reached hx).resolve_left List.not_mem_nil
      refine ⟨?_, hmeasured⟩
      rcases (known_of_reads hc hzx).2 with rfl | hholds
      · exact (htree.flat.known x hz).1
      · exact hholds
    refine ⟨m, t, harch, ht, htree, hsound, fun x hx hnot => ?_⟩
    -- whatever has the number of `x` is `x`
    obtain ⟨y, hy, hid⟩ := hfollows.complete rfl hnot x hx .refl
    exact (hsound y hy).1.eq_of_id (htree.flat.known x hx).1 hid ▸ hy

/-- A derived metric that a tree names is one that it accumulates. -/
theorem exists_accumulated_of_derived (hflat : t.Flat c architecture) {x : Metric} (hx : x ∈ t.leaves)
    (hderived : x.isDerived = true) : ∃ p ∈ t.accumulated [], p.1 = x := by
  have hnot : x ∉ t.references := fun hmem => by simp [hflat.measured x hmem] at hderived
  obtain ⟨p, hp, hid⟩ := exists_accumulated ((mem_leaves.mp hx).resolve_left hnot) []
  rcases mem_accumulated hp with hp' | hp'
  · cases hp'
  · exact ⟨p, hp, (hflat.known p.1 hp').1.eq_of_id (hflat.known x hx).1 hid⟩

/-- Where everything measured has samples, a derived metric that is accumulated has none. -/
theorem exists_accumulated_of_missing (hflat : t.Flat c architecture) {metric : String} {id : Nat}
    (hcovers : ∀ x ∈ t.leaves, x.isDerived = false → ∃ records, base.get? x.id = some records)
    (hmissing : t.value base = .error (.missingBaseCounter metric id)) :
    ∃ p ∈ t.accumulated [], p.1.isDerived = true ∧ p.1.name = metric ∧ p.1.id = id ∧ base.get? id = none := by
  rw [value_eq_error hflat] at hmissing
  rcases shape_error hmissing with ⟨l, r, h⟩ | ⟨x, hx, hleaf⟩
  · cases h
  · obtain ⟨hget, heq⟩ := leafIds_error hleaf
    cases heq
    have hderived : x.isDerived = true := by
      by_contra hnot
      obtain ⟨records, hrecords⟩ := hcovers x hx (by simpa using hnot)
      rw [hget] at hrecords
      cases hrecords
    obtain ⟨p, hp, rfl⟩ := exists_accumulated_of_derived hflat hx hderived
    exact ⟨p, hp, hderived, rfl, rfl, hget⟩

/-- A metric that is named can be missed: every other metric has an entry. -/
theorem value_blank_of_mem (hflat : t.Flat c architecture) {x : Metric} (hx : x ∈ t.leaves) (ms : List Metric) :
    t.value (blank ((ms ++ t.leaves).filter fun y => y.id != x.id)) = .error (.missingBaseCounter x.name x.id) := by
  have hfew : ∀ y ids, leafIds (blank ((ms ++ t.leaves).filter fun y => y.id != x.id)) y = .ok ids → ids.length ≤ 1 :=
    fun y ids hleaf => by simp [(leafIds_blank_ok hleaf).1]
  rw [value_eq_error hflat]
  rcases shape_of_few (t := t) hfew with ⟨ids, hshape, _⟩ | ⟨y, hy, cause, hleaf, hshape⟩
  · obtain ⟨ids', hleaf⟩ := leaves_of_shape hshape x hx
    obtain ⟨-, z, hz, hid⟩ := leafIds_blank_ok hleaf
    simp [hid] at hz
  · obtain ⟨hget, rfl⟩ := leafIds_error hleaf
    have hid : y.id = x.id := by
      by_contra hne
      rw [get?_blank_of_mem (List.mem_filter.mpr ⟨List.mem_append_right _ hy, by simpa using hne⟩)] at hget
      cases hget
    rw [hshape, (hflat.known y hy).1.eq_of_id (hflat.known x hx).1 hid]

/-- What evaluation misses when there are samples for everything that is required: the samples of a derived
    metric that is accumulated. Each of these can be missed. -/
theorem misses_iff_accumulates_derived (hc : c.Built) (he : ofCatalog c architecture = .ok e)
    (hms : e.required name = .ok ms) :
    ∃ acc, e.accumulated name = .ok acc ∧
      (∀ base metric id, Covers base ms → e.evaluate name base = .error (.missingBaseCounter metric id) →
        ∃ p ∈ acc, p.1.isDerived = true ∧ p.1.name = metric ∧ p.1.id = id ∧ base.get? id = none) ∧
      ∀ p ∈ acc, p.1.isDerived = true →
        ∃ base, Covers base ms ∧ e.evaluate name base = .error (.missingBaseCounter p.1.name p.1.id) := by
  obtain ⟨m, t, -, ht, htree, hsound, hcomplete⟩ := required_ok hc.numbered he hms
  refine ⟨t.accumulated [], by rw [accumulated, ht]; rfl, fun base metric id hcovers hmissing => ?_,
    fun p hp hderived => ?_⟩
  · rw [evaluate_of_tree ht] at hmissing
    exact exists_accumulated_of_missing htree.flat (fun x hx hnot => hcovers x (hcomplete x hx hnot)) hmissing
  · rcases mem_accumulated hp with hp' | hp'
    · cases hp'
    · refine ⟨_, fun x hx => ⟨[], ?_⟩, (evaluate_of_tree ht _).trans (value_blank_of_mem htree.flat hp' ms)⟩
      have hne : x.id ≠ p.1.id := by
        intro hid
        have heq := (hsound x hx).1.eq_of_id (htree.flat.known p.1 hp').1 hid
        rw [← heq, (hsound x hx).2] at hderived
        cases hderived
      exact get?_blank_of_mem (List.mem_filter.mpr ⟨List.mem_append_left _ hx, by simpa using hne⟩)

/-- A counter, a metric that is the same under another name, and one that accumulates this other one. -/
def renamedCounter : Catalog :=
  (Catalog.empty.registerAll [{ name := "A", architecture := "g", block := "S" },
    { name := "D", architecture := "g", expression := "A" },
    { name := "E", architecture := "g", expression := "accumulate(D, HIGH_RES)" }]).1

theorem misses_renamedCounter : ∃ e a d, renamedCounter.Built ∧ ofCatalog renamedCounter "g" = .ok e ∧
    e.required "E" = .ok [a] ∧ e.accumulated "E" = .ok [(d, .highRes)] ∧ d.isDerived = true ∧ d.name = "D" ∧
    ∃ base, Covers base [a] ∧ e.evaluate "E" base = .error (.missingBaseCounter d.name d.id) := by
  have hbuilt : renamedCounter.Built := Catalog.Built.empty.registerAll _
  have hrequired : (do let e ← ofCatalog renamedCounter "g"; e.required "E") =
      .ok [{ name := "A", architecture := "g", block := "S", id := 1 }] := by cbv
  have haccumulated : (do let e ← ofCatalog renamedCounter "g"; e.accumulated "E") =
      .ok [({ name := "D", architecture := "g", expression := "A", id := 2 }, .highRes)] := by cbv
  obtain ⟨e, he, hms⟩ := bind_eq_ok hrequired
  rw [he] at haccumulated
  obtain ⟨acc, hacc, -, hmisses⟩ := misses_iff_accumulates_derived hbuilt he hms
  have heq : acc = [({ name := "D", architecture := "g", expression := "A", id := 2 }, .highRes)] :=
    Except.ok.inj (hacc.symm.trans haccumulated)
  obtain ⟨base, hcovers, hmissing⟩ := hmisses _ (heq ▸ List.mem_cons_self) (by decide)
  exact ⟨e, _, _, hbuilt, he, hms, heq ▸ hacc, by decide, rfl, base, hcovers, hmissing⟩

end Evaluator

end PerfCounters
