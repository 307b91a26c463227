import PerfCounters.Proofs.Catalog.Numbers
import PerfCounters.Evaluator

/-! What expansion makes of a tree: the tree with every definition inlined where its metric is referred to. The
    trees that an expander has finished are of that kind, so each may stand for its metric wherever it is
    referred to. What is left refers to measured metrics only, and to metrics of the catalog. -/

namespace PerfCounters

open PerfCounters.Parser (bind_eq_ok)

namespace Tree

/-- The metrics that a tree names, left to right. -/
def leaves : Tree → List Metric
  | .number _ _ => []
  | .reference _ m | .accumulate _ m _ => [m]
  | .binary _ _ lhs rhs => lhs.leaves ++ rhs.leaves
  | .reduce _ child _ _ | .select _ child _ => child.leaves

/-- The metrics that a tree refers to, left to right. -/
def references : Tree → List Metric
  | .number _ _ | .accumulate _ _ _ => []
  | .reference _ m => [m]
  | .binary _ _ lhs rhs => lhs.references ++ rhs.references
  | .reduce _ child _ _ | .select _ child _ => child.references

/-- The metrics that a tree accumulates, left to right. -/
def accumulands : Tree → List Metric
  | .number _ _ | .reference _ _ => []
  | .accumulate _ m _ => [m]
  | .binary _ _ lhs rhs => lhs.accumulands ++ rhs.accumulands
  | .reduce _ child _ _ | .select _ child _ => child.accumulands

/-- The counter numbers noted in a tree. -/
def outIds (t : Tree) : List Nat :=
  t.outId.toList ++ match t with
    | .number _ _ | .reference _ _ | .accumulate _ _ _ => []
    | .binary _ _ lhs rhs => lhs.outIds ++ rhs.outIds
    | .reduce _ child _ _ | .select _ child _ => child.outIds

@[simp] theorem leaves_withNote (n : Note) (t : Tree) : (t.withNote n).leaves = t.leaves := by cases t <;> rfl

@[simp] theorem references_withNote (n : Note) (t : Tree) : (t.withNote n).references = t.references := by
  cases t <;> rfl

theorem mem_leaves {t : Tree} {m : Metric} : m ∈ t.leaves ↔ m ∈ t.references ∨ m ∈ t.accumulands := by
  induction t with
  | number | reference | accumulate => simp [leaves, references, accumulands]
  | binary n op lhs rhs ihl ihr =>
    simp only [leaves, references, accumulands, List.mem_append, ihl, ihr]
    tauto
  | reduce n child op ds ih | select n child filters ih => exact ih

/-- Another note on the root changes the number noted there and no other. -/
theorem mem_outIds_withNote {n : Note} {t : Tree} {k : Nat} (h : k ∈ (t.withNote n).outIds) :
    n.outId = some k ∨ k ∈ t.outIds := by
  cases t <;> simp_all [withNote, outIds, outId, note, Option.mem_toList] <;> tauto

/-- The trees whose metrics are of the catalog, on this architecture, and whose noted numbers fit an id. -/
structure Known (c : Catalog) (architecture : String) (t : Tree) : Prop where
  known : ∀ m ∈ t.leaves, c.Holds m ∧ m.architecture = architecture
  bounded : ∀ k ∈ t.outIds, k ≤ maxCounterId

/-- The trees that can be evaluated by reading samples: references are to measured metrics. -/
structure Flat (c : Catalog) (architecture : String) (t : Tree) : Prop extends Known c architecture t where
  measured : ∀ m ∈ t.references, m.isDerived = false

section Known

variable {c : Catalog} {architecture : String} {n : Note} {t lhs rhs child : Tree} {op : BinaryOp} {rop : ReduceOp}
  {ds : List Dimension} {filters : Filters}

theorem Known.outId_le (h : t.Known c architecture) {k : Nat} (hk : t.outId = some k) : k ≤ maxCounterId := by
  apply h.bounded
  cases t <;> simp_all [outIds]

theorem Known.left (h : (binary n op lhs rhs).Known c architecture) : lhs.Known c architecture where
  known m hm := h.known m (List.mem_append_left _ hm)
  bounded k hk := h.bounded k (by simp [outIds, hk])

theorem Known.right (h : (binary n op lhs rhs).Known c architecture) : rhs.Known c architecture where
  known m hm := h.known m (List.mem_append_right _ hm)
  bounded k hk := h.bounded k (by simp [outIds, hk])

theorem Known.reduced (h : (reduce n child rop ds).Known c architecture) : child.Known c architecture where
  known := h.known
  bounded k hk := h.bounded k (by simp [outIds, hk])

theorem Known.selected (h : (select n child filters).Known c architecture) : child.Known c architecture where
  known := h.known
  bounded k hk := h.bounded k (by simp [outIds, hk])

theorem Flat.binary (hn : ∀ k, n.outId = some k → k ≤ maxCounterId) (hl : lhs.Flat c architecture)
    (hr : rhs.Flat c architecture) : (binary n op lhs rhs).Flat c architecture := by
  refine ⟨⟨fun m hm => ?_, fun k hk => ?_⟩, fun m hm => ?_⟩
  · rcases List.mem_append.mp hm with hm | hm
    · exact hl.known m hm
    · exact hr.known m hm
  · simp only [outIds, outId, note, List.mem_append, Option.mem_toList] at hk
    rcases hk with hk | hk | hk
    · exact hn k hk
    · exact hl.bounded k hk
    · exact hr.bounded k hk
  · rcases List.mem_append.mp hm with hm | hm
    · exact hl.measured m hm
    · exact hr.measured m hm

theorem Flat.reduce (hn : ∀ k, n.outId = some k → k ≤ maxCounterId) (h : child.Flat c architecture) :
    (reduce n child rop ds).Flat c architecture := by
  refine ⟨⟨h.known, fun k hk => ?_⟩, h.measured⟩
  simp only [outIds, outId, note, List.mem_append, Option.mem_toList] at hk
  rcases hk with hk | hk
  · exact hn k hk
  · exact h.bounded k hk

theorem Flat.select (hn : ∀ k, n.outId = some k → k ≤ maxCounterId) (h : child.Flat c architecture) :
    (select n child filters).Flat c architecture := by
  refine ⟨⟨h.known, fun k hk => ?_⟩, h.measured⟩
  simp only [outIds, outId, note, List.mem_append, Option.mem_toList] at hk
  rcases hk with hk | hk
  · exact hn k hk
  · exact h.bounded k hk

end Known

/-! ### Trees of expressions -/

variable {c : Catalog} {architecture : String}

theorem lookUp_ok (hc : c.Numbered) {name : String} {m : Metric} (h : lookUp c architecture name = .ok m) :
    c.Holds m ∧ m.architecture = architecture ∧ m.name = name := by
  unfold lookUp at h
  split at h
  · rename_i found hfound
    cases h
    exact hc.byName?_iff.mp hfound
  · cases h

/-- The tree of an expression names metrics of its architecture, and nothing is noted in it. -/
theorem ofExpr_ok (hc : c.Numbered) {e : Expr} {t : Tree} (h : ofExpr c architecture e = .ok t) :
    (∀ m ∈ t.leaves, c.Holds m ∧ m.architecture = architecture) ∧ t.outIds = [] := by
  induction e generalizing t with
  | number v =>
    cases h
    exact ⟨fun m hm => (by cases hm), rfl⟩
  | metric name =>
    obtain ⟨m, hm, h⟩ := bind_eq_ok h
    cases h
    obtain ⟨hholds, harch, -⟩ := lookUp_ok hc hm
    exact ⟨fun x hx => by rw [List.mem_singleton.mp hx]; exact ⟨hholds, harch⟩, rfl⟩
  | accumulate name mode =>
    obtain ⟨m, hm, h⟩ := bind_eq_ok h
    cases h
    obtain ⟨hholds, harch, -⟩ := lookUp_ok hc hm
    exact ⟨fun x hx => by rw [List.mem_singleton.mp hx]; exact ⟨hholds, harch⟩, rfl⟩
  | binary op lhs rhs ihl ihr =>
    obtain ⟨l, hl, h⟩ := bind_eq_ok h
    obtain ⟨r, hr, h⟩ := bind_eq_ok h
    cases h
    obtain ⟨hleavesl, houtl⟩ := ihl hl
    obtain ⟨hleavesr, houtr⟩ := ihr hr
    refine ⟨fun m hm => ?_, by simp [outIds, outId, note, houtl, houtr]⟩
    rcases List.mem_append.mp hm with hm | hm
    · exact hleavesl m hm
    · exact hleavesr m hm
  | reduce child op ds ih =>
    obtain ⟨t, ht, h⟩ := bind_eq_ok h
    cases h
    exact ⟨(ih ht).1, by simp [outIds, outId, note, (ih ht).2]⟩
  | select child filters ih =>
    obtain ⟨t, ht, h⟩ := bind_eq_ok h
    cases h
    exact ⟨(ih ht).1, by simp [outIds, outId, note, (ih ht).2]⟩

theorem ofMetric_measured {m : Metric} (hm : m.isDerived = false) : ofMetric c m = .ok (.reference {} m) := by
  simp [ofMetric, hm]

theorem ofMetric_derived {m : Metric} {t : Tree} (h : ofMetric c m = .ok t) (hm : m.isDerived = true) :
    ∃ e, Expr.ofText m.expression = .ok e ∧ ofExpr c m.architecture e = .ok t := by
  simp only [ofMetric, hm, if_true] at h
  split at h
  · rename_i e he
    exact ⟨e, he, h⟩
  · cases h

/-- The tree of a metric of the catalog names metrics of the catalog, all of one architecture. -/
theorem ofMetric_ok (hc : c.Numbered) {m : Metric} {t : Tree} (hm : c.Holds m) (h : ofMetric c m = .ok t) :
    t.Known c m.architecture := by
  cases hderived : m.isDerived with
  | true =>
    obtain ⟨e, -, hexpr⟩ := ofMetric_derived h hderived
    obtain ⟨hleaves, hout⟩ := ofExpr_ok hc hexpr
    exact ⟨hleaves, fun k hk => by rw [hout] at hk; cases hk⟩
  | false =>
    cases (ofMetric_measured hderived).symm.trans h
    exact ⟨fun x hx => by rw [List.mem_singleton.mp hx]; exact ⟨hm, rfl⟩, fun k hk => (by cases hk)⟩

/-! ### Inlined trees -/

/-- The second tree is the first one with every derived metric replaced by its definition, all the way down,
    where it is referred to. -/
inductive Inlines (c : Catalog) : Tree → Tree → Prop where
  | number {n v} : Inlines c (.number n v) (.number n v)
  | accumulate {n m mode} : Inlines c (.accumulate n m mode) (.accumulate n m mode)
  | measured {n m} (h : m.isDerived = false) : Inlines c (.reference n m) (.reference n m)
  | derived {n m t t'} (h : m.isDerived = true) (definition : ofMetric c m = .ok t) (inlined : Inlines c t t') :
      Inlines c (.reference n m) (t'.inPlaceOf n)
  | binary {n op lhs rhs lhs' rhs'} (left : Inlines c lhs lhs') (right : Inlines c rhs rhs') :
      Inlines c (.binary n op lhs rhs) (.binary n op lhs' rhs')
  | reduce {n child child' op ds} (reduced : Inlines c child child') :
      Inlines c (.reduce n child op ds) (.reduce n child' op ds)
  | select {n child child' filters} (selected : Inlines c child child') :
      Inlines c (.select n child filters) (.select n child' filters)

theorem Flat.inPlaceOf {t : Tree} (h : t.Flat c architecture) (n : Note)
    (hn : ∀ k, n.outId = some k → k ≤ maxCounterId) : (t.inPlaceOf n).Flat c architecture := by
  unfold Tree.inPlaceOf
  cases hid : n.outId with
  | none => exact h
  | some k =>
    refine ⟨⟨?_, fun j hj => ?_⟩, ?_⟩
    · rw [leaves_withNote]
      exact h.known
    · rcases mem_outIds_withNote hj with hroot | hinner
      · cases hroot
        exact hn k hid
      · exact h.bounded j hinner
    · rw [references_withNote]
      exact h.measured

theorem Inlines.flat {t t' : Tree} (hc : c.Numbered) (h : Inlines c t t') (ht : t.Known c architecture) :
    t'.Flat c architecture := by
  induction h generalizing architecture with
  | number | accumulate => exact ⟨ht, fun m hm => (by cases hm)⟩
  | measured hmeasured => exact ⟨ht, fun m hm => by rw [List.mem_singleton.mp hm]; exact hmeasured⟩
  | derived _ definition _ ih =>
    obtain ⟨hm, rfl⟩ := ht.known _ List.mem_cons_self
    exact (ih (ofMetric_ok hc hm definition)).inPlaceOf _ fun k => ht.outId_le
  | binary _ _ ihl ihr => exact Flat.binary (fun k => ht.outId_le) (ihl ht.left) (ihr ht.right)
  | reduce _ ih => exact Flat.reduce (fun k => ht.outId_le) (ih ht.reduced)
  | select _ ih => exact Flat.select (fun k => ht.outId_le) (ih ht.selected)

theorem Inlines.unique {t t₁ t₂ : Tree} (h : Inlines c t t₁) (h' : Inlines c t t₂) : t₁ = t₂ := by
  induction h generalizing t₂ with
  | number | accumulate =>
    cases h'
    rfl
  | measured hmeasured =>
    cases h' with
    | measured => rfl
    | derived hderived => simp [hmeasured] at hderived
  | derived hderived definition _ ih =>
    cases h' with
    | measured hmeasured => simp [hmeasured] at hderived
    | derived _ definition' inlined' =>
      cases definition.symm.trans definition'
      rw [ih inlined']
  | binary _ _ ihl ihr =>
    cases h' with
    | binary left right => rw [ihl left, ihr right]
  | reduce _ ih =>
    cases h' with
    | reduce reduced => rw [ih reduced]
  | select _ ih =>
    cases h' with
    | select selected => rw [ih selected]

/-- A measured metric stands for itself. -/
theorem Inlines.of_measured {m : Metric} {t t' : Tree} (h : Inlines c t t') (hm : m.isDerived = false)
    (ht : ofMetric c m = .ok t) : t' = .reference {} m := by
  cases (ofMetric_measured hm).symm.trans ht
  exact h.unique (.measured hm)

end Tree

namespace Catalog

/-- The definition of `m` names `x`. -/
def Reads (c : Catalog) (m x : Metric) : Prop := m.isDerived = true ∧ ∃ t, Tree.ofMetric c m = .ok t ∧ x ∈ t.leaves

/-- The definition of `m` names `x`, and not only to accumulate it. -/
def Refers (c : Catalog) (m x : Metric) : Prop := m.isDerived = true ∧ ∃ t, Tree.ofMetric c m = .ok t ∧ x ∈ t.references

end Catalog

open PerfCounters.Tree

namespace Expander

variable {c : Catalog}

/-- The tree in its place is the inlined definition of the metric. -/
def Inlined (c : Catalog) (m : Metric) (t' : Tree) : Prop := ∃ t, ofMetric c m = .ok t ∧ Inlines c t t'

/-- The finished trees are inlined definitions. -/
def Finished (c : Catalog) (finished : List (Nat × Tree)) : Prop :=
  ∀ p ∈ finished, ∀ m, c.Holds m → m.id = p.1 → Inlined c m p.2

theorem Finished.of_lookup {finished : List (Nat × Tree)} {m : Metric} {t : Tree} (h : Finished c finished) (hm : c.Holds m)
    (hlookup : finished.lookup m.id = some t) : Inlined c m t := by
  obtain ⟨before, after, heq, -⟩ := List.lookup_eq_some_iff.mp hlookup
  exact h (m.id, t) (by rw [heq]; simp) m hm rfl

theorem Finished.append {finished : List (Nat × Tree)} {m : Metric} {t : Tree} (h : Finished c finished) (hm : c.Holds m)
    (ht : Inlined c m t) : Finished c (finished ++ [(m.id, t)]) := by
  intro p hp m' hm' hid
  rcases List.mem_append.mp hp with hp | hp
  · exact h p hp m' hm' hid
  · rw [List.mem_singleton.mp hp] at hid ⊢
    rw [hm'.eq_of_id hm hid]
    exact ht

/-- What expanding a tree keeps. -/
def KeepsTree (c : Catalog) (path : List Nat) (finished : List (Nat × Tree)) (t : Tree) : Prop :=
  Finished c finished → (∀ m ∈ t.leaves, c.Holds m) →
    Finished c (expandTree c path finished t).finished ∧
      ((expandTree c path finished t).failure = none → Inlines c t (expandTree c path finished t).tree)

/-- What expanding a metric keeps. -/
def KeepsMetric (c : Catalog) (path : List Nat) (finished : List (Nat × Tree)) (m : Metric) : Prop :=
  Finished c finished → c.Holds m →
    Finished c (expandMetric c path finished m).finished ∧
      ((expandMetric c path finished m).failure = none → Inlined c m (expandMetric c path finished m).tree)

theorem keeps_expand (hc : c.Numbered) :
    (∀ path finished t, KeepsTree c path finished t) ∧ ∀ path finished m, KeepsMetric c path finished m := by
  apply expandTree.mutual_induct c (KeepsTree c) (KeepsMetric c)
  -- number and accumulate
  · intro path finished n v hfin ht
    rw [expandTree]
    exact ⟨hfin, fun _ => .number⟩
  · intro path finished n m mode hfin ht
    rw [expandTree]
    exact ⟨hfin, fun _ => .accumulate⟩
  -- references
  · intro path finished n m hderived x f hf ih hfin ht
    rw [expandTree]
    simp only [hderived, if_true]
    rw [show (expandMetric c path finished m).failure = some f from hf]
    exact ⟨(ih hfin (ht m List.mem_cons_self)).1, fun h => by cases h⟩
  · intro path finished n m hderived x hx ih hfin ht
    have h := ih hfin (ht m List.mem_cons_self)
    obtain ⟨t, hdefinition, hinlined⟩ := h.2 hx
    rw [expandTree]
    simp only [hderived, if_true]
    rw [show (expandMetric c path finished m).failure = none from hx]
    exact ⟨h.1, fun _ => .derived hderived hdefinition hinlined⟩
  · intro path finished n m hmeasured hfin ht
    rw [expandTree]
    simp only [hmeasured, Bool.false_eq_true, if_false]
    exact ⟨hfin, fun _ => .measured (by simpa using hmeasured)⟩
  -- binary
  · intro path finished n op lhs rhs l f hf ih hfin ht
    rw [expandTree]
    rw [show (expandTree c path finished lhs).failure = some f from hf]
    exact ⟨(ih hfin fun m hm => ht m (List.mem_append_left _ hm)).1, fun h => by cases h⟩
  · intro path finished n op lhs rhs l hf ihl ihr hfin ht
    have hl := ihl hfin fun m hm => ht m (List.mem_append_left _ hm)
    have hr := ihr hl.1 fun m hm => ht m (List.mem_append_right _ hm)
    rw [expandTree]
    rw [show (expandTree c path finished lhs).failure = none from hf]
    exact ⟨hr.1, fun h => .binary (hl.2 hf) (hr.2 h)⟩
  -- reduce and select
  · intro path finished n child op ds ih hfin ht
    have h := ih hfin ht
    rw [expandTree]
    exact ⟨h.1, fun hf => .reduce (h.2 hf)⟩
  · intro path finished n child filters ih hfin ht
    have h := ih hfin ht
    rw [expandTree]
    exact ⟨h.1, fun hf => .select (h.2 hf)⟩
  -- metrics: one that is finished, one met again, and one entered
  · intro path finished m t hlookup hfin hm
    rw [expandMetric]
    simp only [hlookup]
    exact ⟨hfin, fun _ => hfin.of_lookup hm hlookup⟩
  · intro path finished m hlookup hpath hfin hm
    rw [expandMetric]
    simp only [hlookup, hpath, dif_pos]
    exact ⟨hfin, fun h => by cases h⟩
  · intro path finished m hlookup hpath hholds e he hfin hm
    rw [expandMetric]
    simp only [hlookup, hpath, hholds, he, dif_pos]
    exact ⟨hfin, fun h => by cases h⟩
  · intro path finished m hlookup hpath hholds t ht x f hf ih hfin hm
    have h := ih hfin fun y hy => ((ofMetric_ok hc hholds ht).known y hy).1
    rw [expandMetric]
    simp only [hlookup, hpath, hholds, ht, dif_pos]
    rw [show (expandTree c (path ++ [m.id]) finished t).failure = some f from hf]
    exact ⟨h.1, fun h => by cases h⟩
  · intro path finished m hlookup hpath hholds t ht x hf ih hfin hm
    have h := ih hfin fun y hy => ((ofMetric_ok hc hholds ht).known y hy).1
    rw [expandMetric]
    simp only [hlookup, hpath, hholds, ht, dif_pos]
    rw [show (expandTree c (path ++ [m.id]) finished t).failure = none from hf]
    exact ⟨h.1.append hm ⟨t, ht, h.2 hf⟩, fun _ => ⟨t, ht, h.2 hf⟩⟩
  · intro path finished m hlookup hpath hholds hfin hm
    exact absurd hm hholds

end Expander

end PerfCounters
