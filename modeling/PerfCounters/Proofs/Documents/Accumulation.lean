import PerfCounters.Proofs.Documents.Cycles
import PerfCounters.Proofs.Trees.Coverage

/-! The counters that are accumulated. A metric accumulates what its expression does and what is accumulated by the derived
    metrics that it refers to: all calls that are met where its expression is read from left to right and every name of a
    derived metric stands for its definition. An evaluator lists each accumulated metric once, with the mode of the first
    call that is met. -/

namespace PerfCounters

open Relation
open PerfCounters.Parser (bind_eq_ok)

namespace Expr

/-- The calls of `accumulate` in an expression, left to right. -/
def accumulations : Expr → List (String × AccumulateMode)
  | .number _ | .metric _ => []
  | .accumulate name mode => [(name, mode)]
  | .binary _ lhs rhs => lhs.accumulations ++ rhs.accumulations
  | .reduce child _ _ | .select child _ => child.accumulations

end Expr

namespace Catalog

variable {c : Catalog} {architecture : String} {m x : Metric} {e : Expr} {p : Metric × AccumulateMode}
  {calls : List (Metric × AccumulateMode)}

/-- The expression of `m` accumulates this metric in this mode. -/
def Accumulates (c : Catalog) (m : Metric) (p : Metric × AccumulateMode) : Prop :=
  m.isDerived = true ∧ ∃ e, Expr.ofText m.expression = .ok e ∧
    ∃ name, (name, p.2) ∈ e.accumulations ∧ c.byName? m.architecture name = some p.1

/-- The calls that are met where an expression is read from left to right and every name of a derived metric stands for its
    definition. -/
inductive Unfolds (c : Catalog) (architecture : String) : Expr → List (Metric × AccumulateMode) → Prop where
  | number {v} : Unfolds c architecture (.number v) []
  | measured {name m} (h : c.byName? architecture name = some m) (hm : m.isDerived = false) :
      Unfolds c architecture (.metric name) []
  | derived {name m e calls} (h : c.byName? architecture name = some m) (hm : m.isDerived = true)
      (he : Expr.ofText m.expression = .ok e) (definition : Unfolds c architecture e calls) :
      Unfolds c architecture (.metric name) calls
  | accumulate {name mode m} (h : c.byName? architecture name = some m) :
      Unfolds c architecture (.accumulate name mode) [(m, mode)]
  | binary {op lhs rhs calls calls'} (left : Unfolds c architecture lhs calls) (right : Unfolds c architecture rhs calls') :
      Unfolds c architecture (.binary op lhs rhs) (calls ++ calls')
  | reduce {child op ds calls} (reduced : Unfolds c architecture child calls) :
      Unfolds c architecture (.reduce child op ds) calls
  | select {child filters calls} (selected : Unfolds c architecture child calls) :
      Unfolds c architecture (.select child filters) calls

/-- What the expression accumulates itself is met. -/
theorem Unfolds.mem_of_accumulations (h : c.Unfolds architecture e calls) {name : String} {mode : AccumulateMode}
    (hmem : (name, mode) ∈ e.accumulations) (hx : c.byName? architecture name = some x) : (x, mode) ∈ calls := by
  induction h with
  | number | measured | derived => cases hmem
  | accumulate h =>
    cases List.mem_singleton.mp hmem
    rw [h] at hx
    cases hx
    exact List.mem_cons_self
  | binary _ _ ihl ihr =>
    rcases List.mem_append.mp hmem with hmem | hmem
    · exact List.mem_append_left _ (ihl hmem)
    · exact List.mem_append_right _ (ihr hmem)
  | reduce _ ih | select _ ih => exact ih hmem

/-- What is met behind a name that the expression refers to is met. -/
theorem Unfolds.of_reference (h : c.Unfolds architecture e calls) {name : String} (hmem : name ∈ e.references) :
    ∃ inner, c.Unfolds architecture (.metric name) inner ∧ inner ⊆ calls := by
  induction h with
  | number | accumulate => cases hmem
  | measured h hm =>
    cases List.mem_singleton.mp hmem
    exact ⟨_, .measured h hm, List.Subset.refl _⟩
  | derived h hm he definition =>
    cases List.mem_singleton.mp hmem
    exact ⟨_, .derived h hm he definition, List.Subset.refl _⟩
  | binary _ _ ihl ihr =>
    rcases List.mem_append.mp hmem with hmem | hmem
    · obtain ⟨inner, hinner, hsub⟩ := ihl hmem
      exact ⟨inner, hinner, List.subset_append_of_subset_left _ hsub⟩
    · obtain ⟨inner, hinner, hsub⟩ := ihr hmem
      exact ⟨inner, hinner, List.subset_append_of_subset_right _ hsub⟩
  | reduce _ ih | select _ ih => exact ih hmem

/-- Whatever is met is accumulated by the expression itself, or behind a name that it refers to. -/
theorem Unfolds.accumulates_of_mem (hc : c.Numbered) (h : c.Unfolds architecture e calls) (hp : p ∈ calls) :
    (∃ name, (name, p.2) ∈ e.accumulations ∧ c.byName? architecture name = some p.1) ∨
    ∃ name ∈ e.references, ∃ y, c.byName? architecture name = some y ∧
      ∃ x, ReflTransGen c.PointsTo y x ∧ c.Accumulates x p := by
  induction h with
  | number | measured => cases hp
  | accumulate h =>
    cases List.mem_singleton.mp hp
    exact .inl ⟨_, List.mem_cons_self, h⟩
  | @derived _ m e _ h hm he _ ih =>
    obtain ⟨-, rfl, -⟩ := hc.byName?_iff.mp h
    refine .inr ⟨_, List.mem_cons_self, m, h, ?_⟩
    rcases ih hp with hdirect | ⟨name, hname, y, hy, x, hx, haccumulates⟩
    · exact ⟨m, .refl, hm, e, he, hdirect⟩
    · exact ⟨x, .head ⟨hm, e, he, name, hname, hy⟩ hx, haccumulates⟩
  | binary _ _ ihl ihr =>
    simp only [Expr.accumulations, Expr.references, List.mem_append]
    rcases List.mem_append.mp hp with hp | hp
    · rcases ihl hp with ⟨name, hname, h⟩ | ⟨name, hname, h⟩
      · exact .inl ⟨name, .inl hname, h⟩
      · exact .inr ⟨name, .inl hname, h⟩
    · rcases ihr hp with ⟨name, hname, h⟩ | ⟨name, hname, h⟩
      · exact .inl ⟨name, .inr hname, h⟩
      · exact .inr ⟨name, .inr hname, h⟩
  | reduce _ ih | select _ ih => exact ih hp

theorem Unfolds.of_derived (h : c.Unfolds architecture (.metric x.name) calls) (hx : c.byName? architecture x.name = some x)
    (hderived : x.isDerived = true) (he : Expr.ofText x.expression = .ok e) : c.Unfolds architecture e calls := by
  cases h with
  | measured h hm =>
    rw [hx] at h
    cases h
    rw [hderived] at hm
    cases hm
  | derived h _ he' definition =>
    rw [hx] at h
    cases h
    cases he.symm.trans he'
    exact definition

/-- A metric has the calls of all definitions that it leads to. -/
theorem Unfolds.mem_iff (hc : c.Numbered) (hm : c.Holds m) (h : c.Unfolds m.architecture (.metric m.name) calls) :
    p ∈ calls ↔ ∃ x, ReflTransGen c.PointsTo m x ∧ c.Accumulates x p := by
  have hname : c.byName? m.architecture m.name = some m := hc.byName?_iff.mpr ⟨hm, rfl, rfl⟩
  constructor
  · intro hp
    rcases h.accumulates_of_mem hc hp with ⟨_, hnone, -⟩ | ⟨name, hmem, y, hy, hx⟩
    · cases hnone
    · cases List.mem_singleton.mp hmem
      rw [hname] at hy
      cases hy
      exact hx
  · rintro ⟨x, hx, haccumulates⟩
    -- Along the walk to `x`, what is met behind a metric is met behind the one before.
    induction hx using ReflTransGen.head_induction_on generalizing calls with
    | refl =>
      obtain ⟨hderived, e, he, name, hmem, hp⟩ := haccumulates
      exact (h.of_derived hname hderived he).mem_of_accumulations hmem hp
    | @head y z hstep _ ih =>
      obtain ⟨hderived, e, he, name, hmem, hz⟩ := hstep
      obtain ⟨hz', harch, rfl⟩ := hc.byName?_iff.mp hz
      obtain ⟨inner, hinner, hsub⟩ := (h.of_derived hname hderived he).of_reference hmem
      rw [← harch] at hinner hz
      exact hsub (ih hz' hinner hz)

end Catalog

namespace Tree

variable {c : Catalog} {architecture : String} {e : Expr} {t t' : Tree} {p : Metric × AccumulateMode}
  {ps found : List (Metric × AccumulateMode)}

/-- The calls of `accumulate` in a tree, left to right. -/
def accumulations : Tree → List (Metric × AccumulateMode)
  | .number _ _ | .reference _ _ => []
  | .accumulate _ m mode => [(m, mode)]
  | .binary _ _ lhs rhs => lhs.accumulations ++ rhs.accumulations
  | .reduce _ child _ _ | .select _ child _ => child.accumulations

theorem mem_accumulands : m ∈ t.accumulands ↔ ∃ mode, (m, mode) ∈ t.accumulations := by
  induction t with
  | number | reference => simp [accumulands, accumulations]
  | accumulate n x mode => simp [accumulands, accumulations]
  | binary n op lhs rhs ihl ihr => simp only [accumulands, accumulations, List.mem_append, ihl, ihr, exists_or]
  | reduce n child op ds ih | select n child filters ih => exact ih

@[simp] theorem accumulations_withNote (n : Note) (t : Tree) : (t.withNote n).accumulations = t.accumulations := by
  cases t <;> rfl

theorem accumulations_inPlaceOf (n : Note) (t : Tree) : (t.inPlaceOf n).accumulations = t.accumulations := by
  unfold inPlaceOf
  cases n.outId <;> simp

theorem accumulations_infer (c : Catalog) (t : Tree) : (t.infer c).1.accumulations = t.accumulations := by
  induction t with
  | number | reference | accumulate => rfl
  | binary n op lhs rhs ihl ihr =>
    rw [infer]
    split <;> rename_i hl <;> rw [hl] at ihl
    · simpa [accumulations] using ihl
    · split <;> rename_i hr <;> rw [hr] at ihr
      · simp [accumulations, ← ihl, ← ihr]
      · split <;> simp [accumulations, ← ihl, ← ihr]
  | reduce n child op ds ih | select n child filters ih =>
    rw [infer]
    split <;> rename_i h <;> rw [h] at ih <;> exact ih

/-! ### The first calls -/

/-- Lists a call, if its metric is not listed. -/
def enlist (found : List (Metric × AccumulateMode)) (p : Metric × AccumulateMode) : List (Metric × AccumulateMode) :=
  if found.any fun f => f.1.id == p.1.id then found else found ++ [p]

theorem accumulated_eq_foldl (t : Tree) (found : List (Metric × AccumulateMode)) :
    t.accumulated found = t.accumulations.foldl enlist found := by
  induction t generalizing found with
  | number | reference | accumulate => rfl
  | binary n op lhs rhs ihl ihr => rw [accumulated, accumulations, List.foldl_append, ← ihl, ← ihr]
  | reduce n child op ds ih | select n child filters ih => exact ih found

theorem enlist_of_listed (h : p.1.id ∈ found.map fun f => f.1.id) : enlist found p = found := by
  obtain ⟨f, hf, hid⟩ := List.mem_map.mp h
  exact if_pos (List.any_eq_true.mpr ⟨f, hf, by simpa using hid⟩)

theorem enlist_of_not_listed (h : p.1.id ∉ found.map fun f => f.1.id) : enlist found p = found ++ [p] := by
  refine if_neg fun hany => h ?_
  obtain ⟨f, hf, hid⟩ := List.any_eq_true.mp hany
  exact List.mem_map.mpr ⟨f, hf, by simpa using hid⟩

theorem nodup_foldl_enlist (h : (found.map fun f => f.1.id).Nodup) :
    ((ps.foldl enlist found).map fun f => f.1.id).Nodup := by
  induction ps generalizing found with
  | nil => exact h
  | cons q ps ih =>
    refine ih ?_
    by_cases hq : q.1.id ∈ found.map fun f => f.1.id
    · rwa [enlist_of_listed hq]
    · rw [enlist_of_not_listed hq, List.map_append]
      exact List.nodup_append'.mpr ⟨h, List.nodup_singleton _, List.disjoint_singleton.mpr hq⟩

/-- A call is listed if it was, or if its metric was not and it is the first call of its metric. -/
theorem mem_foldl_enlist : p ∈ ps.foldl enlist found ↔
    p ∈ found ∨ (p.1.id ∉ found.map fun f => f.1.id) ∧ ps.find? (fun q => q.1.id == p.1.id) = some p := by
  induction ps generalizing found with
  | nil => simp
  | cons q ps ih =>
    rw [List.foldl_cons, ih, List.find?_cons]
    by_cases hq : q.1.id ∈ found.map fun f => f.1.id
    · rw [enlist_of_listed hq]
      refine or_congr_right (and_congr_right fun hp => ?_)
      have hne : (q.1.id == p.1.id) = false := beq_eq_false_iff_ne.mpr fun heq => hp (heq ▸ hq)
      rw [hne]
    · rw [enlist_of_not_listed hq, List.map_append, List.mem_append, List.mem_append, List.map_singleton,
        List.mem_singleton, List.mem_singleton, or_assoc]
      refine or_congr_right ?_
      by_cases hid : q.1.id = p.1.id
      · have hp : p.1.id ∉ found.map fun f => f.1.id := hid ▸ hq
        simp [hid, hp, eq_comm]
      · have hne : p ≠ q := fun heq => hid (heq ▸ rfl)
        have hbeq : (q.1.id == p.1.id) = false := beq_eq_false_iff_ne.mpr hid
        simp [hbeq, hne, Ne.symm hid]

/-- The first call of its metric. -/
def FirstOf (calls : List (Metric × AccumulateMode)) (p : Metric × AccumulateMode) : Prop :=
  ∃ before after, calls = before ++ p :: after ∧ ∀ q ∈ before, q.1 ≠ p.1

/-- Where metrics are told apart by their numbers, the first call of each metric is listed. -/
theorem accumulated_spec (hids : ∀ q ∈ t.accumulations, ∀ q' ∈ t.accumulations, q.1.id = q'.1.id → q.1 = q'.1) :
    ((t.accumulated []).map Prod.fst).Nodup ∧ ∀ p, p ∈ t.accumulated [] ↔ FirstOf t.accumulations p := by
  rw [accumulated_eq_foldl]
  refine ⟨?_, fun p => ?_⟩
  · refine List.Nodup.of_map Metric.id ?_
    rw [List.map_map]
    exact nodup_foldl_enlist List.nodup_nil
  · rw [mem_foldl_enlist]
    constructor
    · rintro (h | ⟨-, h⟩)
      · cases h
      · obtain ⟨-, before, after, heq, hbefore⟩ := List.find?_eq_some_iff_append.mp h
        exact ⟨before, after, heq, fun q hq heq => by simpa [heq] using hbefore q hq⟩
    · rintro ⟨before, after, heq, hbefore⟩
      refine .inr ⟨List.not_mem_nil, List.find?_eq_some_iff_append.mpr ⟨by simp, before, after, heq, fun q hq => ?_⟩⟩
      have hne : q.1.id ≠ p.1.id := fun hid =>
        hbefore q hq (hids q (by rw [heq]; exact List.mem_append_left _ hq) p (by rw [heq]; simp) hid)
      simpa using hne

/-! ### Calls of a definition -/

/-- What an expression has at the root is what its tree has there. -/
theorem ofExpr_root (h : ofExpr c architecture e = .ok t) : match t with
    | .number _ v => e = .number v
    | .reference _ m => ∃ name, e = .metric name ∧ c.byName? architecture name = some m
    | .accumulate _ m mode => ∃ name, e = .accumulate name mode ∧ c.byName? architecture name = some m
    | .binary _ op l r => ∃ lhs rhs, e = .binary op lhs rhs ∧
        ofExpr c architecture lhs = .ok l ∧ ofExpr c architecture rhs = .ok r
    | .reduce _ s op ds => ∃ child, e = .reduce child op ds ∧ ofExpr c architecture child = .ok s
    | .select _ s filters => ∃ child, e = .select child filters ∧ ofExpr c architecture child = .ok s := by
  cases e with
  | number v =>
    cases h
    rfl
  | metric name | accumulate name mode =>
    obtain ⟨m, hm, h⟩ := bind_eq_ok h
    cases h
    exact ⟨name, rfl, lookUp_eq_ok.mp hm⟩
  | binary op lhs rhs =>
    obtain ⟨l, hl, h⟩ := bind_eq_ok h
    obtain ⟨r, hr, h⟩ := bind_eq_ok h
    cases h
    exact ⟨lhs, rhs, rfl, hl, hr⟩
  | reduce child op ds | select child filters =>
    obtain ⟨s, hs, h⟩ := bind_eq_ok h
    cases h
    exact ⟨child, rfl, hs⟩

/-- The calls that are left in an inlined tree are those that are met in the expression. -/
theorem Inlines.unfolds (hc : c.Numbered) (h : Inlines c t t') (ht : ofExpr c architecture e = .ok t) :
    c.Unfolds architecture e t'.accumulations := by
  induction h generalizing e with
  | number =>
    cases ofExpr_root ht
    exact .number
  | accumulate =>
    obtain ⟨name, rfl, hname⟩ := ofExpr_root ht
    exact .accumulate hname
  | measured hm =>
    obtain ⟨name, rfl, hname⟩ := ofExpr_root ht
    exact .measured hname hm
  | derived hm definition _ ih =>
    obtain ⟨name, rfl, hname⟩ := ofExpr_root ht
    obtain ⟨e, he, hexpr⟩ := ofMetric_derived definition hm
    obtain ⟨-, rfl, -⟩ := hc.byName?_iff.mp hname
    rw [accumulations_inPlaceOf]
    exact .derived hname hm he (ih hexpr)
  | binary _ _ ihl ihr =>
    obtain ⟨lhs, rhs, rfl, hl, hr⟩ := ofExpr_root ht
    exact .binary (ihl hl) (ihr hr)
  | reduce _ ih =>
    obtain ⟨child, rfl, hchild⟩ := ofExpr_root ht
    exact .reduce (ih hchild)
  | select _ ih =>
    obtain ⟨child, rfl, hchild⟩ := ofExpr_root ht
    exact .select (ih hchild)

end Tree

namespace Evaluator

open PerfCounters.Tree

variable {c : Catalog} {architecture : String} {e : Evaluator} {m : Metric} {t : Tree}

/-- The calls that are left in the tree of a metric are those that are met behind its name. -/
theorem TreeOf.unfolds (hc : c.Numbered) (hm : c.Holds m) (h : TreeOf c m t) :
    c.Unfolds m.architecture (.metric m.name) t.accumulations := by
  obtain ⟨t', tagged, l, ⟨definition, hdefinition, hinlines⟩, hset, hinfer⟩ := h.inlined
  have hcalls : t.accumulations = t'.accumulations := by
    rw [show t = (tagged.infer c).1 by rw [hinfer], accumulations_infer, (setOutId_ok hset).2, accumulations_withNote]
  have hname : c.byName? m.architecture m.name = some m := hc.byName?_iff.mpr ⟨hm, rfl, rfl⟩
  rw [hcalls]
  cases hderived : m.isDerived with
  | false =>
    rw [hinlines.of_measured hderived hdefinition]
    exact .measured hname hderived
  | true =>
    obtain ⟨e, he, hexpr⟩ := ofMetric_derived hdefinition hderived
    exact .derived hname hderived he (hinlines.unfolds hc hexpr)

/-- Where every accumulated metric is measured, nothing that is read leads on, and what is required can be told. -/
theorem exists_required (hc : c.Numbered) (he : ofCatalog c architecture = .ok e) (hm : c.Holds m)
    (harch : m.architecture = architecture) (htree : TreeOf c m t) (hmeasured : ∀ x ∈ t.accumulands, x.isDerived = false) :
    ∃ ms, e.required m.name = .ok ms := by
  have hleaves : ∀ z ∈ t.leaves, Acc (fun x y => c.Reads y x) z := by
    intro z hz
    have hnot : z.isDerived = false := (mem_leaves.mp hz).elim (htree.flat.measured z) (hmeasured z)
    exact ⟨_, fun x hx => by simp [hx.1] at hnot⟩
  refine (required_iff_acyclic hc he hm harch).1.mpr fun x hx => ?_
  exact not_transGen_of_acc (acc_of_reflTransGen ((htree.stands hc).acc hleaves) hx)

/-- In a document that was loaded, a metric accumulates what the definitions that it leads to accumulate, each counter
    once, in the mode of the first call that is met. The measured ones among them are required where what is required
    can be told, and it can if all are measured. -/
theorem accumulated_of_loaded {text : String} (hc : Catalog.ofText text = .ok c) (harch : architecture ∈ c.architectures) :
    ∃ e, ofCatalog c architecture = .ok e ∧ ∀ m, c.Holds m → m.architecture = architecture →
      ∃ calls acc, c.Unfolds architecture (.metric m.name) calls ∧
        (∀ p, p ∈ calls ↔ ∃ x, ReflTransGen c.PointsTo m x ∧ c.Accumulates x p) ∧
        e.accumulated m.name = .ok acc ∧ (acc.map Prod.fst).Nodup ∧ (∀ p, p ∈ acc ↔ FirstOf calls p) ∧
        (∀ p ∈ calls, ∃ mode, (p.1, mode) ∈ acc) ∧
        (∀ ms, e.required m.name = .ok ms → ∀ p ∈ acc, p.1.isDerived = false → p.1 ∈ ms) ∧
        ((∀ p ∈ acc, p.1.isDerived = false) → ∃ ms, e.required m.name = .ok ms) := by
  obtain ⟨hsound, hevaluators⟩ := Catalog.ofText_ok hc
  obtain ⟨e, he⟩ := hevaluators architecture harch
  have hnumbered := hsound.built.numbered
  refine ⟨e, he, fun m hm hm' => ?_⟩
  subst hm'
  obtain ⟨t, ht, htree⟩ := tree_of_holds hnumbered he hm rfl
  have hunfolds := htree.unfolds hnumbered hm
  have hmem : ∀ q ∈ t.accumulations, q.1 ∈ t.accumulands := fun q hq => mem_accumulands.mpr ⟨q.2, hq⟩
  have hholds : ∀ q ∈ t.accumulations, c.Holds q.1 := fun q hq =>
    (htree.flat.known q.1 (mem_leaves.mpr (.inr (hmem q hq)))).1
  obtain ⟨hnodup, hfirst⟩ := accumulated_spec fun q hq q' hq' hid => (hholds q hq).eq_of_id (hholds q' hq') hid
  have hlisted : ∀ p ∈ t.accumulations, ∃ mode, (p.1, mode) ∈ t.accumulated [] := by
    intro p hp
    obtain ⟨q, hq, hid⟩ := exists_accumulated (hmem p hp) []
    obtain ⟨before, after, heq, -⟩ := (hfirst q).mp hq
    have hq' : q ∈ t.accumulations := by rw [heq]; simp
    exact ⟨q.2, (hholds q hq').eq_of_id (hholds p hp) hid ▸ hq⟩
  refine ⟨t.accumulations, t.accumulated [], hunfolds, fun p => hunfolds.mem_iff hnumbered hm, by rw [accumulated, ht]; rfl,
    hnodup, hfirst, hlisted, fun ms hms p hp hmeasured => ?_, fun hmeasured => ?_⟩
  · obtain ⟨x, t', harch', ht', -, -, hcomplete⟩ := required_ok hnumbered he hms
    cases ht.symm.trans ht'
    exact hcomplete p.1 ((mem_accumulated hp).resolve_left List.not_mem_nil) hmeasured
  · refine exists_required hnumbered he hm rfl htree fun x hx => ?_
    obtain ⟨mode, hx⟩ := mem_accumulands.mp hx
    obtain ⟨mode', hlisted⟩ := hlisted _ hx
    exact hmeasured _ hlisted

namespace TwoModes

/-- A counter that one metric accumulates in one mode, and a metric that accumulates it in another and refers to the
    first. -/
def text : String :=
  "metrics: [\x7bname: A, architectures: \x7bg: \x7bblock: S\x7d\x7d\x7d, " ++
    "\x7bname: D, architectures: \x7bg: \x7bexpression: 'accumulate(A, LOW_RES)'\x7d\x7d\x7d, " ++
    "\x7bname: E, architectures: \x7bg: \x7bexpression: 'accumulate(A, HIGH_RES) + D'\x7d\x7d\x7d]"

def document : DefinitionDocument where
  blocks := []
  metrics := [⟨"A", "", [("g", { block := "S" })]⟩, ⟨"D", "", [("g", { expression := "accumulate(A, LOW_RES)" })]⟩,
    ⟨"E", "", [("g", { expression := "accumulate(A, HIGH_RES) + D" })]⟩]

def a : Metric := { name := "A", architecture := "g", block := "S", id := 1 }

def d : Metric := { name := "D", architecture := "g", expression := "accumulate(A, LOW_RES)", id := 2 }

def both : Metric := { name := "E", architecture := "g", expression := "accumulate(A, HIGH_RES) + D", id := 3 }

set_option maxRecDepth 20000 in
theorem ofText?_text : DefinitionDocument.ofText? text = some document := by
  unfold DefinitionDocument.ofText? Yaml.Document.ofText? Yaml.Token.ofText? Yaml.Glyph.ofText? text
  simp only [String.toList_append, String.reduceToList]
  decide +kernel

theorem eval_document : (do
    let c ← document.catalog
    return (c.occurring, c.byId? 3, c.byName? "g" "A", c.byName? "g" "D", do
      let e ← ofCatalog c "g"
      return (← e.required "E", ← e.accumulated "E"))) =
    .ok (["g"], some both, some a, some d, .ok ([a], [(a, .highRes)])) := by
  rw [DefinitionDocument.catalog_eq]
  cbv

theorem ofText_text : ∃ c e, Catalog.ofText text = .ok c ∧ "g" ∈ c.architectures ∧ c.Holds both ∧
    c.PointsTo both d ∧ c.Accumulates d (a, .lowRes) ∧ ofCatalog c "g" = .ok e ∧
    e.required "E" = .ok [a] ∧ e.accumulated "E" = .ok [(a, .highRes)] := by
  obtain ⟨c, hc, h⟩ := bind_eq_ok eval_document
  obtain ⟨harchs, h⟩ := Prod.mk.inj (Except.ok.inj h)
  obtain ⟨hboth, h⟩ := Prod.mk.inj h
  obtain ⟨ha, h⟩ := Prod.mk.inj h
  obtain ⟨hd, h⟩ := Prod.mk.inj h
  obtain ⟨e, he, h⟩ := bind_eq_ok h
  obtain ⟨ms, hms, h⟩ := bind_eq_ok h
  obtain ⟨acc, hacc, h⟩ := bind_eq_ok h
  cases h
  have hsum : Expr.ofText both.expression = .ok (.binary .add (.accumulate "A" .highRes) (.metric "D")) := by cbv
  have hcall : Expr.ofText d.expression = .ok (.accumulate "A" .lowRes) := by cbv
  have harch : "g" ∈ c.architectures := by
    rw [DefinitionDocument.architectures_of_catalog hc, harchs]
    exact List.mem_cons_self
  exact ⟨c, e, (Catalog.ofText_of_document ofText?_text).trans hc, harch, hboth,
    ⟨by decide, _, hsum, "D", List.mem_cons_self, hd⟩, ⟨by decide, _, hcall, "A", List.mem_cons_self, ha⟩, he, hms, hacc⟩

/-- The mode of the second call that is met is not listed. -/
theorem lowRes_not_listed : ∃ c e acc, Catalog.ofText text = .ok c ∧ "g" ∈ c.architectures ∧ c.Holds both ∧
    ofCatalog c "g" = .ok e ∧ c.PointsTo both d ∧ c.Accumulates d (a, .lowRes) ∧ e.accumulated "E" = .ok acc ∧
    (a, .lowRes) ∉ acc := by
  obtain ⟨c, e, htext, harch, hboth, hpoints, haccumulates, he, -, hacc⟩ := ofText_text
  exact ⟨c, e, _, htext, harch, hboth, he, hpoints, haccumulates, hacc, by decide⟩

theorem accumulates_first_mode : ∃ c e calls, Catalog.ofText text = .ok c ∧ "g" ∈ c.architectures ∧ c.Holds both ∧
    ofCatalog c "g" = .ok e ∧ c.Unfolds "g" (.metric "E") calls ∧ (a, .lowRes) ∈ calls ∧
    FirstOf calls (a, .highRes) ∧ e.accumulated "E" = .ok [(a, .highRes)] ∧ ∃ ms, e.required "E" = .ok ms ∧ a ∈ ms := by
  obtain ⟨c, e, htext, harch, hboth, hpoints, haccumulates, he, hms, hacc⟩ := ofText_text
  obtain ⟨e', he', h⟩ := accumulated_of_loaded htext harch
  cases he.symm.trans he'
  obtain ⟨calls, acc, hunfolds, hcalls, hacc', -, hfirst, -, hrequired, -⟩ := h both hboth rfl
  cases hacc.symm.trans hacc'
  exact ⟨c, e, calls, htext, harch, hboth, he, hunfolds, (hcalls _).mpr ⟨d, .single hpoints, haccumulates⟩,
    (hfirst _).mp List.mem_cons_self, hacc, _, hms, hrequired _ hms _ List.mem_cons_self (by decide)⟩

end TwoModes

end Evaluator

end PerfCounters
