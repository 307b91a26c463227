import PerfCounters.Proofs.Trees.Following
import PerfCounters.Proofs.Trees.Inference

/-! What a metric requires, told from any of its trees: from that of its definition, from that in which the definitions it
    refers to are inlined, and from that of an evaluator. -/

namespace PerfCounters

open Relation

namespace Catalog

/-- The expression of `m` names `x`, be it to refer to it or to accumulate it. -/
def Mentions (c : Catalog) (m x : Metric) : Prop := m.isDerived = true ∧ ∃ e, Expr.ofText m.expression = .ok e ∧
  ∃ name ∈ e.names, c.byName? m.architecture name = some x

/-- Every definition that `m` leads to in this way resolves, its own among them. -/
def ResolvesThrough (c : Catalog) (m : Metric) : Prop := ∀ x, ReflTransGen c.Mentions m x → c.Resolves x

end Catalog

namespace Expr

theorem mem_names_of_mem_references {e : Expr} {name : String} (h : name ∈ e.references) : name ∈ e.names := by
  induction e with
  | number | metric => exact h
  | accumulate => cases h
  | binary op lhs rhs ihl ihr => exact List.mem_append.mpr ((List.mem_append.mp h).imp ihl ihr)
  | reduce child op ds ih | select child filters ih => exact ih h

end Expr

namespace Tree

variable {c : Catalog} {m x y : Metric} {t t' : Tree}

theorem mentions_iff_reads (h : ofMetric c m = .ok t) : c.Mentions m x ↔ c.Reads m x := by
  unfold Catalog.Mentions Catalog.Reads
  refine and_congr_right fun hderived => ?_
  obtain ⟨e, he, hexpr⟩ := ofMetric_derived h hderived
  simp [h, he, (ofExpr_names hexpr).1]

theorem mentions_of_reads (h : c.Reads m x) : c.Mentions m x := by
  obtain ⟨hderived, t, ht, hx⟩ := h
  exact (mentions_iff_reads ht).mpr ⟨hderived, t, ht, hx⟩

theorem mentions_of_pointsTo (h : c.PointsTo m x) : c.Mentions m x := by
  obtain ⟨hderived, e, he, name, hname, hfound⟩ := h
  exact ⟨hderived, e, he, name, Expr.mem_names_of_mem_references hname, hfound⟩

section ResolvesThrough

variable (hall : c.ResolvesThrough m)
include hall

/-- Where definitions resolve, it makes no difference whether they are taken as expressions or as trees. -/
theorem reads_of_mentions (hx : ReflTransGen c.Mentions m x) (h : c.Mentions x y) : c.Reads x y := by
  obtain ⟨t, ht⟩ := resolves_iff.mp (hall x hx)
  exact (mentions_iff_reads ht).mp h

theorem behind_iff : ReflTransGen c.Mentions m x ↔ ReflTransGen c.Reads m x := by
  refine ⟨fun h => ?_, fun h => h.lift id fun _ _ => mentions_of_reads⟩
  induction h with
  | refl => exact .refl
  | tail hx hstep ih => exact ih.tail (reads_of_mentions hall hx hstep)

theorem leads_iff (hx : ReflTransGen c.Mentions m x) : TransGen c.Mentions x y ↔ TransGen c.Reads x y := by
  refine ⟨fun h => ?_, fun h => h.lift id fun _ _ => mentions_of_reads⟩
  induction h with
  | single hstep => exact .single (reads_of_mentions hall hx hstep)
  | tail hxy hstep ih => exact ih.tail (reads_of_mentions hall (hx.trans hxy.to_reflTransGen) hstep)

end ResolvesThrough

/-! ### Behind inlined definitions -/

theorem leaves_inPlaceOf (n : Note) (t : Tree) : (t.inPlaceOf n).leaves = t.leaves := by
  unfold inPlaceOf
  cases n.outId <;> simp

/-- Reading comes to an end if it does behind the inlined definitions. -/
theorem Inlines.acc_reads (h : Inlines c t t') (hleaves : ∀ y ∈ t'.leaves, Acc (fun x y => c.Reads y x) y) :
    ∀ y ∈ t.leaves, Acc (fun x y => c.Reads y x) y := by
  induction h with
  | number | accumulate | measured => exact hleaves
  | derived _ definition _ ih =>
    intro y hy
    rw [List.mem_singleton.mp hy]
    refine ⟨_, fun x ⟨_, t, ht, hx⟩ => ?_⟩
    cases definition.symm.trans ht
    exact ih (by rwa [leaves_inPlaceOf] at hleaves) x hx
  | binary _ _ ihl ihr =>
    intro y hy
    rcases List.mem_append.mp hy with hy | hy
    · exact ihl (fun z hz => hleaves z (List.mem_append_left _ hz)) y hy
    · exact ihr (fun z hz => hleaves z (List.mem_append_right _ hz)) y hy
  | reduce _ ih | select _ ih => exact ih hleaves

/-- Whatever the inlined tree names is read. -/
theorem Inlines.exists_reads (h : Inlines c t t') : ∀ z ∈ t'.leaves, ∃ y ∈ t.leaves, ReflTransGen c.Reads y z := by
  induction h with
  | number | accumulate | measured => exact fun z hz => ⟨z, hz, .refl⟩
  | derived hderived definition _ ih =>
    intro z hz
    rw [leaves_inPlaceOf] at hz
    obtain ⟨y, hy, hyz⟩ := ih z hz
    exact ⟨_, List.mem_cons_self, ReflTransGen.head ⟨hderived, _, definition, hy⟩ hyz⟩
  | binary _ _ ihl ihr =>
    intro z hz
    rcases List.mem_append.mp hz with hz | hz
    · obtain ⟨y, hy, hyz⟩ := ihl z hz
      exact ⟨y, List.mem_append_left _ hy, hyz⟩
    · obtain ⟨y, hy, hyz⟩ := ihr z hz
      exact ⟨y, List.mem_append_right _ hy, hyz⟩
  | reduce _ ih | select _ ih => exact ih

/-- Whatever measured metric is read is read behind the inlined tree. -/
theorem Inlines.exists_leaf (h : Inlines c t t') (hx : x.isDerived = false) :
    ∀ y ∈ t.leaves, ReflTransGen c.Reads y x → ∃ z ∈ t'.leaves, ReflTransGen c.Reads z x := by
  induction h with
  | number | accumulate | measured => exact fun y hy hyx => ⟨y, hy, hyx⟩
  | derived hderived definition _ ih =>
    intro y hy hyx
    rw [List.mem_singleton.mp hy] at hyx
    obtain ⟨z, hz, hzx⟩ := exists_leaf_of_reads hderived definition hx hyx
    rw [leaves_inPlaceOf]
    exact ih z hz hzx
  | binary _ _ ihl ihr =>
    intro y hy hyx
    rcases List.mem_append.mp hy with hy | hy
    · obtain ⟨z, hz, hzx⟩ := ihl y hy hyx
      exact ⟨z, List.mem_append_left _ hz, hzx⟩
    · obtain ⟨z, hz, hzx⟩ := ihr y hy hyx
      exact ⟨z, List.mem_append_right _ hz, hzx⟩
  | reduce _ ih | select _ ih => exact ih

/-! ### The trees of a metric -/

/-- To follow the metrics that the tree names comes to the same as to follow `m`. -/
structure Stands (c : Catalog) (m : Metric) (t : Tree) : Prop where
  known : ∀ y ∈ t.leaves, y.isDerived = true → c.Holds y ∧ y.architecture = m.architecture
  reads : ∀ y ∈ t.leaves, ReflTransGen c.Reads m y
  exists_leaf : ∀ x, x.isDerived = false → ReflTransGen c.Reads m x → ∃ y ∈ t.leaves, ReflTransGen c.Reads y x
  acc : (∀ y ∈ t.leaves, Acc (fun x y => c.Reads y x) y) → Acc (fun x y => c.Reads y x) m

theorem stands_ofMetric (hc : c.Numbered) (h : ofMetric c m = .ok t) : Stands c m t := by
  cases hm : m.isDerived with
  | false =>
    cases (ofMetric_measured hm).symm.trans h
    refine ⟨fun y hy hderived => ?_, fun y hy => ?_, fun x _ hx => ⟨m, List.mem_cons_self, hx⟩,
      fun hacc => hacc m List.mem_cons_self⟩
    · rw [List.mem_singleton.mp hy, hm] at hderived
      cases hderived
    · rw [List.mem_singleton.mp hy]
  | true =>
    refine ⟨fun y hy _ => known_of_leaf hc hm h hy, fun y hy => .single ⟨hm, t, h, hy⟩,
      fun x hx hmx => exists_leaf_of_reads hm h hx hmx, fun hacc => ⟨_, fun x hx => ?_⟩⟩
    obtain ⟨-, t', ht', hx⟩ := hx
    cases h.symm.trans ht'
    exact hacc x hx

/-- It still does when definitions are inlined. -/
theorem Stands.inlines (hc : c.Numbered) (h : Stands c m t) (hinlines : Inlines c t t') : Stands c m t' where
  known z hz hderived := by
    obtain ⟨y, hy, hyz⟩ := hinlines.exists_reads z hz
    rcases (known_of_reads hc hyz).2 with rfl | hholds
    · exact h.known z hy hderived
    · exact ⟨hholds, (known_of_reads hc ((h.reads y hy).trans hyz)).1⟩
  reads z hz := by
    obtain ⟨y, hy, hyz⟩ := hinlines.exists_reads z hz
    exact (h.reads y hy).trans hyz
  exists_leaf x hx hmx := by
    obtain ⟨y, hy, hyx⟩ := h.exists_leaf x hx hmx
    exact hinlines.exists_leaf hx y hy hyx
  acc hleaves := h.acc (hinlines.acc_reads hleaves)

theorem Stands.of_leaves (h : Stands c m t) (hleaves : t'.leaves = t.leaves) : Stands c m t' where
  known := hleaves ▸ h.known
  reads := hleaves ▸ h.reads
  exists_leaf := hleaves ▸ h.exists_leaf
  acc := hleaves ▸ h.acc

theorem Stands.follows (hc : c.Numbered) (h : Stands c m t) : Follows c [] t.leaves [] (t.required c) :=
  (follows_collect hc).1 [] t [] fun y hy hderived => (h.known y hy hderived).1

/-- Where every definition behind a metric has a tree, only a cycle behind it stops its trees from being followed. -/
theorem Stands.ends (hc : c.Numbered) (h : Stands c m t)
    (hdefined : ∀ x, ReflTransGen c.Reads m x → ∃ t, ofMetric c x = .ok t) :
    Ends c t.leaves (t.required c).2 := by
  have hahead : Ahead c m.architecture [] t.leaves :=
    ⟨h.known, fun z hz x hzx => hdefined x ((h.reads z hz).trans hzx), fun name hname => (by cases hname)⟩
  exact (h.follows hc).ends hc hahead

/-- Without a cycle it ends with the measured metrics behind it. -/
theorem Stands.required_of_acyclic (hc : c.Numbered) (h : Stands c m t)
    (hdefined : ∀ x, ReflTransGen c.Reads m x → ∃ t, ofMetric c x = .ok t)
    (hacyclic : ∀ x, ReflTransGen c.Reads m x → ¬ TransGen c.Reads x x) :
    ∃ ms, t.required c = (ms, none) ∧ Metric.Ascending ms ∧
      ∀ x, x ∈ ms ↔ ReflTransGen c.Reads m x ∧ x.isDerived = false := by
  have hfollows := h.follows hc
  have hends := h.ends hc hdefined
  rcases hresult : t.required c with ⟨ms, _ | failure⟩
  · rw [hresult] at hfollows
    have hreached : ∀ x ∈ ms, ReflTransGen c.Reads m x ∧ x.isDerived = false := by
      intro x hx
      obtain ⟨hmeasured, z, hz, hzx⟩ := (hfollows.reached hx).resolve_left List.not_mem_nil
      exact ⟨(h.reads z hz).trans hzx, hmeasured⟩
    refine ⟨ms, rfl, hfollows.ascending List.Pairwise.nil, fun x => ⟨hreached x, fun ⟨hmx, hx⟩ => ?_⟩⟩
    obtain ⟨z, hz, hzx⟩ := h.exists_leaf x hx hmx
    obtain ⟨y, hy, hid⟩ := hfollows.complete rfl hx z hz hzx
    obtain ⟨hmy, hy'⟩ := hreached y hy
    exact eq_of_reads hc hmy hmx hy' hx hid ▸ hy
  · rw [hresult] at hends
    obtain ⟨-, z, hz, x, hzx, hx⟩ := hends
    exact absurd hx (hacyclic x ((h.reads z hz).trans hzx))

/-- With a cycle it ends because of one. -/
theorem Stands.required_of_cycle (hc : c.Numbered) (h : Stands c m t)
    (hdefined : ∀ x, ReflTransGen c.Reads m x → ∃ t, ofMetric c x = .ok t) (hmx : ReflTransGen c.Reads m x)
    (hx : TransGen c.Reads x x) :
    ∃ found names name, t.required c = (found, some (.cyclicDefinition (names ++ [name]))) ∧ name ∈ names := by
  have hends := h.ends hc hdefined
  rcases hresult : t.required c with ⟨found, _ | failure⟩
  · rw [hresult] at hends
    exact absurd hx (not_transGen_of_acc (acc_of_reflTransGen (h.acc hends) hmx))
  · rw [hresult] at hends
    obtain ⟨⟨names, name, rfl, hname⟩, -⟩ := hends
    exact ⟨found, names, name, rfl, hname⟩

end Tree

open PerfCounters.Tree PerfCounters.Expander

namespace Evaluator

theorem TreeOf.stands {c : Catalog} {m : Metric} {t : Tree} (hc : c.Numbered) (h : TreeOf c m t) : Stands c m t := by
  obtain ⟨t', tagged, l, ⟨definition, hdefinition, hinlines⟩, hset, hinfer⟩ := h.inlined
  have hleaves : t.leaves = t'.leaves := by
    rw [(infer_ok hinfer).leaves, (setOutId_ok hset).2, leaves_withNote]
  exact ((stands_ofMetric hc hdefinition).inlines hc hinlines).of_leaves hleaves

end Evaluator

namespace Catalog

/-- The trees that a metric has: that of its definition, those that come of expanding it or that tree, and that of an
    evaluator. -/
inductive TreeFor (c : Catalog) (m : Metric) : Tree → Prop where
  | definition {t} (h : ofMetric c m = .ok t) : TreeFor c m t
  | expanded {x t} (hm : c.Holds m) (hx : Grown c x) (h : (x.expanded c m).2 = .ok t) : TreeFor c m t
  | replaced {x x' t t'} (hm : c.Holds m) (hx : Grown c x) (definition : ofMetric c m = .ok t)
      (h : x.expand c t = (x', t', none)) : TreeFor c m t'
  | evaluator {e t} (hm : c.Holds m) (he : Evaluator.ofCatalog c m.architecture = .ok e) (h : e.tree m.name = .ok t) :
      TreeFor c m t

variable {c : Catalog} {m : Metric} {t : Tree}

theorem TreeFor.stands (hc : c.Numbered) (h : c.TreeFor m t) : Stands c m t := by
  cases h with
  | definition h => exact stands_ofMetric hc h
  | expanded hm hx h =>
    obtain ⟨definition, hdefinition, hinlines⟩ := hx.expanded_ok hc hm h
    exact (stands_ofMetric hc hdefinition).inlines hc hinlines
  | replaced hm hx definition h =>
    have hholds := fun y hy => ((ofMetric_ok hc hm definition).known y hy).1
    exact (stands_ofMetric hc definition).inlines hc (hx.expand_ok hc hholds h)
  | evaluator hm he h =>
    obtain ⟨t', ht', htree⟩ := Evaluator.tree_of_holds hc he hm rfl
    cases h.symm.trans ht'
    exact htree.stands hc

/-- Whichever of its trees it is told from, to find what a metric requires comes to an end. Where every definition that
    it leads to resolves, those that are only accumulated among them, there is such a tree, and what it ends with does
    not depend on the tree: with the measured metrics that the metric leads to, by number, each once, or, if one of the
    definitions leads back to itself, with a cycle. -/
theorem required_metrics_or_cycle (hc : c.Built) (m : Metric) :
    (∀ t, c.TreeFor m t → ∀ r, Follows c [] t.leaves [] r ↔ r = t.required c) ∧
    (c.ResolvesThrough m → (∃ t, ofMetric c m = .ok t) ∧
      ((∀ x, ReflTransGen c.Mentions m x → ¬ TransGen c.Mentions x x) →
        (c.Holds m → ∀ x, Grown c x → ∃ t, (x.expanded c m).2 = .ok t) ∧
        ∃ ms, Metric.Ascending ms ∧ (∀ x, x ∈ ms ↔ ReflTransGen c.Mentions m x ∧ x.isDerived = false) ∧
          ∀ t, c.TreeFor m t → t.required c = (ms, none)) ∧
      ((∃ x, ReflTransGen c.Mentions m x ∧ TransGen c.Mentions x x) → ∀ t, c.TreeFor m t →
        ∃ found names name, t.required c = (found, some (.cyclicDefinition (names ++ [name]))) ∧ name ∈ names)) := by
  have hnumbered := hc.numbered
  refine ⟨fun t ht r => ?_, fun hall => ?_⟩
  · exact follows_iff hnumbered fun y hy hderived => ((ht.stands hnumbered).known y hy hderived).1
  have hdefined : ∀ x, ReflTransGen c.Reads m x → ∃ t, ofMetric c x = .ok t := fun x hx =>
    resolves_iff.mp (hall x ((behind_iff hall).mpr hx))
  obtain ⟨definition, hdefinition⟩ := hdefined m .refl
  refine ⟨⟨definition, hdefinition⟩, fun hacyclic => ⟨fun hm x hx => ?_, ?_⟩, fun ⟨x, hmx, hcycle⟩ t ht => ?_⟩
  · refine (hx.expanded_iff hnumbered hm).mpr ⟨fun y hy => ?_, fun y hy hcycle => ?_⟩
    · exact hall y (hy.lift id fun _ _ => mentions_of_pointsTo)
    · exact hacyclic y (hy.lift id fun _ _ => mentions_of_pointsTo) (hcycle.lift id fun _ _ => mentions_of_pointsTo)
  · have hacyclic' : ∀ x, ReflTransGen c.Reads m x → ¬ TransGen c.Reads x x := by
      intro x hx
      have hmx := (behind_iff hall).mpr hx
      rw [← leads_iff hall hmx]
      exact hacyclic x hmx
    obtain ⟨ms, -, hascending, hms⟩ :=
      (stands_ofMetric hnumbered hdefinition).required_of_acyclic hnumbered hdefined hacyclic'
    refine ⟨ms, hascending, fun x => by rw [behind_iff hall]; exact hms x, fun t ht => ?_⟩
    obtain ⟨ms', hrequired, hascending', hms'⟩ :=
      (ht.stands hnumbered).required_of_acyclic hnumbered hdefined hacyclic'
    rw [hrequired, hascending.eq_of_mem_iff hascending' fun x => (hms x).trans (hms' x).symm]
  · exact (ht.stands hnumbered).required_of_cycle hnumbered hdefined ((behind_iff hall).mp hmx)
      ((leads_iff hall hmx).mp hcycle)

/-- A counter `A`, a metric `D` that accumulates it as well, a metric `E` made of `D`, and one that accumulates itself. -/
def accumulating : Catalog :=
  (empty.registerAll [{ name := "A", architecture := "g", block := "S" },
    { name := "D", architecture := "g", expression := "accumulate(A, LOW_RES) + A" },
    { name := "E", architecture := "g", expression := "D * D" },
    { name := "X", architecture := "g", expression := "D + accumulate(X, HIGH_RES)" }]).1

namespace Accumulating

def a : Metric := { name := "A", architecture := "g", block := "S", id := 1 }

def d : Metric := { name := "D", architecture := "g", expression := "accumulate(A, LOW_RES) + A", id := 2 }

def e : Metric := { name := "E", architecture := "g", expression := "D * D", id := 3 }

def x : Metric := { name := "X", architecture := "g", expression := "D + accumulate(X, HIGH_RES)", id := 4 }

theorem ofMetric_d : ofMetric accumulating d = .ok (.binary {} .add (.accumulate {} a .lowRes) (.reference {} a)) := by cbv

theorem ofMetric_e : ofMetric accumulating e = .ok (.binary {} .mul (.reference {} d) (.reference {} d)) := by cbv

theorem ofMetric_x : ofMetric accumulating x = .ok (.binary {} .add (.reference {} d) (.accumulate {} x .highRes)) := by cbv

theorem mentions_d {y : Metric} : accumulating.Mentions d y ↔ y = a := by
  rw [mentions_iff_reads ofMetric_d]
  simp [Reads, ofMetric_d, leaves, show d.isDerived = true by decide]

theorem mentions_e {y : Metric} : accumulating.Mentions e y ↔ y = d := by
  rw [mentions_iff_reads ofMetric_e]
  simp [Reads, ofMetric_e, leaves, show e.isDerived = true by decide]

theorem mentions_x {y : Metric} : accumulating.Mentions x y ↔ y = d ∨ y = x := by
  rw [mentions_iff_reads ofMetric_x]
  simp [Reads, ofMetric_x, leaves, show x.isDerived = true by decide]

/-- The definitions lead to these metrics only. -/
theorem behind {m y : Metric} (hm : m ∈ [a, d, e, x]) (h : ReflTransGen accumulating.Mentions m y) : y ∈ [a, d, e, x] := by
  induction h with
  | refl => exact hm
  | @tail z y _ hstep ih =>
    simp only [List.mem_cons, List.not_mem_nil, or_false] at ih ⊢
    rcases ih with rfl | rfl | rfl | rfl
    · exact absurd hstep.1 (by decide)
    · exact .inl (mentions_d.mp hstep)
    · exact .inr (.inl (mentions_e.mp hstep))
    · rcases mentions_x.mp hstep with rfl | rfl <;> simp

theorem resolvesThrough {m : Metric} (hm : m ∈ [a, d, e, x]) : accumulating.ResolvesThrough m := by
  intro y hy
  have hmem := behind hm hy
  simp only [List.mem_cons, List.not_mem_nil, or_false] at hmem
  rcases hmem with rfl | rfl | rfl | rfl
  · exact fun hderived => absurd hderived (by decide)
  · exact resolves_iff.mpr ⟨_, ofMetric_d⟩
  · exact resolves_iff.mpr ⟨_, ofMetric_e⟩
  · exact resolves_iff.mpr ⟨_, ofMetric_x⟩

theorem acc_e : Acc (fun y z => accumulating.Mentions z y) e := by
  have ha : Acc (fun y z => accumulating.Mentions z y) a := ⟨_, fun y hy => absurd hy.1 (by decide)⟩
  have hd : Acc (fun y z => accumulating.Mentions z y) d := ⟨_, fun y hy => mentions_d.mp hy ▸ ha⟩
  exact ⟨_, fun y hy => mentions_e.mp hy ▸ hd⟩

theorem measured_behind_e (y : Metric) : y ∈ [a] ↔ ReflTransGen accumulating.Mentions e y ∧ y.isDerived = false := by
  refine ⟨fun hy => ?_, fun ⟨hy, hmeasured⟩ => ?_⟩
  · rw [List.mem_singleton.mp hy]
    exact ⟨.head (mentions_e.mpr rfl) (.single (mentions_d.mpr rfl)), by decide⟩
  · have hmem := behind (by simp) hy
    simp only [List.mem_cons, List.not_mem_nil, or_false] at hmem ⊢
    rcases hmem with rfl | rfl | rfl | rfl
    · rfl
    all_goals exact absurd hmeasured (by decide)

theorem required_accumulating : ∃ inlined, accumulating.Built ∧ accumulating.Holds e ∧
    (({} : Expander).expanded accumulating e).2 = .ok inlined ∧ inlined.required accumulating = ([a], none) ∧
    ∃ t, ofMetric accumulating e = .ok t ∧ t.required accumulating = ([a], none) ∧
    ∃ s, ofMetric accumulating x = .ok s ∧ Follows accumulating [] s.leaves [] (s.required accumulating) ∧
    ∃ found names name, s.required accumulating = (found, some (.cyclicDefinition (names ++ [name]))) ∧ name ∈ names := by
  have hbuilt : accumulating.Built := Built.empty.registerAll _
  have he : accumulating.Holds e := by
    show accumulating.byId? 3 = some e
    cbv
  have hcycle : TransGen accumulating.Mentions x x := .single (mentions_x.mpr (.inr rfl))
  obtain ⟨-, h⟩ := required_metrics_or_cycle hbuilt e
  obtain ⟨-, hacyclic, -⟩ := h (resolvesThrough (by simp))
  obtain ⟨hexpanded, ms, hascending, hms, hrequired⟩ := hacyclic fun y hy =>
    not_transGen_of_acc (acc_of_reflTransGen acc_e hy)
  obtain ⟨inlined, hinlined⟩ := hexpanded he {} .fresh
  have heq : ms = [a] := hascending.eq_of_mem_iff (List.pairwise_singleton _ _) fun y =>
      (hms y).trans (measured_behind_e y).symm
  obtain ⟨hends, h⟩ := required_metrics_or_cycle hbuilt x
  obtain ⟨-, -, hcyclic⟩ := h (resolvesThrough (by simp))
  exact ⟨inlined, hbuilt, he, hinlined, heq ▸ hrequired inlined (.expanded he .fresh hinlined),
    _, ofMetric_e, heq ▸ hrequired _ (.definition ofMetric_e),
    _, ofMetric_x, (hends _ (.definition ofMetric_x) _).mpr rfl, hcyclic ⟨x, .refl, hcycle⟩ _ (.definition ofMetric_x)⟩

end Accumulating
end Catalog

end PerfCounters
