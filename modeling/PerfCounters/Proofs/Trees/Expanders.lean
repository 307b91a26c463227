import Mathlib
import PerfCounters.Proofs.Trees.Expansion

/-! When expansion succeeds. A metric points to the metrics that its expression refers to by name. It can be expanded
    if and only if no definition is at fault behind it and none leads back to itself; then the tree is the inlined
    definition, whichever metrics were expanded before.

    While an expander is at work, its path is a walk along references, and the metric it is about to enter would
    prolong that walk. So a failure comes of a definition at fault behind the metric, or of a walk that has met one
    of its own metrics again. -/

namespace PerfCounters

open Relation
open PerfCounters.Parser (bind_eq_ok)

section Paths

variable {r : Metric → Metric → Prop} {m x : Metric}

theorem not_transGen_of_acc (h : Acc (fun x y => r y x) m) : ¬ TransGen r m m := by
  induction h with
  | intro m _ ih =>
    intro hcycle
    obtain ⟨y, hy, hback⟩ := TransGen.head'_iff.mp hcycle
    exact ih y hy (TransGen.tail' hback hy)

theorem acc_of_reflTransGen (h : Acc (fun x y => r y x) m) (hx : ReflTransGen r m x) : Acc (fun x y => r y x) x := by
  induction hx with
  | refl => exact h
  | tail _ hstep ih => exact ih.inv hstep

/-- A walk that ends where it has been before goes round. -/
theorem transGen_of_walk {walk : List Metric} (h : (walk ++ [x]).IsChain r) (hx : x ∈ walk) : TransGen r x x := by
  have htrans := List.isChain_iff_pairwise.mp (h.imp fun _ _ => TransGen.single)
  exact (List.pairwise_append.mp htrans).2.2 x hx x List.mem_cons_self

theorem reflTransGen_of_walk {walk : List Metric} (h : (m :: walk).IsChain r) (hx : x ∈ m :: walk) :
    ReflTransGen r m x := by
  have htrans := List.isChain_iff_pairwise.mp (h.imp fun _ _ => ReflTransGen.single)
  rcases List.mem_cons.mp hx with rfl | hx
  · exact .refl
  · exact (List.pairwise_cons.mp htrans).1 x hx

end Paths

namespace Expr

/-- The names that an expression refers to, left to right. -/
def references : Expr → List String
  | .number _ | .accumulate _ _ => []
  | .metric name => [name]
  | .binary _ lhs rhs => lhs.references ++ rhs.references
  | .reduce child _ _ | .select child _ => child.references

/-- The names in an expression, those it accumulates among them. -/
def names : Expr → List String
  | .number _ => []
  | .metric name | .accumulate name _ => [name]
  | .binary _ lhs rhs => lhs.names ++ rhs.names
  | .reduce child _ _ | .select child _ => child.names

end Expr

namespace Catalog

/-- The expression of `m` refers to `x` by name. -/
def PointsTo (c : Catalog) (m x : Metric) : Prop := m.isDerived = true ∧ ∃ e, Expr.ofText m.expression = .ok e ∧
  ∃ name ∈ e.references, c.byName? m.architecture name = some x

/-- The expression of `m`, if it has one, parses, and all its names are found. -/
def Resolves (c : Catalog) (m : Metric) : Prop := m.isDerived = true → ∃ e, Expr.ofText m.expression = .ok e ∧
  ∀ name ∈ e.names, ∃ x, c.byName? m.architecture name = some x

/-- Every definition that `m` leads to resolves, its own among them. -/
def ResolvesBehind (c : Catalog) (m : Metric) : Prop := ∀ x, ReflTransGen c.PointsTo m x → c.Resolves x

/-- Nothing that `m` leads to leads back to itself. -/
def AcyclicBehind (c : Catalog) (m : Metric) : Prop := ∀ x, ReflTransGen c.PointsTo m x → ¬ TransGen c.PointsTo x x

end Catalog

namespace Tree

variable {c : Catalog} {architecture : String} {m x : Metric} {t t' : Tree} {e : Expr}

theorem lookUp_eq_ok {name : String} : lookUp c architecture name = .ok m ↔ c.byName? architecture name = some m := by
  unfold lookUp
  cases c.byName? architecture name <;> simp

theorem ofExpr_defined : (∃ t, ofExpr c architecture e = .ok t) ↔
    ∀ name ∈ e.names, ∃ x, c.byName? architecture name = some x := by
  induction e with
  | number v => simp [ofExpr, Expr.names]
  | metric name | accumulate name mode =>
    simp only [Expr.names, List.forall_mem_singleton, ← lookUp_eq_ok, ofExpr]
    cases lookUp c architecture name <;> simp
  | binary op lhs rhs ihl ihr =>
    simp only [Expr.names, List.forall_mem_append, ← ihl, ← ihr, ofExpr]
    cases ofExpr c architecture lhs <;> cases ofExpr c architecture rhs <;> simp [bind, Except.bind, pure, Except.pure]
  | reduce child op ds ih | select child filters ih =>
    simp only [Expr.names, ← ih, ofExpr]
    cases ofExpr c architecture child <;> simp

/-- The metrics that the tree of an expression names are those found for the names in it, in the same order. -/
theorem ofExpr_names (h : ofExpr c architecture e = .ok t) : t.leaves = e.names.filterMap (c.byName? architecture) ∧
    t.references = e.references.filterMap (c.byName? architecture) := by
  induction e generalizing t with
  | number v =>
    cases h
    exact ⟨rfl, rfl⟩
  | metric name | accumulate name mode =>
    obtain ⟨m, hm, h⟩ := bind_eq_ok h
    cases h
    simp [leaves, references, Expr.names, Expr.references, lookUp_eq_ok.mp hm]
  | binary op lhs rhs ihl ihr =>
    obtain ⟨l, hl, h⟩ := bind_eq_ok h
    obtain ⟨r, hr, h⟩ := bind_eq_ok h
    cases h
    simp [leaves, references, Expr.names, Expr.references, ihl hl, ihr hr]
  | reduce child op ds ih | select child filters ih =>
    obtain ⟨s, hs, h⟩ := bind_eq_ok h
    cases h
    simpa only [leaves, references, Expr.names, Expr.references] using ih hs

theorem resolves_iff : c.Resolves m ↔ ∃ t, ofMetric c m = .ok t := by
  unfold Catalog.Resolves ofMetric
  cases m.isDerived with
  | false => simp
  | true => cases Expr.ofText m.expression <;> simp [ofExpr_defined]

theorem pointsTo_iff_refers (h : ofMetric c m = .ok t) : c.PointsTo m x ↔ c.Refers m x := by
  unfold Catalog.PointsTo Catalog.Refers
  refine and_congr_right fun hderived => ?_
  obtain ⟨e, he, hexpr⟩ := ofMetric_derived h hderived
  simp [h, he, (ofExpr_names hexpr).2]

theorem pointsTo_of_refers (h : c.Refers m x) : c.PointsTo m x := by
  obtain ⟨hderived, t, ht, hx⟩ := h
  exact (pointsTo_iff_refers ht).mpr ⟨hderived, t, ht, hx⟩

/-- What holds of measured metrics, and of a derived one if of all that its definition refers to, holds of all that a
    tree refers to that can be inlined. -/
theorem Inlines.forall_references {P : Metric → Prop} (h : Inlines c t t') (hmeasured : ∀ m, m.isDerived = false → P m)
    (hderived : ∀ m s s', ofMetric c m = .ok s → Inlines c s s' → (∀ y ∈ s.references, P y) → P m) :
    ∀ y ∈ t.references, P y := by
  induction h with
  | number | accumulate => exact fun y hy => (by cases hy)
  | measured h =>
    intro y hy
    rw [List.mem_singleton.mp hy]
    exact hmeasured _ h
  | derived _ definition inlined ih =>
    intro y hy
    rw [List.mem_singleton.mp hy]
    exact hderived _ _ _ definition inlined ih
  | binary _ _ ihl ihr =>
    intro y hy
    rcases List.mem_append.mp hy with hy | hy
    · exact ihl y hy
    · exact ihr y hy
  | reduce _ ih | select _ ih => exact ih

/-- What can be inlined refers to no definition that refers to itself. -/
theorem Inlines.acc_refers (h : Inlines c t t') : ∀ y ∈ t.references, Acc (fun x y => c.Refers y x) y := by
  refine h.forall_references (fun m hm => ⟨_, fun x hx => ?_⟩) fun m s s' definition _ ih => ⟨_, fun x hx => ?_⟩
  · simp [hx.1] at hm
  · obtain ⟨-, s, hs, hx⟩ := hx
    cases definition.symm.trans hs
    exact ih x hx

/-- Whatever a tree that can be inlined refers to has been inlined itself. -/
theorem Inlines.of_reference (h : Inlines c t t') : ∀ y ∈ t.references, ∃ s, Expander.Inlined c y s :=
  h.forall_references (fun _ hm => ⟨_, _, ofMetric_measured hm, .measured (n := {}) hm⟩)
    fun _ s s' definition inlined _ => ⟨s', s, definition, inlined⟩

end Tree

open PerfCounters.Tree

namespace Expander

variable {c : Catalog} {m x : Metric} {t : Tree}

/-! ### Behind an inlined definition -/

theorem Inlined.refers (h : Inlined c m t) (hx : c.PointsTo m x) : c.Refers m x := by
  obtain ⟨definition, hdefinition, -⟩ := h
  exact (pointsTo_iff_refers hdefinition).mp hx

theorem Inlined.of_pointsTo (h : Inlined c m t) (hx : c.PointsTo m x) : ∃ s, Inlined c x s := by
  obtain ⟨-, s, hs, hmem⟩ := h.refers hx
  obtain ⟨definition, hdefinition, hinlines⟩ := h
  cases hdefinition.symm.trans hs
  exact hinlines.of_reference x hmem

theorem Inlined.behind (h : Inlined c m t) (hx : ReflTransGen c.PointsTo m x) : ∃ s, Inlined c x s := by
  induction hx with
  | refl => exact ⟨t, h⟩
  | tail _ hstep ih =>
    obtain ⟨s, hs⟩ := ih
    exact hs.of_pointsTo hstep

theorem Inlined.acc_pointsTo (h : Inlined c m t) : Acc (fun x y => c.PointsTo y x) m := by
  have hacc : Acc (fun x y => c.Refers y x) m := by
    obtain ⟨definition, hdefinition, hinlines⟩ := h
    refine ⟨_, fun x ⟨_, s, hs, hmem⟩ => ?_⟩
    cases hdefinition.symm.trans hs
    exact hinlines.acc_refers x hmem
  induction hacc generalizing t with
  | intro m _ ih =>
    refine ⟨_, fun x hx => ?_⟩
    obtain ⟨s, hs⟩ := h.of_pointsTo hx
    exact ih x (h.refers hx) hs

theorem Inlined.sound (h : Inlined c m t) : c.ResolvesBehind m ∧ c.AcyclicBehind m := by
  refine ⟨fun x hx => ?_, fun x hx => not_transGen_of_acc (acc_of_reflTransGen h.acc_pointsTo hx)⟩
  obtain ⟨-, definition, hdefinition, -⟩ := h.behind hx
  exact resolves_iff.mpr ⟨definition, hdefinition⟩

/-! ### Failures -/

/-- Why none of `roots` could be entered from the walk `ms`: a definition behind one of them is at fault, or the walk
    was prolonged through one of them until it met one of its metrics again. -/
inductive Stopped (c : Catalog) (ms roots : List Metric) : EvalError → Prop where
  | fault {y x e} (hy : y ∈ roots) (hx : ReflTransGen c.Refers y x) (he : ofMetric c x = .error e) :
      Stopped c ms roots e
  | cycle {y walk last} (hy : y ∈ roots) (hstart : ms ++ [y] <+: walk ++ [last])
      (hwalk : (walk ++ [last]).IsChain c.Refers) (hlast : last ∈ walk) :
      Stopped c ms roots (.cyclicDefinition ((walk ++ [last]).map fun m => m.name))

theorem Stopped.mono {ms roots roots' : List Metric} {e : EvalError} (h : Stopped c ms roots e) (hsub : roots ⊆ roots') :
    Stopped c ms roots' e := by
  cases h with
  | fault hy hx he => exact .fault (hsub hy) hx he
  | cycle hy hstart hwalk hlast => exact .cycle (hsub hy) hstart hwalk hlast

/-- What stops a definition stops its metric. -/
theorem Stopped.of_definition {ms : List Metric} {e : EvalError} (h : Stopped c (ms ++ [m]) t.references e)
    (hderived : m.isDerived = true) (ht : ofMetric c m = .ok t) : Stopped c ms [m] e := by
  cases h with
  | fault hy hx he => exact .fault List.mem_cons_self (.head ⟨hderived, t, ht, hy⟩ hx) he
  | cycle hy hstart hwalk hlast =>
    exact .cycle List.mem_cons_self ((List.prefix_append _ _).trans hstart) hwalk hlast

/-- The path consists of the numbers of the metrics of a walk. -/
structure OnWalk (c : Catalog) (ms : List Metric) (path : List Nat) : Prop where
  path_eq : path = ms.map Metric.id
  holds : ∀ m ∈ ms, c.Holds m

section OnWalk

variable {ms : List Metric} {path : List Nat}

theorem OnWalk.names (h : OnWalk c ms path) : names c path = ms.map (fun m => m.name) := by
  obtain ⟨rfl, hholds⟩ := h
  unfold Expander.names
  induction ms with
  | nil => rfl
  | cons m ms ih =>
    have hm : c.byId? m.id = some m := hholds m List.mem_cons_self
    simp only [List.map_cons, List.filterMap_cons, hm, ih fun x hx => hholds x (List.mem_cons_of_mem _ hx)]

theorem OnWalk.mem (h : OnWalk c ms path) (hm : c.Holds m) (hpath : path.contains m.id = true) : m ∈ ms := by
  obtain ⟨rfl, hholds⟩ := h
  obtain ⟨x, hx, hid⟩ := List.mem_map.mp (List.contains_iff_mem.mp hpath)
  exact (hholds x hx).eq_of_id hm hid ▸ hx

theorem OnWalk.enter (h : OnWalk c ms path) (hm : c.Holds m) : OnWalk c (ms ++ [m]) (path ++ [m.id]) where
  path_eq := by simp [h.path_eq]
  holds := by simpa [or_imp, forall_and] using ⟨h.holds, hm⟩

end OnWalk

/-- What stops the expansion of a tree, if anything does. -/
def StopsTree (c : Catalog) (path : List Nat) (finished : List (Nat × Tree)) (t : Tree) : Prop :=
  ∀ ms, OnWalk c ms path → (∀ m ∈ t.leaves, c.Holds m) → (∀ y ∈ t.references, (ms ++ [y]).IsChain c.Refers) →
    ∀ f, (expandTree c path finished t).failure = some f → Stopped c ms t.references f.1

/-- What stops the expansion of a metric, if anything does. -/
def StopsMetric (c : Catalog) (path : List Nat) (finished : List (Nat × Tree)) (m : Metric) : Prop :=
  ∀ ms, OnWalk c ms path → c.Holds m → (ms ++ [m]).IsChain c.Refers →
    ∀ f, (expandMetric c path finished m).failure = some f → Stopped c ms [m] f.1

/-- A walk goes on to what the definition at its end refers to. -/
theorem isChain_references {ms : List Metric} (hwalk : (ms ++ [m]).IsChain c.Refers) (hderived : m.isDerived = true)
    (ht : ofMetric c m = .ok t) : ∀ y ∈ t.references, (ms ++ [m] ++ [y]).IsChain c.Refers := by
  intro y hy
  rw [List.append_assoc]
  exact List.isChain_append_cons_cons.mpr ⟨hwalk, ⟨hderived, t, ht, hy⟩, List.isChain_singleton y⟩

/-- A measured metric stops nothing. -/
theorem derived_of_failure {path : List Nat} {finished : List (Nat × Tree)} {f : EvalError × List Nat}
    (ht : ofMetric c m = .ok t) (h : (expandTree c path finished t).failure = some f) : m.isDerived = true := by
  by_contra hmeasured
  simp only [ofMetric, hmeasured, if_false, Except.ok.injEq] at ht
  subst ht
  simp [expandTree, hmeasured] at h

theorem stopped_expand (hc : c.Numbered) :
    (∀ path finished t, StopsTree c path finished t) ∧ ∀ path finished m, StopsMetric c path finished m := by
  apply expandTree.mutual_induct c (StopsTree c) (StopsMetric c)
  -- number and accumulate
  · intro path finished n v ms hms ht hwalk f hf
    rw [expandTree] at hf
    cases hf
  · intro path finished n m mode ms hms ht hwalk f hf
    rw [expandTree] at hf
    cases hf
  -- references
  · intro path finished n m hderived x f' hf' ih ms hms ht hwalk f hf
    have h := ih ms hms (ht m List.mem_cons_self) (hwalk m List.mem_cons_self) f' hf'
    rw [expandTree] at hf
    simp only [hderived, if_true, show (expandMetric c path finished m).failure = some f' from hf'] at hf
    cases hf
    exact h
  · intro path finished n m hderived x hx ih ms hms ht hwalk f hf
    rw [expandTree] at hf
    simp only [hderived, if_true, show (expandMetric c path finished m).failure = none from hx] at hf
    cases hf
  · intro path finished n m hmeasured ms hms ht hwalk f hf
    rw [expandTree] at hf
    simp only [hmeasured, Bool.false_eq_true, if_false] at hf
    cases hf
  -- binary
  · intro path finished n op lhs rhs l f' hf' ih ms hms ht hwalk f hf
    have h := ih ms hms (fun m hm => ht m (List.mem_append_left _ hm))
      (fun y hy => hwalk y (List.mem_append_left _ hy)) f' hf'
    rw [expandTree] at hf
    simp only [show (expandTree c path finished lhs).failure = some f' from hf'] at hf
    cases hf
    exact h.mono (List.subset_append_left _ _)
  · intro path finished n op lhs rhs l hl ihl ihr ms hms ht hwalk f hf
    rw [expandTree] at hf
    simp only [show (expandTree c path finished lhs).failure = none from hl] at hf
    have h := ihr ms hms (fun m hm => ht m (List.mem_append_right _ hm))
      (fun y hy => hwalk y (List.mem_append_right _ hy)) f hf
    exact h.mono (List.subset_append_right _ _)
  -- reduce and select
  · intro path finished n child op ds ih ms hms ht hwalk f hf
    rw [expandTree] at hf
    exact ih ms hms ht hwalk f hf
  · intro path finished n child filters ih ms hms ht hwalk f hf
    rw [expandTree] at hf
    exact ih ms hms ht hwalk f hf
  -- metrics: one that is finished, one met again, and one entered
  · intro path finished m t hlookup ms hms hm hwalk f hf
    rw [expandMetric] at hf
    simp only [hlookup] at hf
    cases hf
  · intro path finished m hlookup hpath ms hms hm hwalk f hf
    rw [expandMetric] at hf
    simp only [hlookup, hpath, dif_pos] at hf
    cases hf
    have h : Stopped c ms [m] _ := .cycle List.mem_cons_self (List.prefix_refl _) hwalk (hms.mem hm hpath)
    rwa [List.map_append, ← hms.names] at h
  · intro path finished m hlookup hpath hholds e he ms hms hm hwalk f hf
    rw [expandMetric] at hf
    simp only [hlookup, hpath, hholds, he, dif_pos] at hf
    cases hf
    exact .fault List.mem_cons_self .refl he
  · intro path finished m hlookup hpath hholds t ht x f' hf' ih ms hms hm hwalk f hf
    have hderived := derived_of_failure ht hf'
    rw [expandMetric] at hf
    simp only [hlookup, hpath, hholds, ht, dif_pos,
      show (expandTree c (path ++ [m.id]) finished t).failure = some f' from hf'] at hf
    cases hf
    exact (ih (ms ++ [m]) (hms.enter hm) (fun y hy => ((ofMetric_ok hc hholds ht).known y hy).1)
      (isChain_references hwalk hderived ht) f' hf').of_definition hderived ht
  · intro path finished m hlookup hpath hholds t ht x hx ih ms hms hm hwalk f hf
    rw [expandMetric] at hf
    simp only [hlookup, hpath, hholds, ht, dif_pos,
      show (expandTree c (path ++ [m.id]) finished t).failure = none from hx] at hf
    cases hf
  · intro path finished m hlookup hpath hholds ms hms hm hwalk f hf
    exact absurd hm hholds

/-! ### Expanders that have only succeeded -/

/-- The expanders of a catalog all of whose calls, for metrics and for trees over them, have succeeded. -/
inductive Grown (c : Catalog) : Expander → Prop where
  | fresh : Grown c {}
  | metric {x x' : Expander} {m : Metric} {t : Tree} (h : Grown c x) (hm : c.Holds m)
      (hresult : x.expanded c m = (x', .ok t)) : Grown c x'
  | tree {x x' : Expander} {t t' : Tree} (h : Grown c x) (ht : ∀ m ∈ t.leaves, c.Holds m)
      (hresult : x.expand c t = (x', t', none)) : Grown c x'

theorem expanded_cases (x : Expander) (c : Catalog) (m : Metric) :
    ((expandMetric c x.path x.finished m).failure = none ∧
      x.expanded c m = (⟨(expandMetric c x.path x.finished m).finished, x.path⟩,
        .ok (expandMetric c x.path x.finished m).tree)) ∨
    ∃ f, (expandMetric c x.path x.finished m).failure = some f ∧ (x.expanded c m).2 = .error f.1 := by
  unfold expanded after
  cases hf : (expandMetric c x.path x.finished m).failure with
  | none => exact .inl ⟨rfl, by simp [hf]⟩
  | some f => exact .inr ⟨f, rfl, by simp [hf]⟩

/-- Between calls the path is empty, and what is finished can be relied on. -/
theorem Grown.sound (hc : c.Numbered) {x : Expander} (h : Grown c x) : x.path = [] ∧ Finished c x.finished := by
  induction h with
  | fresh => exact ⟨rfl, fun p hp => (by cases hp)⟩
  | @metric x x' m t _ hm hresult ih =>
    have hkeeps := ((keeps_expand hc).2 x.path x.finished m ih.2 hm).1
    rcases expanded_cases x c m with ⟨-, hok⟩ | ⟨f, -, herror⟩
    · cases hok.symm.trans hresult
      exact ⟨ih.1, hkeeps⟩
    · rw [hresult] at herror
      cases herror
  | @tree x x' t t' _ ht hresult ih =>
    have hkeeps := ((keeps_expand hc).1 x.path x.finished t ih.2 ht).1
    unfold expand after at hresult
    cases hf : (expandTree c x.path x.finished t).failure with
    | none =>
      simp only [hf] at hresult
      cases hresult
      exact ⟨ih.1, hkeeps⟩
    | some f => simp [hf] at hresult

theorem Grown.expanded_ok (hc : c.Numbered) {x : Expander} (hx : Grown c x) (hm : c.Holds m)
    (h : (x.expanded c m).2 = .ok t) : Inlined c m t := by
  rcases expanded_cases x c m with ⟨hf, hok⟩ | ⟨f, -, herror⟩
  · rw [hok] at h
    cases h
    exact ((keeps_expand hc).2 x.path x.finished m (hx.sound hc).2 hm).2 hf
  · cases herror.symm.trans h

theorem Grown.expand_ok (hc : c.Numbered) {x x' : Expander} {t' : Tree} (hx : Grown c x) (ht : ∀ m ∈ t.leaves, c.Holds m)
    (h : x.expand c t = (x', t', none)) : Inlines c t t' := by
  unfold expand at h
  obtain ⟨-, h⟩ := Prod.mk.inj h
  obtain ⟨rfl, hfailure⟩ := Prod.mk.inj h
  exact ((keeps_expand hc).1 x.path x.finished t (hx.sound hc).2 ht).2 (Option.map_eq_none_iff.mp hfailure)

theorem Grown.expanded_error (hc : c.Numbered) {x : Expander} (hx : Grown c x) (hm : c.Holds m) {e : EvalError}
    (h : (x.expanded c m).2 = .error e) : Stopped c [] [m] e := by
  rcases expanded_cases x c m with ⟨-, hok⟩ | ⟨f, hf, herror⟩
  · rw [hok] at h
    cases h
  · cases herror.symm.trans h
    have hpath : OnWalk c [] x.path := ⟨(hx.sound hc).1, fun m hm => (by cases hm)⟩
    exact (stopped_expand hc).2 x.path x.finished m [] hpath hm (List.isChain_singleton m) f hf

/-- Where every definition behind a metric resolves, only a cycle stops it, and the error tells the walk into it. -/
theorem Stopped.walk {e : EvalError} (h : Stopped c [] [m] e) (hall : c.ResolvesBehind m) :
    ∃ walk last, walk.head? = some m ∧ (walk ++ [last]).IsChain c.PointsTo ∧ last ∈ walk ∧
      e = .cyclicDefinition ((walk ++ [last]).map fun x => x.name) := by
  cases h with
  | @fault y x _ hy hx he =>
    cases List.mem_singleton.mp hy
    obtain ⟨t, ht⟩ := resolves_iff.mp (hall x (hx.lift id fun _ _ => pointsTo_of_refers))
    rw [ht] at he
    cases he
  | @cycle y walk last hy hstart hwalk hlast =>
    cases List.mem_singleton.mp hy
    refine ⟨walk, last, ?_, hwalk.imp fun _ _ => pointsTo_of_refers, hlast, rfl⟩
    cases walk with
    | nil => cases hlast
    | cons z walk =>
      obtain ⟨heq, -⟩ := List.cons_prefix_cons.mp hstart
      rw [heq]
      rfl

theorem Stopped.not_acyclicBehind {e : EvalError} (h : Stopped c [] [m] e) (hall : c.ResolvesBehind m) :
    ¬ c.AcyclicBehind m := by
  obtain ⟨walk, last, hhead, hwalk, hlast, -⟩ := h.walk hall
  obtain ⟨rest, rfl⟩ := List.head?_eq_some_iff.mp hhead
  exact fun hacyclic =>
    hacyclic last (reflTransGen_of_walk hwalk.left_of_append hlast) (transGen_of_walk hwalk hlast)

theorem Grown.expanded_iff (hc : c.Numbered) {x : Expander} (hx : Grown c x) (hm : c.Holds m) :
    (∃ t, (x.expanded c m).2 = .ok t) ↔ c.ResolvesBehind m ∧ c.AcyclicBehind m := by
  refine ⟨fun ⟨t, ht⟩ => (hx.expanded_ok hc hm ht).sound, fun ⟨hall, hacyclic⟩ => ?_⟩
  cases hresult : (x.expanded c m).2 with
  | ok t => exact ⟨t, rfl⟩
  | error e => exact absurd hacyclic ((hx.expanded_error hc hm hresult).not_acyclicBehind hall)

/-- For an expander that has only succeeded so far, a metric has a tree if and only if every definition behind it
    resolves and none of them leads back to itself. The tree is the inlined definition, it refers to measured metrics
    only, and any other such expander has the same. If only a cycle stands in the way, the error names a walk from the
    metric into it. -/
theorem expanded_tree_or_cycle {x : Expander} (hc : c.Built) (hx : Grown c x) (hm : c.Holds m) :
    ((∃ t, (x.expanded c m).2 = .ok t) ↔ c.ResolvesBehind m ∧ c.AcyclicBehind m) ∧
    (∀ t, (x.expanded c m).2 = .ok t → Inlined c m t ∧ (∀ y ∈ t.references, y.isDerived = false) ∧
      ∀ x', Grown c x' → (x'.expanded c m).2 = .ok t) ∧
    (c.ResolvesBehind m → ¬ c.AcyclicBehind m → ∃ walk last, walk.head? = some m ∧
      (walk ++ [last]).IsChain c.PointsTo ∧ last ∈ walk ∧
      (x.expanded c m).2 = .error (.cyclicDefinition ((walk ++ [last]).map fun y => y.name))) := by
  have hnumbered := hc.numbered
  refine ⟨hx.expanded_iff hnumbered hm, fun t ht => ?_, fun hall hcycle => ?_⟩
  · have hinlined := hx.expanded_ok hnumbered hm ht
    have ⟨definition, hdefinition, hinlines⟩ := hinlined
    refine ⟨hinlined, (hinlines.flat hnumbered (ofMetric_ok hnumbered hm hdefinition)).measured, fun x' hx' => ?_⟩
    obtain ⟨t', ht'⟩ := (hx'.expanded_iff hnumbered hm).mpr hinlined.sound
    obtain ⟨definition', hdefinition', hinlines'⟩ := hx'.expanded_ok hnumbered hm ht'
    cases hdefinition.symm.trans hdefinition'
    rw [ht', hinlines'.unique hinlines]
  · cases hresult : (x.expanded c m).2 with
    | ok t => exact absurd (hx.expanded_ok hnumbered hm hresult).sound.2 hcycle
    | error e =>
      obtain ⟨walk, last, hhead, hwalk, hlast, rfl⟩ := (hx.expanded_error hnumbered hm hresult).walk hall
      exact ⟨walk, last, hhead, hwalk, hlast, rfl⟩

/-- A counter `P`, and two metrics that are defined by each other. -/
def mutualPair : Catalog :=
  (Catalog.empty.registerAll [{ name := "P", architecture := "g", block := "S" },
    { name := "X", architecture := "g", expression := "P + Y" },
    { name := "Y", architecture := "g", expression := "X" }]).1

def counterP : Metric := { name := "P", architecture := "g", block := "S", id := 1 }

def pairX : Metric := { name := "X", architecture := "g", expression := "P + Y", id := 2 }

def pairY : Metric := { name := "Y", architecture := "g", expression := "X", id := 3 }

theorem ofMetric_pairX :
    ofMetric mutualPair pairX = .ok (.binary {} .add (.reference {} counterP) (.reference {} pairY)) := by
  cbv

theorem ofMetric_pairY : ofMetric mutualPair pairY = .ok (.reference {} pairX) := by cbv

theorem pointsTo_pairX : mutualPair.PointsTo pairX x ↔ x = counterP ∨ x = pairY := by
  rw [pointsTo_iff_refers ofMetric_pairX]
  simp [Catalog.Refers, ofMetric_pairX, references, show pairX.isDerived = true by decide]

theorem pointsTo_pairY : mutualPair.PointsTo pairY x ↔ x = pairX := by
  rw [pointsTo_iff_refers ofMetric_pairY]
  simp [Catalog.Refers, ofMetric_pairY, references, show pairY.isDerived = true by decide]

theorem resolvesBehind_pairX : mutualPair.ResolvesBehind pairX := by
  have hreach : ∀ x, ReflTransGen mutualPair.PointsTo pairX x → x = pairX ∨ x = counterP ∨ x = pairY := by
    intro x hx
    induction hx with
    | refl => exact .inl rfl
    | tail _ hstep ih =>
      rcases ih with rfl | rfl | rfl
      · exact .inr (pointsTo_pairX.mp hstep)
      · exact absurd hstep.1 (by decide)
      · exact .inl (pointsTo_pairY.mp hstep)
  intro x hx
  rcases hreach x hx with rfl | rfl | rfl
  · exact resolves_iff.mpr ⟨_, ofMetric_pairX⟩
  · exact fun hderived => absurd hderived (by decide)
  · exact resolves_iff.mpr ⟨_, ofMetric_pairY⟩

theorem expanded_mutualPair : ∃ x, mutualPair.Built ∧ Grown mutualPair x ∧ mutualPair.Holds pairX ∧
    mutualPair.ResolvesBehind pairX ∧ ¬ mutualPair.AcyclicBehind pairX ∧
    ∃ walk last, walk.head? = some pairX ∧ (walk ++ [last]).IsChain mutualPair.PointsTo ∧ last ∈ walk ∧
      (x.expanded mutualPair pairX).2 = .error (.cyclicDefinition ((walk ++ [last]).map fun y => y.name)) := by
  have hbuilt : mutualPair.Built := Catalog.Built.empty.registerAll _
  have hx : mutualPair.Holds pairX := by
    show mutualPair.byId? 2 = some pairX
    cbv
  have hp : mutualPair.Holds counterP := by
    show mutualPair.byId? 1 = some counterP
    cbv
  have hcycle : ¬ mutualPair.AcyclicBehind pairX := fun hacyclic =>
    hacyclic pairX .refl (.tail (.single (pointsTo_pairX.mpr (.inr rfl))) (pointsTo_pairY.mpr rfl))
  -- the expander has finished the counter before it is asked for `X`
  have hfirst : ∃ x t, ({} : Expander).expanded mutualPair counterP = (x, .ok t) := ⟨_, _, by cbv⟩
  obtain ⟨x, t, hfirst⟩ := hfirst
  have hgrown : Grown mutualPair x := Grown.fresh.metric hp hfirst
  exact ⟨x, hbuilt, hgrown, hx, resolvesBehind_pairX, hcycle,
    (expanded_tree_or_cycle hbuilt hgrown hx).2.2 resolvesBehind_pairX hcycle⟩

end Expander

end PerfCounters
