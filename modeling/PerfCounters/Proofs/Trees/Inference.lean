import PerfCounters.Proofs.Trees.Expansion

/-! The layouts of a tree. Inference notes at every node the layout that follows from those below it, and
    changes nothing else. -/

namespace PerfCounters

namespace Tree

variable {c : Catalog} {t t' : Tree} {l : Layout}

/-- The layout noted at every node is the one that follows from its operands. -/
def Laid (c : Catalog) : Tree → Prop
  | .number n _ => n.layout = Layout.scalar
  | .reference n m | .accumulate n m _ => n.layout = metricLayout c m
  | .binary n _ lhs rhs => lhs.Laid c ∧ rhs.Laid c ∧ lhs.layout.join rhs.layout = .ok n.layout
  | .reduce n child _ ds => child.Laid c ∧ n.layout = reducedLayout child.layout ds
  | .select n child filters => child.Laid c ∧ n.layout = selectedLayout child.layout filters

/-- What inference makes of a tree when all layouts can be joined. -/
structure Infers (c : Catalog) (t t' : Tree) (l : Layout) : Prop where
  laid : t'.Laid c
  layout : t'.layout = l
  leaves : t'.leaves = t.leaves
  references : t'.references = t.references
  outIds : t'.outIds = t.outIds

theorem infer_binary_ok {n : Note} {op : BinaryOp} {lhs rhs : Tree} (h : (binary n op lhs rhs).infer c = (t', .ok l)) :
    ∃ lhs' ll rhs' lr, lhs.infer c = (lhs', .ok ll) ∧ rhs.infer c = (rhs', .ok lr) ∧ ll.join lr = .ok l ∧
      t' = binary { n with layout := l } op lhs' rhs' := by
  rw [infer] at h
  split at h
  · cases h
  · rename_i lhs' ll hl
    split at h
    · cases h
    · rename_i rhs' lr hr
      split at h
      · cases h
      · rename_i joined hjoin
        cases h
        exact ⟨lhs', ll, rhs', lr, hl, hr, hjoin, rfl⟩

theorem infer_reduce_ok {n : Note} {child : Tree} {op : ReduceOp} {ds : List Dimension}
    (h : (reduce n child op ds).infer c = (t', .ok l)) :
    ∃ child' lc, child.infer c = (child', .ok lc) ∧ l = reducedLayout lc ds ∧
      t' = reduce { n with layout := l } child' op ds := by
  rw [infer] at h
  split at h
  · cases h
  · rename_i child' lc hchild
    cases h
    exact ⟨child', lc, hchild, rfl, rfl⟩

theorem infer_select_ok {n : Note} {child : Tree} {filters : Filters} (h : (select n child filters).infer c = (t', .ok l)) :
    ∃ child' lc, child.infer c = (child', .ok lc) ∧ l = selectedLayout lc filters ∧
      t' = select { n with layout := l } child' filters := by
  rw [infer] at h
  split at h
  · cases h
  · rename_i child' lc hchild
    cases h
    exact ⟨child', lc, hchild, rfl, rfl⟩

theorem infer_ok (h : t.infer c = (t', .ok l)) : Infers c t t' l := by
  induction t generalizing t' l with
  | number n v =>
    cases h
    exact ⟨rfl, rfl, rfl, rfl, rfl⟩
  | reference n m | accumulate n m mode =>
    cases h
    exact ⟨rfl, rfl, rfl, rfl, rfl⟩
  | binary n op lhs rhs ihl ihr =>
    obtain ⟨lhs', ll, rhs', lr, hl, hr, hjoin, rfl⟩ := infer_binary_ok h
    have il := ihl hl
    have ir := ihr hr
    refine ⟨⟨il.laid, ir.laid, ?_⟩, rfl, ?_, ?_, ?_⟩
    · rw [il.layout, ir.layout, hjoin]
    · simp [Tree.leaves, il.leaves, ir.leaves]
    · simp [Tree.references, il.references, ir.references]
    · simp [Tree.outIds, outId, note, il.outIds, ir.outIds]
  | reduce n child op ds ih =>
    obtain ⟨child', lc, hchild, rfl, rfl⟩ := infer_reduce_ok h
    have i := ih hchild
    refine ⟨⟨i.laid, ?_⟩, rfl, i.leaves, i.references, ?_⟩
    · rw [i.layout]
    · simp [Tree.outIds, outId, note, i.outIds]
  | select n child filters ih =>
    obtain ⟨child', lc, hchild, rfl, rfl⟩ := infer_select_ok h
    have i := ih hchild
    refine ⟨⟨i.laid, ?_⟩, rfl, i.leaves, i.references, ?_⟩
    · rw [i.layout]
    · simp [Tree.outIds, outId, note, i.outIds]

theorem Infers.flat {architecture : String} (h : Infers c t t' l) (ht : t.Flat c architecture) :
    t'.Flat c architecture where
  known := by rw [h.leaves]; exact ht.known
  bounded := by rw [h.outIds]; exact ht.bounded
  measured := by rw [h.references]; exact ht.measured

theorem setOutId_ok {counter : Nat} (h : t.setOutId counter = .ok t') :
    counter ≤ maxCounterId ∧ t' = t.withNote { t.note with outId := some counter } := by
  unfold setOutId at h
  split at h
  · cases h
  · rename_i hle
    exact ⟨Nat.le_of_not_gt hle, (Except.ok.inj h).symm⟩

end Tree

open PerfCounters.Tree
open PerfCounters.Parser (bind_eq_ok)

namespace Evaluator

variable {c : Catalog} {architecture name : String} {e : Evaluator} {m : Metric} {t : Tree}

/-- What is known of the tree of a metric in an evaluator that was built. -/
structure TreeOf (c : Catalog) (m : Metric) (t : Tree) : Prop where
  flat : t.Flat c m.architecture
  laid : t.Laid c
  measured : m.isDerived = false → ∃ n, t = .reference n m
  inlined : ∃ t' tagged l, Expander.Inlined c m t' ∧ t'.setOutId m.id = .ok tagged ∧ tagged.infer c = (t, .ok l)

/-- Noting a number on the root leaves a flat tree flat. -/
theorem flat_setOutId {t' : Tree} {counter : Nat} (ht : t.Flat c architecture) (h : t.setOutId counter = .ok t') :
    t'.Flat c architecture := by
  obtain ⟨hle, rfl⟩ := setOutId_ok h
  refine ⟨⟨by rw [leaves_withNote]; exact ht.known, fun k hk => ?_⟩, by rw [references_withNote]; exact ht.measured⟩
  rcases mem_outIds_withNote hk with hroot | hinner
  · cases hroot
    exact hle
  · exact ht.bounded k hinner

theorem treeOf_ok (hc : c.Numbered) (hm : c.Holds m) {x x' : Expander} (hx : Expander.Finished c x.finished)
    (h : treeOf c m x = .ok (t, x')) : TreeOf c m t ∧ Expander.Finished c x'.finished := by
  obtain ⟨hfin, hexp⟩ := (Expander.keeps_expand hc).2 x.path x.finished m hx hm
  unfold treeOf Expander.expanded at h
  simp only at h
  cases hfailure : (Expander.expandMetric c x.path x.finished m).failure with
  | some f =>
    rw [hfailure] at h
    obtain ⟨_, hexpanded, -⟩ := bind_eq_ok h
    cases hexpanded
  | none =>
    rw [hfailure] at h
    obtain ⟨definition, hdefinition, hinlines⟩ := hexp hfailure
    have hflat := hinlines.flat hc (ofMetric_ok hc hm hdefinition)
    obtain ⟨T, hexpanded, h⟩ := bind_eq_ok h
    cases hexpanded
    obtain ⟨tagged, htagged, h⟩ := bind_eq_ok h
    cases hset : Tree.setOutId (Expander.expandMetric c x.path x.finished m).tree m.id with
    | error e => rw [hset] at htagged; cases htagged
    | ok tagged' =>
      rw [hset] at htagged
      cases htagged
      cases hinfer : Tree.infer c tagged with
      | mk t' result =>
        rw [hinfer] at h
        obtain ⟨l, hl, h⟩ := bind_eq_ok h
        cases hl
        cases h
        have hinfers := infer_ok hinfer
        refine ⟨⟨hinfers.flat (flat_setOutId hflat hset), hinfers.laid, fun hnot => ?_,
          ⟨_, tagged, l, ⟨definition, hdefinition, hinlines⟩, hset, hinfer⟩⟩, hfin⟩
        rw [hinlines.of_measured hnot hdefinition] at hset
        obtain ⟨-, rfl⟩ := setOutId_ok hset
        cases hinfer
        exact ⟨_, rfl⟩

theorem treesOf_ok (hc : c.Numbered) {ms : List Metric} {x : Expander} {trees : List (String × Tree)}
    (hms : ∀ m ∈ ms, c.Holds m) (hx : Expander.Finished c x.finished)
    (h : treesOf c ms x = .ok trees) :
    trees.map Prod.fst = ms.map (fun m => m.name) ∧ ∀ p ∈ trees, ∃ m ∈ ms, m.name = p.1 ∧ TreeOf c m p.2 := by
  induction ms generalizing x trees with
  | nil =>
    cases h
    exact ⟨rfl, fun p hp => by cases hp⟩
  | cons m ms ih =>
    obtain ⟨⟨t, x'⟩, ht, h⟩ := bind_eq_ok h
    obtain ⟨rest, hrest, h⟩ := bind_eq_ok h
    cases h
    obtain ⟨htree, hx'⟩ := treeOf_ok hc (hms m List.mem_cons_self) hx ht
    obtain ⟨hnames, htrees⟩ := ih (fun y hy => hms y (List.mem_cons_of_mem _ hy)) hx' hrest
    refine ⟨by simp [hnames], fun p hp => ?_⟩
    rcases List.mem_cons.mp hp with rfl | hp
    · exact ⟨m, List.mem_cons_self, rfl, htree⟩
    · obtain ⟨y, hy, hname, hty⟩ := htrees p hp
      exact ⟨y, List.mem_cons_of_mem _ hy, hname, hty⟩

theorem holds_of_mem_metricsOf (hc : c.Numbered) (hm : m ∈ c.metricsOf architecture) :
    c.Holds m ∧ m.architecture = architecture :=
  ⟨hc.holds_of_mem (Catalog.mem_metricsOf.mp hm).1, (Catalog.mem_metricsOf.mp hm).2⟩

theorem ofCatalog_ok (hc : c.Numbered) (h : ofCatalog c architecture = .ok e) :
    e.catalog = c ∧ e.architecture = architecture ∧
      e.trees.map Prod.fst = (c.metricsOf architecture).map (fun m => m.name) ∧
      ∀ p ∈ e.trees, ∃ m ∈ c.metricsOf architecture, m.name = p.1 ∧ TreeOf c m p.2 := by
  obtain ⟨trees, htrees, h⟩ := bind_eq_ok h
  cases h
  obtain ⟨hnames, hall⟩ := treesOf_ok hc (fun m hm => (holds_of_mem_metricsOf hc hm).1)
    (fun p hp => by cases hp) htrees
  exact ⟨rfl, rfl, hnames, hall⟩

/-- The tree that an evaluator has under a name is that of the metric with this name. -/
theorem tree_ok (hc : c.Numbered) (h : ofCatalog c architecture = .ok e) (ht : e.tree name = .ok t) :
    ∃ m, c.Holds m ∧ m.architecture = architecture ∧ m.name = name ∧ TreeOf c m t := by
  obtain ⟨-, -, -, htrees⟩ := ofCatalog_ok hc h
  unfold Evaluator.tree at ht
  split at ht
  · rename_i t' hlookup
    cases ht
    obtain ⟨before, after, heq, -⟩ := List.lookup_eq_some_iff.mp hlookup
    obtain ⟨m, hm, hname, htree⟩ := htrees (name, t) (by rw [heq]; simp)
    exact ⟨m, (holds_of_mem_metricsOf hc hm).1, (holds_of_mem_metricsOf hc hm).2, hname, htree⟩
  · cases ht

/-- Every metric of the architecture has its tree. -/
theorem tree_of_holds (hc : c.Numbered) (h : ofCatalog c architecture = .ok e) (hm : c.Holds m)
    (harch : m.architecture = architecture) : ∃ t, e.tree m.name = .ok t ∧ TreeOf c m t := by
  obtain ⟨-, -, hnames, -⟩ := ofCatalog_ok hc h
  have hmem : m ∈ c.metricsOf architecture := by
    refine Catalog.mem_metricsOf.mpr ⟨?_, harch⟩
    exact Catalog.mem_of_byId? hm
  have hname : m.name ∈ e.trees.map Prod.fst := by
    rw [hnames]
    exact List.mem_map_of_mem hmem
  have hsome : (e.trees.lookup m.name).isSome = true := by
    obtain ⟨p, hp, heq⟩ := List.mem_map.mp hname
    rw [List.lookup_isSome_iff]
    exact ⟨p, hp, by simp [heq]⟩
  obtain ⟨t, ht⟩ := Option.isSome_iff_exists.mp hsome
  have htree : e.tree m.name = .ok t := by simp only [Evaluator.tree, ht]
  obtain ⟨m', hm', harch', hname', htreeOf⟩ := tree_ok hc h htree
  rw [hc.eq_of_name hm' hm (harch'.trans harch.symm) hname'] at htreeOf
  exact ⟨t, htree, htreeOf⟩

/-- A measured metric has the layout of its block. -/
theorem layout_of_measured (hc : c.Numbered) (h : ofCatalog c architecture = .ok e) (hm : c.Holds m)
    (harch : m.architecture = architecture) (hmeasured : m.isDerived = false) :
    e.layout m.name = .ok (metricLayout c m) := by
  obtain ⟨t, ht, htree⟩ := tree_of_holds hc h hm harch
  obtain ⟨n, rfl⟩ := htree.measured hmeasured
  have hlaid : n.layout = metricLayout c m := htree.laid
  unfold Evaluator.layout
  rw [ht]
  show Except.ok n.layout = _
  rw [hlaid]

end Evaluator

end PerfCounters
