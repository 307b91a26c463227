import PerfCounters.Proofs.Catalog.Histories
import PerfCounters.Proofs.Documents.Positions

/-! How many instances a metric has. The axes of a block stand in the order of the slots, since a table is in the order
    of its keys, and inference only ever takes axes away. So every layout has seven axes at the most, of at most 64
    positions each, and the number of its cells fits a machine word. -/

namespace PerfCounters

/-- Dimensions in ascending order, all of which have a slot, stand as their slots do. -/
theorem Dimension.sublist_slotted {ds : List Dimension} (h : ds.Pairwise fun d d' => d.index < d'.index)
    (hslotted : ∀ d ∈ ds, d ≠ .none) : ds.Sublist slotted := by
  have hasymm : Std.Antisymm fun d d' : Dimension => d.index < d'.index :=
    ⟨fun _ _ hlt hgt => absurd hgt (Nat.lt_asymm hlt)⟩
  have hsub : ds ⊆ slotted := fun d hd => mem_slotted_iff.mpr (hslotted d hd)
  exact List.sublist_of_subperm_of_pairwise ((nodup_of_ascending h).subperm hsub) h (by decide)

namespace Layout

variable {l : Layout}

/-- A layout that a metric may have. -/
structure Slotted (l : Layout) : Prop where
  nonempty : l ≠ []
  inOrder : (l.map Axis.dimension).Sublist Dimension.slotted
  sizes : ∀ a ∈ l, 1 ≤ a.size ∧ a.size ≤ maxAxisSize

theorem slotted_scalar : Slotted scalar := ⟨by decide, by decide, by decide⟩

theorem slotted_orScalar (hdims : (l.map Axis.dimension).Sublist Dimension.slotted)
    (hsizes : ∀ a ∈ l, 1 ≤ a.size ∧ a.size ≤ maxAxisSize) : Slotted (orScalar l) := by
  unfold orScalar
  split
  · exact slotted_scalar
  · rename_i hempty
    exact ⟨fun hnil => hempty (by rw [hnil]; rfl), hdims, hsizes⟩

theorem Slotted.without (h : l.Slotted) (removed : Dimension → Bool) : (l.without removed).Slotted :=
  slotted_orScalar ((List.filter_sublist.map _).trans h.inOrder) fun a ha => h.sizes a (List.mem_filter.mp ha).1

theorem Slotted.proper (h : l.Slotted) : l.Proper := by
  refine ⟨fun a ha => encodable_iff.mpr ⟨?_, h.sizes a ha⟩, h.inOrder.nodup (by decide)⟩
  exact Dimension.mem_slotted_iff.mp (h.inOrder.subset (List.mem_map_of_mem ha))

theorem Slotted.count_eq (h : l.Slotted) : l.count = (l.map Axis.size).prod := by
  rw [count_eq_prod]
  refine congrArg List.prod (List.map_congr_left fun a ha => ?_)
  exact Nat.max_eq_left (h.sizes a ha).1

end Layout

namespace Catalog

variable {c : Catalog}

/-- The layout of a block that was accepted, before one without axes is made a scalar. -/
theorem axes_inOrder {architecture block : String} {sizes : List (Dimension × Nat)} {l : Layout}
    (hsizes : DefinitionDocument.InOrder sizes) (h : DefinitionDocument.axes architecture block sizes = .ok l) :
    (l.map Axis.dimension).Sublist Dimension.slotted := by
  obtain ⟨hproper, hdims⟩ := DefinitionDocument.axes_ok (Dimension.nodup_of_ascending hsizes) h
  refine Dimension.sublist_slotted (hdims ▸ hsizes) fun d hd => ?_
  obtain ⟨a, ha, rfl⟩ := List.mem_map.mp hd
  exact (Layout.encodable_iff.mp (hproper.encodable a ha)).1

theorem inOrder_of_ofText {text : String} (h : ofText text = .ok c) :
    c.EachLayout fun l => (l.map Axis.dimension).Sublist Dimension.slotted := by
  obtain ⟨d, hordered, hd⟩ := exists_document h
  exact DefinitionDocument.layouts_of_catalog (P := fun l => (l.map Axis.dimension).Sublist Dimension.slotted)
    (fun p hp q hq l hl => axes_inOrder (hordered p hp q hq) hl) hd

theorem slotted_metricLayout {text : String} (h : ofText text = .ok c) (m : Metric) : (Tree.metricLayout c m).Slotted := by
  have hinOrder := inOrder_of_ofText h
  have hproper := (ofText_ok h).1.proper
  unfold Tree.metricLayout blockLayout
  split
  · exact Layout.slotted_scalar
  · split
    · rename_i l hl
      have hencodable := (hproper m.architecture m.block l hl).encodable
      exact Layout.slotted_orScalar (hinOrder m.architecture m.block l hl)
        fun a ha => (Layout.encodable_iff.mp (hencodable a ha)).2
    · exact Layout.slotted_scalar

theorem exists_evaluator_of_ofText {text : String} (h : ofText text = .ok c) (architecture : String) :
    ∃ e, Evaluator.ofCatalog c architecture = .ok e := by
  by_cases harch : architecture ∈ c.architectures
  · exact (ofText_ok h).2 architecture harch
  · have hnone : c.metricsOf architecture = [] := by
      refine List.filter_eq_nil_iff.mpr fun m hm heq => harch ?_
      rw [mem_architectures, (ofText_ok h).1.built.numbered.mem_ids]
      exact ⟨m, hm, beq_iff_eq.mp heq⟩
    exact ⟨⟨c, architecture, []⟩, by rw [Evaluator.ofCatalog, hnone]; rfl⟩

end Catalog

namespace Evaluator

/-- The results of every metric are laid out over some axes, one at the least, in the order of their slots, and as many as
    the product of the sizes says. -/
theorem instanceCount_of_loaded {text : String} {c : Catalog} (h : Catalog.ofText text = .ok c) (architecture : String) :
    ∃ e, ofCatalog c architecture = .ok e ∧ ∀ m ∈ c.metricsOf architecture, ∃ l, e.layout m.name = .ok l ∧
      l ≠ [] ∧ (l.map Axis.dimension).Sublist Dimension.slotted ∧ (∀ a ∈ l, 1 ≤ a.size ∧ a.size ≤ 64) ∧
      (l.map Axis.size).prod < 2 ^ 64 ∧ e.instanceCount m.name = .ok (l.map Axis.size).prod := by
  obtain ⟨e, he⟩ := Catalog.exists_evaluator_of_ofText h architecture
  refine ⟨e, he, fun m hm => ?_⟩
  have hnumbered := (Catalog.ofText_ok h).1.built.numbered
  obtain ⟨hholds, harch⟩ := holds_of_mem_metricsOf hnumbered hm
  obtain ⟨t, ht, htree⟩ := tree_of_holds hnumbered he hholds harch
  have hslotted : t.layout.Slotted := Tree.layout_of_laid Layout.slotted_scalar (fun _ removed hl => hl.without removed)
    htree.laid fun x _ => Catalog.slotted_metricLayout h x
  have hlayout := layout_of_tree ht
  have hcount := hslotted.count_eq
  refine ⟨t.layout, hlayout, hslotted.nonempty, hslotted.inOrder, hslotted.sizes, ?_, ?_⟩
  · rw [← hcount]
    exact Layout.count_lt hslotted.proper
  · rw [← hcount]
    exact instanceCount_ok hlayout hslotted.proper

/-- The share of each of four instances has as many results as its two axes say. -/
theorem share_counts_four : ∃ c e m, Catalog.ofText FourInstances.text = .ok c ∧ ofCatalog c "g" = .ok e ∧
    m ∈ c.metricsOf "g" ∧ m.name = "D" ∧ e.layout "D" = .ok FourInstances.square ∧
    (FourInstances.square.map Axis.dimension).Sublist Dimension.slotted ∧ e.instanceCount "D" = .ok 4 := by
  obtain ⟨c, e, htext, -, he, h⟩ := FourInstances.exists_evaluator
  obtain ⟨-, ht, -⟩ := h ("D", [FourInstances.b], FourInstances.share) (List.mem_cons_of_mem _ List.mem_cons_self)
  obtain ⟨m, hholds, harch, hname, -⟩ := tree_ok (Catalog.ofText_ok htext).1.built.numbered he ht
  have hm : m ∈ c.metricsOf "g" := Catalog.mem_metricsOf.mpr ⟨Catalog.mem_of_byId? hholds, harch⟩
  obtain ⟨e', he', hall⟩ := instanceCount_of_loaded htext "g"
  cases he.symm.trans he'
  obtain ⟨l, hl, -, hinOrder, -, -, hcount⟩ := hall m hm
  rw [hname] at hl hcount
  cases (layout_of_tree ht).symm.trans hl
  exact ⟨c, e, m, htext, he, hm, hname, hl, hinOrder, hcount⟩

end Evaluator

end PerfCounters
