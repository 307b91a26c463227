import PerfCounters.Proofs.Documents.Loading
import PerfCounters.Proofs.Trees.Coverage
import PerfCounters.Proofs.Trees.Filling

/-! The positions of results. Where the samples of every required metric are laid out over its layout, a metric
    whose tree fills its layout is evaluated to one sample at each cell of its own layout, row by row. -/

namespace PerfCounters

open InstanceId
open PerfCounters.Parser (bind_eq_ok)

namespace Evaluator

open PerfCounters.Tree

variable {c : Catalog} {architecture name : String} {e : Evaluator} {ms : List Metric} {m : Metric} {t : Tree}
  {base : BaseSamples}

/-- Each of these metrics has samples, one for each value of a list as long as its layout is large, laid out
    over that layout. -/
def LaidOut (e : Evaluator) (base : BaseSamples) (ms : List Metric) : Prop :=
  ∀ m ∈ ms, ∃ l values records, e.layout m.name = .ok l ∧ values.length = l.count ∧
    Sample.layOut m.id l values = .ok records ∧ base.get? m.id = some records

/-- The ids of the samples of a measured metric. -/
def metricIds (c : Catalog) (m : Metric) : List InstanceId := (metricLayout c m).ids (zero.withCounter m.id)

theorem leafIds_of_laidOut (hc : DefinitionDocument.Sound c) (he : ofCatalog c architecture = .ok e)
    (hbase : LaidOut e base ms) (hm : m ∈ ms) (hholds : c.Holds m) (harch : m.architecture = architecture)
    (hmeasured : m.isDerived = false) : leafIds base m = .ok (metricIds c m) := by
  obtain ⟨l, values, records, hl, hlen, hlaid, hget⟩ := hbase m hm
  have hproper := Catalog.proper_metricLayout hc.proper m
  have hlayout := layout_of_measured hc.built.numbered he hholds harch hmeasured
  rw [hl] at hlayout
  cases hlayout
  obtain ⟨records', hlaid', hids⟩ := Layout.layOut_ok hproper (hc.built.numbered.id_le hholds) hlen
  rw [hlaid] at hlaid'
  cases hlaid'
  unfold leafIds leaf
  rw [hget]
  exact congrArg Except.ok hids

/-- There are samples of these metrics only. -/
def Only (base : BaseSamples) (ms : List Metric) : Prop := ∀ id, (∀ m ∈ ms, m.id ≠ id) → base.get? id = none

/-- Samples can be laid out for any measured metrics. -/
theorem exists_laidOut (hc : DefinitionDocument.Sound c) (he : ofCatalog c architecture = .ok e)
    (hms : ∀ m ∈ ms, c.Holds m ∧ m.architecture = architecture ∧ m.isDerived = false) :
    ∃ base, LaidOut e base ms ∧ Only base ms := by
  induction ms with
  | nil => exact ⟨[], fun m hm => (by cases hm), fun id _ => rfl⟩
  | cons m ms ih =>
    obtain ⟨base, hbase, honly⟩ := ih fun x hx => hms x (List.mem_cons_of_mem _ hx)
    obtain ⟨hholds, harch, hmeasured⟩ := hms m List.mem_cons_self
    have hlayout := layout_of_measured hc.built.numbered he hholds harch hmeasured
    have hlen : (List.replicate (metricLayout c m).count (0 : Float)).length = (metricLayout c m).count :=
      List.length_replicate
    obtain ⟨records, hrecords, -⟩ := Layout.layOut_ok (Catalog.proper_metricLayout hc.proper m)
      (hc.built.numbered.id_le hholds) hlen
    refine ⟨base.set m.id records, fun x hx => ?_, fun id hid => ?_⟩
    · by_cases heq : x.id = m.id
      · rw [(hms x hx).1.eq_of_id hholds heq]
        exact ⟨_, _, records, hlayout, hlen, hrecords, by rw [BaseSamples.get?_set, if_pos rfl]⟩
      · rcases List.mem_cons.mp hx with rfl | hx
        · exact absurd rfl heq
        · obtain ⟨l, values, records', hl, hlen, hlaid, hget⟩ := hbase x hx
          exact ⟨l, values, records', hl, hlen, hlaid, by rw [BaseSamples.get?_set, if_neg heq, hget]⟩
    · rw [BaseSamples.get?_set, if_neg (Ne.symm (hid m List.mem_cons_self))]
      exact honly id fun x hx => hid x (List.mem_cons_of_mem _ hx)

/-- The ids of what is read of a metric: a derived metric has no samples. -/
def readIds (c : Catalog) (m : Metric) : Except EvalError (List InstanceId) :=
  if m.isDerived then .error (.missingBaseCounter m.name m.id) else .ok (metricIds c m)

theorem readIds_ok {ids : List InstanceId} (h : readIds c m = .ok ids) (hm : m.id ≤ maxCounterId) :
    ∃ o, o.Origin ∧ ids = (metricLayout c m).ids o := by
  unfold readIds at h
  split at h
  · cases h
  · cases h
    exact ⟨_, origin_zero.withCounter hm, rfl⟩

theorem leafIds_eq_readIds (hc : DefinitionDocument.Sound c) (he : ofCatalog c architecture = .ok e)
    (hflat : t.Flat c architecture) (hbase : LaidOut e base ms)
    (hmeasured : ∀ x ∈ t.leaves, x.isDerived = false → x ∈ ms)
    (hothers : ∀ x ∈ t.leaves, x.isDerived = true → base.get? x.id = none) :
    ∀ x ∈ t.leaves, leafIds base x = readIds c x := by
  intro x hx
  obtain ⟨hholds, harch⟩ := hflat.known x hx
  unfold readIds
  cases hderived : x.isDerived with
  | false =>
    rw [leafIds_of_laidOut hc he hbase (hmeasured x hx hderived) hholds harch hderived]
    rfl
  | true =>
    unfold leafIds leaf
    rw [hothers x hx hderived]
    rfl

/-- The samples of a value are those that the layouts of the catalog say, or it fails as they say. -/
theorem map_ids_value_of_laidOut (hc : DefinitionDocument.Sound c) (he : ofCatalog c architecture = .ok e)
    (hflat : t.Flat c architecture) (hbase : LaidOut e base ms)
    (hmeasured : ∀ x ∈ t.leaves, x.isDerived = false → x ∈ ms)
    (hothers : ∀ x ∈ t.leaves, x.isDerived = true → base.get? x.id = none) :
    (t.value base).map Records.ids = t.shape (readIds c) := by
  rw [map_ids_value hflat.bounded, shape_congr (leafIds_eq_readIds hc he hflat hbase hmeasured hothers)]

theorem reads_readIds (hc : DefinitionDocument.Sound c) (hflat : t.Flat c architecture) (hlaid : t.Laid c) :
    Reads c (readIds c) t where
  laid := hlaid
  metrics x _ := Catalog.proper_metricLayout hc.proper x
  bounded := hflat.bounded
  origin x hx _ hread := readIds_ok hread (hc.built.numbered.id_le (hflat.known x hx).1)

theorem instanceCount_ok {l : Layout} (hl : e.layout name = .ok l) (hproper : l.Proper) :
    e.instanceCount name = .ok l.count := by
  have hlt : l.count < Nat.pow 2 64 := Layout.count_lt hproper
  unfold instanceCount
  rw [hl]
  show (if l.count < Nat.pow 2 64 then _ else _) = _
  rw [if_pos hlt]
  rfl

theorem layout_of_tree (ht : e.tree name = .ok t) : e.layout name = .ok t.layout := by
  unfold layout
  rw [ht]
  rfl

theorem enumerates_of_ids {l : Layout} {o : InstanceId} {rs : Records Float} (hl : l.Proper) (ho : o.Origin)
    (hids : rs.ids = l.ids o) : rs.length = l.count ∧ List.Forall₂ (fun r cell => Layout.At r.id cell) rs l.cells ∧
      (rs.map fun r => Dimension.slotted.map r.id.position).Nodup := by
  have hids : rs.map (fun r => r.id) = l.ids o := hids
  refine ⟨?_, ?_, ?_⟩
  · rw [← Layout.length_ids hl o, ← hids, List.length_map]
  · have hcells := Layout.at_cells_ids hl ho
    rw [← hids, List.forall₂_map_left_iff] at hcells
    exact hcells
  · have hnodup := Layout.nodup_positions_ids hl ho
    rw [← hids, List.map_map] at hnodup
    exact hnodup

/-- The ids of the samples that evaluation answers follow from the catalog. Where the tree fills its layout they
    are at its cells, row by row, and no two at one cell. -/
theorem evaluate_enumerates_cells {text : String} (hc : Catalog.ofText text = .ok c)
    (harch : architecture ∈ c.architectures) :
    ∃ e, ofCatalog c architecture = .ok e ∧ ∀ name t ms acc base, e.tree name = .ok t → e.required name = .ok ms →
      e.accumulated name = .ok acc → LaidOut e base ms →
      (∀ p ∈ acc, p.1.isDerived = true → base.get? p.1.id = none) →
        (e.evaluate name base).map Records.ids = t.shape (readIds c) ∧
        (t.Fills .exact → ∀ rs, e.evaluate name base = .ok rs →
          ∃ l, e.layout name = .ok l ∧ e.instanceCount name = .ok rs.length ∧
            List.Forall₂ (fun r cell => Layout.At r.id cell) rs l.cells ∧
            (rs.map fun r => Dimension.slotted.map r.id.position).Nodup) := by
  obtain ⟨hsound, hevaluators⟩ := Catalog.ofText_ok hc
  obtain ⟨e, he⟩ := hevaluators architecture harch
  refine ⟨e, he, fun name t ms acc base ht hms hacc hbase hothers => ?_⟩
  obtain ⟨m, t', rfl, ht', htree, -, hmeasured⟩ := required_ok hsound.built.numbered he hms
  rw [ht] at ht'
  cases ht'
  rw [accumulated, ht] at hacc
  cases hacc
  have hmissing : ∀ x ∈ t.leaves, x.isDerived = true → base.get? x.id = none := by
    intro x hx hderived
    obtain ⟨p, hp, rfl⟩ := exists_accumulated_of_derived htree.flat hx hderived
    exact hothers p hp hderived
  have hshape := map_ids_value_of_laidOut hsound he htree.flat hbase hmeasured hmissing
  rw [evaluate_of_tree ht]
  refine ⟨hshape, fun hfills rs hrs => ?_⟩
  rw [hrs] at hshape
  have hreads := reads_readIds hsound htree.flat htree.laid
  obtain ⟨o, ho, hfilled⟩ := exists_filled hreads hfills hshape.symm
  obtain ⟨hlen, hcells, hnodup⟩ := enumerates_of_ids hreads.proper ho hfilled
  refine ⟨t.layout, layout_of_tree ht, ?_, hcells, hnodup⟩
  rw [instanceCount_ok (layout_of_tree ht) hreads.proper, hlen]

/-! ### Two blocks of four instances -/

namespace FourInstances

/-- A block with one axis, a block with two, a sum over both, the share of each instance, and its share of the
    mean along one axis. -/
def text : String :=
  "blocks: \x7bg: \x7bS: \x7bDIMENSION_INSTANCE: 4\x7d, T: \x7bDIMENSION_XCC: 2, DIMENSION_AID: 2\x7d\x7d\x7d\n" ++
    "metrics: [\x7bname: A, architectures: \x7bg: \x7bblock: S\x7d\x7d\x7d, " ++
    "\x7bname: B, architectures: \x7bg: \x7bblock: T\x7d\x7d\x7d, " ++
    "\x7bname: C, architectures: \x7bg: \x7bexpression: A+B\x7d\x7d\x7d, " ++
    "\x7bname: D, architectures: \x7bg: \x7bexpression: 'B/reduce(B,sum)'\x7d\x7d\x7d, " ++
    "\x7bname: E, architectures: \x7bg: \x7bexpression: 'B/reduce(B,avg,[DIMENSION_AID])'\x7d\x7d\x7d]"

def document : DefinitionDocument where
  blocks := [("g", [("S", [(.inst, 4)]), ("T", [(.xcc, 2), (.aid, 2)])])]
  metrics := [⟨"A", "", [("g", { block := "S" })]⟩, ⟨"B", "", [("g", { block := "T" })]⟩,
    ⟨"C", "", [("g", { expression := "A+B" })]⟩, ⟨"D", "", [("g", { expression := "B/reduce(B,sum)" })]⟩,
    ⟨"E", "", [("g", { expression := "B/reduce(B,avg,[DIMENSION_AID])" })]⟩]

def line : Layout := [⟨.inst, 4⟩]

def square : Layout := [⟨.xcc, 2⟩, ⟨.aid, 2⟩]

def a : Metric := { name := "A", architecture := "g", block := "S", id := 1 }

def b : Metric := { name := "B", architecture := "g", block := "T", id := 2 }

def readA : Tree := .reference ⟨line, none⟩ a

def readB : Tree := .reference ⟨square, none⟩ b

def sum : Tree := .binary ⟨square, some 3⟩ .add readA readB

def share : Tree := .binary ⟨square, some 4⟩ .div readB (.reduce ⟨Layout.scalar, none⟩ readB .sum [])

def shareOfMean : Tree := .binary ⟨square, some 5⟩ .div readB (.reduce ⟨[⟨.xcc, 2⟩], none⟩ readB .avg [.aid])

set_option maxRecDepth 20000 in
theorem ofText?_text : DefinitionDocument.ofText? text = some document := by
  unfold DefinitionDocument.ofText? Yaml.Document.ofText? Yaml.Token.ofText? Yaml.Glyph.ofText? text
  simp only [String.toList_append, String.reduceToList]
  decide +kernel

/-- What is read: four samples along one axis, four along two. -/
def ids (m : Metric) : Except EvalError (List InstanceId) :=
  .ok (if m = a then line.ids (zero.withCounter 1) else square.ids (zero.withCounter 2))

theorem eval_document : (do
    let c ← document.catalog
    return (c.occurring, do
      let e ← ofCatalog c "g"
      return (← e.layout "A", ← e.layout "B", ← e.required "C", ← e.tree "C", ← e.required "D", ← e.tree "D",
        ← e.required "E", ← e.tree "E"))) =
    .ok (["g"], .ok (line, square, [a, b], sum, [b], share, [b], shareOfMean)) := by
  rw [DefinitionDocument.catalog_eq]
  cbv

theorem ofText_text : ∃ c e, Catalog.ofText text = .ok c ∧ "g" ∈ c.architectures ∧ ofCatalog c "g" = .ok e ∧
    e.layout "A" = .ok line ∧ e.layout "B" = .ok square ∧
    ∀ p ∈ [("C", [a, b], sum), ("D", [b], share), ("E", [b], shareOfMean)],
      e.required p.1 = .ok p.2.1 ∧ e.tree p.1 = .ok p.2.2 := by
  obtain ⟨c, hc, h⟩ := bind_eq_ok eval_document
  obtain ⟨harchs, h⟩ := Prod.mk.inj (Except.ok.inj h)
  obtain ⟨e, he, h⟩ := bind_eq_ok h
  obtain ⟨la, hla, h⟩ := bind_eq_ok h
  obtain ⟨lb, hlb, h⟩ := bind_eq_ok h
  obtain ⟨rc, hrc, h⟩ := bind_eq_ok h
  obtain ⟨tc, htc, h⟩ := bind_eq_ok h
  obtain ⟨rd, hrd, h⟩ := bind_eq_ok h
  obtain ⟨td, htd, h⟩ := bind_eq_ok h
  obtain ⟨re, hre, h⟩ := bind_eq_ok h
  obtain ⟨te, hte, h⟩ := bind_eq_ok h
  cases h
  refine ⟨c, e, (Catalog.ofText_of_document ofText?_text).trans hc, ?_, he, hla, hlb, ?_⟩
  · rw [DefinitionDocument.architectures_of_catalog hc, harchs]
    exact List.mem_cons_self
  · simp only [List.forall_mem_cons]
    exact ⟨⟨hrc, htc⟩, ⟨hrd, htd⟩, ⟨hre, hte⟩, fun p hp => (by cases hp)⟩

variable {c : Catalog} {e : Evaluator} {name : String} {ms : List Metric} {t : Tree}

theorem readIds_eq (hc : DefinitionDocument.Sound c) (he : ofCatalog c "g" = .ok e) (ha : e.layout "A" = .ok line)
    (hb : e.layout "B" = .ok square) {x : Metric} (hx : x = a ∨ x = b) (hholds : c.Holds x) : readIds c x = ids x := by
  have hmetric : ∀ {l}, x.architecture = "g" → x.isDerived = false → e.layout x.name = .ok l → metricLayout c x = l := by
    intro l harch hmeasured hl
    rw [layout_of_measured hc.built.numbered he hholds harch hmeasured] at hl
    exact Except.ok.inj hl
  unfold readIds metricIds
  rcases hx with rfl | rfl
  · rw [hmetric rfl (by decide) ha]
    rfl
  · rw [hmetric rfl (by decide) hb]
    rfl

/-- With samples for what is required, evaluation answers those of the shape. -/
theorem exists_samples (hc : DefinitionDocument.Sound c) (he : ofCatalog c "g" = .ok e) (ha : e.layout "A" = .ok line)
    (hb : e.layout "B" = .ok square) (hrequired : e.required name = .ok ms) (ht : e.tree name = .ok t)
    (hms : ∀ x ∈ ms, x = a ∨ x = b) (hleaves : ∀ x ∈ t.leaves, x = a ∨ x = b) :
    ∃ base, LaidOut e base ms ∧ Only base ms ∧ (e.evaluate name base).map Records.ids = t.shape ids := by
  obtain ⟨m, t', harch, ht', htree, hsound, hmeasured⟩ := required_ok hc.built.numbered he hrequired
  rw [ht] at ht'
  cases ht'
  have hnot : ∀ x, x = a ∨ x = b → x.architecture = "g" ∧ x.isDerived = false := by
    rintro x (rfl | rfl) <;> exact ⟨rfl, by decide⟩
  obtain ⟨base, hbase, honly⟩ := exists_laidOut hc he fun x hx => ⟨(hsound x hx).1, hnot x (hms x hx)⟩
  refine ⟨base, hbase, honly, ?_⟩
  rw [evaluate_of_tree ht, map_ids_value_of_laidOut hc he (harch ▸ htree.flat) hbase hmeasured fun x hx hderived => ?_]
  · exact shape_congr fun x hx =>
      readIds_eq hc he ha hb (hleaves x hx) (htree.flat.known x hx).1
  · rw [(hnot x (hleaves x hx)).2] at hderived
    cases hderived

theorem exists_evaluator : ∃ c e, Catalog.ofText text = .ok c ∧ "g" ∈ c.architectures ∧ ofCatalog c "g" = .ok e ∧
    ∀ p ∈ [("C", [a, b], sum), ("D", [b], share), ("E", [b], shareOfMean)],
      e.required p.1 = .ok p.2.1 ∧ e.tree p.1 = .ok p.2.2 ∧
        ∃ base, LaidOut e base p.2.1 ∧ Only base p.2.1 ∧ (e.evaluate p.1 base).map Records.ids = p.2.2.shape ids := by
  obtain ⟨c, e, htext, harch, he, ha, hb, h⟩ := ofText_text
  refine ⟨c, e, htext, harch, he, fun p hp => ?_⟩
  obtain ⟨hrequired, ht⟩ := h p hp
  have hread : ∀ p ∈ [("C", [a, b], sum), ("D", [b], share), ("E", [b], shareOfMean)],
      (∀ x ∈ p.2.1, x = a ∨ x = b) ∧ ∀ x ∈ p.2.2.leaves, x = a ∨ x = b := by decide
  exact ⟨hrequired, ht, exists_samples (Catalog.ofText_ok htext).1 he ha hb hrequired ht (hread p hp).1 (hread p hp).2⟩

/-- Arithmetic keeps the positions of its left operand, along another axis than those that it is said to have. -/
theorem sum_not_at_cells : ∃ c e l base rs, Catalog.ofText text = .ok c ∧ "g" ∈ c.architectures ∧ ofCatalog c "g" = .ok e ∧
    e.required "C" = .ok [a, b] ∧ LaidOut e base [a, b] ∧ Only base [a, b] ∧ e.evaluate "C" base = .ok rs ∧
    e.layout "C" = .ok l ∧ ¬ List.Forall₂ (fun r cell => Layout.At r.id cell) rs l.cells := by
  obtain ⟨c, e, htext, harch, he, h⟩ := exists_evaluator
  obtain ⟨hrequired, ht, base, hbase, honly, hrs⟩ := h ("C", [a, b], sum) List.mem_cons_self
  have hshape : sum.shape ids = .ok ((line.ids (zero.withCounter 1)).map (withCounter 3)) := rfl
  rw [hshape] at hrs
  obtain ⟨rs, heval, hids⟩ := map_eq_ok hrs
  refine ⟨c, e, square, base, rs, htext, harch, he, hrequired, hbase, honly, heval, layout_of_tree ht, fun hcells => ?_⟩
  have hcells : List.Forall₂ Layout.At (Records.ids rs) square.cells := List.forall₂_map_left_iff.mpr hcells
  rw [hids] at hcells
  -- The second sample is the second instance, not the second position along the last axis.
  have hinst := hcells.get (i := 1) (by decide) (by decide) .inst (by decide)
  revert hinst
  decide

theorem share_at_cells : ∃ c e t ms acc base rs l, Catalog.ofText text = .ok c ∧ "g" ∈ c.architectures ∧
    ofCatalog c "g" = .ok e ∧ e.tree "D" = .ok t ∧ e.required "D" = .ok ms ∧ e.accumulated "D" = .ok acc ∧
    LaidOut e base ms ∧ (∀ p ∈ acc, p.1.isDerived = true → base.get? p.1.id = none) ∧ t.Fills .exact ∧
    e.evaluate "D" base = .ok rs ∧ rs.length = 4 ∧ e.layout "D" = .ok l ∧
    List.Forall₂ (fun r cell => Layout.At r.id cell) rs l.cells := by
  obtain ⟨c, e, htext, harch, he, h⟩ := exists_evaluator
  obtain ⟨hrequired, ht, base, hbase, honly, hrs⟩ := h ("D", [b], share) (List.mem_cons_of_mem _ List.mem_cons_self)
  have hshape : share.shape ids = .ok ((square.ids (zero.withCounter 2)).map (withCounter 4)) := rfl
  rw [hshape] at hrs
  obtain ⟨rs, heval, hids⟩ := map_eq_ok hrs
  have hacc : e.accumulated "D" = .ok [] := by
    rw [accumulated, ht]
    rfl
  have hothers : ∀ p ∈ ([] : List (Metric × AccumulateMode)), p.1.isDerived = true → base.get? p.1.id = none :=
    fun p hp => (by cases hp)
  have hfills : share.Fills .exact := by
    show if square.count = 1 then _ else readB.Fills .exact ∧ square.Alike square
    rw [if_neg (by decide)]
    exact ⟨trivial, by decide⟩
  obtain ⟨e', he', hall⟩ := evaluate_enumerates_cells htext harch
  rw [he] at he'
  cases he'
  obtain ⟨l, hl, hcount, hcells, -⟩ := (hall "D" share [b] [] base ht hrequired hacc hbase hothers).2 hfills rs heval
  have hlen : rs.length = 4 := by
    rw [← Records.length_ids, hids]
    rfl
  exact ⟨c, e, share, [b], [], base, rs, l, htext, harch, he, ht, hrequired, hacc, hbase, hothers, hfills, heval, hlen, hl,
    hcells⟩

end FourInstances

end Evaluator

end PerfCounters
