import PerfCounters.Proofs.Trees.Counters
import PerfCounters.Proofs.Trees.Coverage

/-! Inlined evaluation against evaluation in stages. A derived metric may be evaluated from the results of the
    derived metrics that it refers to, as if these had been measured. The results bear their own numbers
    then, where inlined definitions would leave those of measured metrics; nothing else is different, and the
    number of the metric itself covers the difference. -/

namespace PerfCounters

open PerfCounters.Parser (bind_eq_ok)
open Records (Twins mark)

/-- All samples of a metric bear the same counter number. -/
def BaseSamples.Uniform (base : BaseSamples) : Prop :=
  ∀ id records, base.get? id = some records → ∀ r ∈ records, ∀ r' ∈ records, r.id.counter = r'.id.counter

theorem Records.twins_self {α : Type} {rs : Records α} (h : ∀ r ∈ rs, ∀ r' ∈ rs, r.id.counter = r'.id.counter) :
    Twins rs rs := by
  cases rs with
  | nil => exact Twins.self (Nat.zero_le _) (mark_eq_self fun r hr => (by cases hr))
  | cons first rest =>
    have hmark := mark_eq_self fun r hr => h r hr first List.mem_cons_self
    exact Twins.self (InstanceId.counter_le first.id) hmark

namespace Tree

variable {c : Catalog} {architecture : String} {base stage : BaseSamples} {t t' : Tree} {m : Metric} {k : Nat}

/-- Both fail alike, or their samples differ in counter numbers only. -/
inductive Agree : Except EvalError (Records Float) → Except EvalError (Records Float) → Prop where
  | ok {rs rs'} (h : Twins rs rs') : Agree (.ok rs) (.ok rs')
  | error {e} : Agree (.error e) (.error e)

theorem Agree.bind {x x' : Except EvalError (Records Float)} {f f' : Records Float → Except EvalError (Records Float)}
    (h : Agree x x') (hf : ∀ rs rs', Twins rs rs' → Agree (f rs) (f' rs')) : Agree (x >>= f) (x' >>= f') := by
  cases h with
  | ok h => exact hf _ _ h
  | error => exact .error

theorem agree_combine {l l' r r' : Records Float} (hl : Twins l l') (hr : Twins r r') (op : BinaryOp) :
    Agree (combine op l r) (combine op l' r') := by
  unfold combine
  rcases hl.zipValues? hr op.apply with ⟨h, h'⟩ | ⟨o, o', h, h', ho⟩
  · rw [h, h', hl.length_eq, hr.length_eq]
    exact .error
  · rw [h, h']
    exact .ok ho

theorem agree_leaf (hbase : base.Uniform) (h : stage.get? m.id = base.get? m.id) : Agree (leaf base m) (leaf stage m) := by
  unfold leaf
  rw [h]
  cases hget : base.get? m.id with
  | none => exact .error
  | some records => exact .ok (Records.twins_self (hbase m.id records hget))

theorem retag_of_none {n : Note} (h : n.outId = none) : retag n = Except.ok := by
  funext records
  rw [retag, h]

theorem retag_of_some {n : Note} (h : n.outId = some k) (hk : k ≤ maxCounterId) (records : Records Float) :
    retag n records = .ok (records.mark k) := by
  rw [retag, h]
  exact congrArg (Except.mapError EvalError.dimension) (Records.tag_eq_ok hk records)

/-! ### Inlined definitions -/

/-- A tree that refers to measured metrics only is inlined already. -/
theorem Inlines.refl (h : ∀ m ∈ t.references, m.isDerived = false) : Inlines c t t := by
  induction t with
  | number n v => exact .number
  | reference n m => exact .measured (h m List.mem_cons_self)
  | accumulate n m mode => exact .accumulate
  | binary n op lhs rhs ihl ihr =>
    exact .binary (ihl fun m hm => h m (List.mem_append_left _ hm)) (ihr fun m hm => h m (List.mem_append_right _ hm))
  | reduce n child op ds ih => exact .reduce (ih h)
  | select n child filters ih => exact .select (ih h)

theorem inPlaceOf_of_none {n : Note} (h : n.outId = none) (t : Tree) : t.inPlaceOf n = t := by
  rw [inPlaceOf, h]

theorem outIds_ofMetric (hc : c.Numbered) (h : ofMetric c m = .ok t) : t.outIds = [] := by
  cases hderived : m.isDerived with
  | true =>
    obtain ⟨e, -, hexpr⟩ := ofMetric_derived h hderived
    exact (ofExpr_ok hc hexpr).2
  | false =>
    cases (ofMetric_measured hderived).symm.trans h
    rfl

theorem outId_eq_none (h : t.outIds = []) : t.note.outId = none := by
  cases t <;> simp_all [outIds, outId, note]

theorem outIds_left {n : Note} {op : BinaryOp} {lhs rhs : Tree} (h : (binary n op lhs rhs).outIds = []) :
    lhs.outIds = [] ∧ rhs.outIds = [] := by
  simp only [outIds, List.append_eq_nil_iff] at h
  exact h.2

theorem outIds_reduced {n : Note} {child : Tree} {op : ReduceOp} {ds : List Dimension}
    (h : (reduce n child op ds).outIds = []) : child.outIds = [] :=
  (List.append_eq_nil_iff.mp h).2

theorem outIds_selected {n : Note} {child : Tree} {filters : Filters} (h : (select n child filters).outIds = []) :
    child.outIds = [] :=
  (List.append_eq_nil_iff.mp h).2

/-- No numbers are noted in inlined definitions. -/
theorem Inlines.outIds (hc : c.Numbered) (h : Inlines c t t') (hout : t.outIds = []) : t'.outIds = [] := by
  induction h with
  | number | accumulate | measured => exact hout
  | @derived n m _ _ _ definition _ ih =>
    have hnone : n.outId = none := outId_eq_none hout
    rw [inPlaceOf_of_none hnone]
    exact ih (outIds_ofMetric hc definition)
  | binary _ _ ihl ihr =>
    simp only [Tree.outIds, outId, note, List.append_eq_nil_iff] at hout ⊢
    exact ⟨hout.1, ihl hout.2.1, ihr hout.2.2⟩
  | reduce _ ih | select _ ih =>
    simp only [Tree.outIds, outId, note, List.append_eq_nil_iff] at hout ⊢
    exact ⟨hout.1, ih hout.2⟩

/-- The inlined tree agrees with the tree itself, if what stands for each metric agrees with its inlined definition. -/
theorem Inlines.agree (h : Inlines c t t') (hout : t.outIds = [])
    (hmeasured : ∀ m ∈ t.references, m.isDerived = false → Agree (leaf base m) (leaf stage m))
    (hderived : ∀ m ∈ t.references, m.isDerived = true → ∀ t t', ofMetric c m = .ok t → Inlines c t t' →
      Agree (t'.value base) (leaf stage m))
    (haccumulated : ∀ m ∈ t.accumulands, Agree (leaf base m) (leaf stage m)) : Agree (t'.value base) (t.value stage) := by
  induction h with
  | @number n v =>
    have hnone : n.outId = none := outId_eq_none hout
    rw [value, value, retag_of_none hnone]
    exact .ok (Records.twins_self fun r hr r' hr' => by rw [List.mem_singleton.mp hr, List.mem_singleton.mp hr'])
  | @accumulate n m mode =>
    have hnone : n.outId = none := outId_eq_none hout
    rw [value, value, retag_of_none hnone]
    exact (haccumulated m List.mem_cons_self).bind fun _ _ => .ok
  | @measured n m hnot =>
    have hnone : n.outId = none := outId_eq_none hout
    rw [value, value, retag_of_none hnone]
    exact (hmeasured m List.mem_cons_self hnot).bind fun _ _ => .ok
  | @derived n m t t' hder definition inlined _ =>
    have hnone : n.outId = none := outId_eq_none hout
    rw [inPlaceOf_of_none hnone, value, retag_of_none hnone, ← bind_pure (t'.value base)]
    exact (hderived m List.mem_cons_self hder t t' definition inlined).bind fun _ _ => .ok
  | @binary n op _ _ _ _ _ _ ihl ihr =>
    have hnone : n.outId = none := outId_eq_none hout
    obtain ⟨houtl, houtr⟩ := outIds_left hout
    rw [value, value, retag_of_none hnone]
    refine (ihl houtl ?_ ?_ ?_).bind fun l l' hl => (ihr houtr ?_ ?_ ?_).bind fun r r' hr =>
      (agree_combine hl hr op).bind fun _ _ => .ok
    all_goals intro m hm
    · exact hmeasured m (List.mem_append_left _ hm)
    · exact hderived m (List.mem_append_left _ hm)
    · exact haccumulated m (List.mem_append_left _ hm)
    · exact hmeasured m (List.mem_append_right _ hm)
    · exact hderived m (List.mem_append_right _ hm)
    · exact haccumulated m (List.mem_append_right _ hm)
  | @reduce n _ _ op ds _ ih =>
    have hnone : n.outId = none := outId_eq_none hout
    rw [value, value, retag_of_none hnone]
    exact (ih (outIds_reduced hout) hmeasured hderived haccumulated).bind fun _ _ h => .ok (h.reduce op.reduction ds)
  | @select n _ _ filters _ ih =>
    have hnone : n.outId = none := outId_eq_none hout
    rw [value, value, retag_of_none hnone]
    exact (ih (outIds_selected hout) hmeasured hderived haccumulated).bind fun _ _ h => .ok (h.select filters)

/-- Where samples of each metric bear one number, so do all results. -/
theorem agree_self (hbase : base.Uniform) (hout : t.outIds = []) (hmeasured : ∀ m ∈ t.references, m.isDerived = false) :
    Agree (t.value base) (t.value base) := by
  refine (Inlines.refl (c := .empty) hmeasured).agree hout (fun m _ _ => agree_leaf hbase rfl) (fun m hm hderived => ?_)
    fun m _ => agree_leaf hbase rfl
  rw [hmeasured m hm] at hderived
  cases hderived

/-! ### Trees of an evaluator -/

/-- Inference changes no value. -/
theorem value_of_infer {l : Layout} (h : t.infer c = (t', .ok l)) : t'.value base = t.value base := by
  induction t generalizing t' l with
  | number n v | reference n m | accumulate n m mode =>
    cases h
    rfl
  | binary n op lhs rhs ihl ihr =>
    obtain ⟨lhs', ll, rhs', lr, hl, hr, -, rfl⟩ := infer_binary_ok h
    rw [value, value, ihl hl, ihr hr]
    rfl
  | reduce n child op ds ih =>
    obtain ⟨child', lc, hchild, -, rfl⟩ := infer_reduce_ok h
    rw [value, value, ih hchild]
    rfl
  | select n child filters ih =>
    obtain ⟨child', lc, hchild, -, rfl⟩ := infer_select_ok h
    rw [value, value, ih hchild]
    rfl

/-- The note on the root decides only how the results are tagged. -/
theorem exists_untagged (base : BaseSamples) (t : Tree) : ∃ x, ∀ n, (t.withNote n).value base = x >>= retag n := by
  cases t with
  | number n v => exact ⟨.ok (literal v), fun _ => rfl⟩
  | reference n m | accumulate n m mode => exact ⟨leaf base m, fun _ => rfl⟩
  | binary n op lhs rhs =>
    refine ⟨do combine op (← lhs.value base) (← rhs.value base), fun _ => ?_⟩
    simp only [withNote, value, bind_assoc]
  | reduce n child op ds =>
    refine ⟨do return (← child.value base).reduce op.reduction ds, fun _ => ?_⟩
    simp only [withNote, value, bind_assoc, pure_bind]
  | select n child filters =>
    refine ⟨do return (← child.value base).select filters, fun _ => ?_⟩
    simp only [withNote, value, bind_assoc, pure_bind]

theorem withNote_note (t : Tree) : t.withNote t.note = t := by cases t <;> rfl

/-- A number on the root goes to all results. -/
theorem value_setOutId (hnone : t.note.outId = none) (h : t.setOutId k = .ok t') :
    t'.value base = (t.value base).map (mark k) := by
  obtain ⟨hk, rfl⟩ := setOutId_ok h
  obtain ⟨x, hx⟩ := exists_untagged base t
  have hself := hx t.note
  rw [withNote_note, retag_of_none hnone] at hself
  rw [hself, hx]
  cases x with
  | error e => rfl
  | ok records => exact retag_of_some (n := { t.note with outId := some k }) rfl hk records

end Tree

open PerfCounters.Tree

namespace Evaluator

variable {c : Catalog} {architecture : String} {e : Evaluator} {m d : Metric} {t : Tree} {base : BaseSamples}

/-- The results of a metric are those of its inlined definition, under its own number. -/
theorem evaluate_of_inlined (hc : c.Numbered) (he : ofCatalog c architecture = .ok e) (hm : c.Holds m)
    (harch : m.architecture = architecture) : ∃ t t', ofMetric c m = .ok t ∧ Inlines c t t' ∧ m.id ≤ maxCounterId ∧
      ∀ base, e.evaluate m.name base = (t'.value base).map (mark m.id) := by
  obtain ⟨tree, htree, hof⟩ := tree_of_holds hc he hm harch
  obtain ⟨t', tagged, l, ⟨t, ht, hinlines⟩, hset, hinfer⟩ := hof.inlined
  refine ⟨t, t', ht, hinlines, (setOutId_ok hset).1, fun base => ?_⟩
  have hnone := outId_eq_none (hinlines.outIds hc (outIds_ofMetric hc ht))
  rw [evaluate_of_tree htree, value_of_infer hinfer, value_setOutId hnone hset]

/-- The base samples with the results of some metrics, as far as these can be evaluated. -/
def stage (e : Evaluator) (base : BaseSamples) : List Metric → BaseSamples
  | [] => base
  | m :: ms =>
    match e.evaluate m.name base with
    | .ok records => (stage e base ms).set m.id records
    | .error _ => stage e base ms

/-- The base samples with the results of every derived metric, as if it had been measured. -/
def staged (e : Evaluator) (base : BaseSamples) : BaseSamples :=
  e.stage base ((e.catalog.metricsOf e.architecture).filter Metric.isDerived)

theorem get?_stage_of_ne {ms : List Metric} {id : Nat} (h : ∀ x ∈ ms, x.id ≠ id) :
    (e.stage base ms).get? id = base.get? id := by
  induction ms with
  | nil => rfl
  | cons x ms ih =>
    obtain ⟨hx, hms⟩ := List.forall_mem_cons.mp h
    unfold stage
    split
    · rw [BaseSamples.get?_set, if_neg (Ne.symm hx), ih hms]
    · exact ih hms

theorem get?_stage_of_mem {ms : List Metric} (hm : m ∈ ms) (hids : ∀ x ∈ ms, x.id = m.id → x = m) {records : Records Float}
    (hok : e.evaluate m.name base = .ok records) : (e.stage base ms).get? m.id = some records := by
  induction ms with
  | nil => cases hm
  | cons x ms ih =>
    obtain ⟨hx, hms⟩ := List.forall_mem_cons.mp hids
    by_cases heq : x.id = m.id
    · rw [hx heq, stage, hok]
      show BaseSamples.get? (BaseSamples.set m.id records _) m.id = _
      rw [BaseSamples.get?_set, if_pos rfl]
    · have hmem : m ∈ ms := (List.mem_cons.mp hm).resolve_left fun h => heq (by rw [h])
      unfold stage
      split
      · rw [BaseSamples.get?_set, if_neg (Ne.symm heq), ih hmem hms]
      · exact ih hmem hms

theorem mem_derived (hc : c.Numbered) (he : ofCatalog c architecture = .ok e) :
    m ∈ (e.catalog.metricsOf e.architecture).filter Metric.isDerived ↔
      c.Holds m ∧ m.architecture = architecture ∧ m.isDerived = true := by
  obtain ⟨hcatalog, harch, -⟩ := ofCatalog_ok hc he
  rw [hcatalog, harch, List.mem_filter]
  constructor
  · rintro ⟨hm, hderived⟩
    exact ⟨(holds_of_mem_metricsOf hc hm).1, (holds_of_mem_metricsOf hc hm).2, hderived⟩
  · rintro ⟨hm, hmarch, hderived⟩
    exact ⟨Catalog.mem_metricsOf.mpr ⟨Catalog.mem_of_byId? hm, hmarch⟩, hderived⟩

theorem get?_staged_of_measured (hc : c.Numbered) (he : ofCatalog c architecture = .ok e) (hm : c.Holds m)
    (hmeasured : m.isDerived = false) : (e.staged base).get? m.id = base.get? m.id := by
  refine get?_stage_of_ne fun x hx hid => ?_
  obtain ⟨hholds, -, hderived⟩ := (mem_derived hc he).mp hx
  rw [hholds.eq_of_id hm hid, hmeasured] at hderived
  cases hderived

theorem get?_staged_of_derived (hc : c.Numbered) (he : ofCatalog c architecture = .ok e) (hm : c.Holds m)
    (harch : m.architecture = architecture) (hderived : m.isDerived = true) {records : Records Float}
    (hok : e.evaluate m.name base = .ok records) : (e.staged base).get? m.id = some records :=
  get?_stage_of_mem ((mem_derived hc he).mpr ⟨hm, harch, hderived⟩)
    (fun _ hx hid => ((mem_derived hc he).mp hx).1.eq_of_id hm hid) hok

/-- The result of a derived metric agrees with its inlined definition. -/
theorem agree_staged (hc : c.Numbered) (he : ofCatalog c architecture = .ok e) (hm : c.Holds m)
    (harch : m.architecture = architecture) (hderived : m.isDerived = true) (hbase : base.Uniform) {t' : Tree}
    (ht : ofMetric c m = .ok t) (hinlines : Inlines c t t') {records : Records Float}
    (hok : e.evaluate m.name base = .ok records) : Agree (t'.value base) (leaf (e.staged base) m) := by
  obtain ⟨_, _, ht', hinlines', hid, hvalue⟩ := evaluate_of_inlined hc he hm harch
  cases ht.symm.trans ht'
  cases hinlines.unique hinlines'
  have hself := agree_self hbase (hinlines.outIds hc (outIds_ofMetric hc ht))
    (hinlines.flat hc (ofMetric_ok hc hm ht)).measured
  have hmarked := hvalue base
  rw [hok] at hmarked
  unfold leaf
  rw [get?_staged_of_derived hc he hm harch hderived hok]
  cases hv : t'.value base with
  | error cause =>
    rw [hv] at hmarked
    cases hmarked
  | ok rs =>
    rw [hv] at hself hmarked
    cases hmarked
    cases hself with
    | ok htwins => exact .ok (htwins.marked hid)

/-- The marks that both get in the end make equal what agrees. -/
theorem map_mark_of_agree {x x' : Except EvalError (Records Float)} {k : Nat} (h : Agree x x') (hk : k ≤ maxCounterId) :
    x.map (mark k) = x'.map (mark k) := by
  cases h with
  | ok h => exact congrArg Except.ok (h.mark_eq hk)
  | error => rfl

/-- A metric that a definition accumulates is measured, if those are that are found to be accumulated. -/
theorem measured_of_accumulated (hknown : t.Known c architecture) (hacc : ∀ p ∈ t.accumulated [], p.1.isDerived = false)
    (hm : m ∈ t.accumulands) : m.isDerived = false := by
  obtain ⟨p, hp, hid⟩ := exists_accumulated hm []
  rcases mem_accumulated hp with hp' | hp'
  · cases hp'
  · rw [← (hknown.known p.1 hp').1.eq_of_id (hknown.known m (mem_leaves.mpr (Or.inr hm))).1 hid]
    exact hacc p hp

/-- A derived metric has the same results inlined and in stages, or the same failure: its definition must accumulate
    measured metrics only, and the derived metrics that it refers to must have results. -/
theorem evaluate_eq_staged (hc : c.Built) (he : ofCatalog c architecture = .ok e) (hd : c.Holds d)
    (harch : d.architecture = architecture) (hderived : d.isDerived = true)
    (hacc : ∀ t, ofMetric c d = .ok t → ∀ p ∈ t.accumulated [], p.1.isDerived = false) (hbase : base.Uniform)
    (hok : ∀ m, c.Refers d m → m.isDerived = true → ∃ records, e.evaluate m.name base = .ok records) :
    ∃ t tagged, ofMetric c d = .ok t ∧ t.setOutId d.id = .ok tagged ∧
      ∀ cache, (tagged.evaluate (e.staged base) cache).2 = e.evaluate d.name base := by
  have hnumbered := hc.numbered
  obtain ⟨t, t', ht, hinlines, hid, hvalue⟩ := evaluate_of_inlined hnumbered he hd harch
  have hout := outIds_ofMetric hnumbered ht
  have hknown := ofMetric_ok hnumbered hd ht
  have hagree : Agree (t'.value base) (t.value (e.staged base)) := by
    refine hinlines.agree hout (fun m hm hnot => ?_) (fun m hm hder t₁ t₁' ht₁ hinlines₁ => ?_) fun m hm => ?_
    · have hholds := (hknown.known m (mem_leaves.mpr (Or.inl hm))).1
      exact agree_leaf hbase (get?_staged_of_measured hnumbered he hholds hnot)
    · obtain ⟨hholds, hmarch⟩ := hknown.known m (mem_leaves.mpr (Or.inl hm))
      obtain ⟨records, hrecords⟩ := hok m ⟨hderived, t, ht, hm⟩ hder
      exact agree_staged hnumbered he hholds (hmarch.trans harch) hder hbase ht₁ hinlines₁ hrecords
    · have hholds := (hknown.known m (mem_leaves.mpr (Or.inr hm))).1
      exact agree_leaf hbase (get?_staged_of_measured hnumbered he hholds (measured_of_accumulated hknown (hacc t ht) hm))
  have hset : t.setOutId d.id = .ok (t.withNote { t.note with outId := some d.id }) := by
    rw [setOutId, if_neg (Nat.not_lt.mpr hid)]
  refine ⟨t, _, ht, hset, fun cache => ?_⟩
  rw [(evaluate_eq_value (e.staged base) cache _).1, value_setOutId (outId_eq_none hout) hset, hvalue base]
  exact (map_mark_of_agree hagree hid).symm

/-- A counter, a metric that is the same under another name, and the sum of this other one along one axis. -/
def summedCopy : Catalog :=
  (Catalog.empty.registerAll [{ name := "A", architecture := "g", block := "S" },
    { name := "M", architecture := "g", expression := "A" },
    { name := "D", architecture := "g", expression := "reduce(M, sum, [DIMENSION_XCC])" }]).1

/-- Two samples of the counter, apart along the axis. -/
def twoSamples : BaseSamples :=
  [(1, [{ id := ⟨0x0001000000000000⟩, value := 1.0 }, { id := ⟨0x0001000000000001⟩, value := 2.0 }])]

def renamed : Metric := { name := "M", architecture := "g", expression := "A", id := 2 }

def summed : Metric := { name := "D", architecture := "g", expression := "reduce(M, sum, [DIMENSION_XCC])", id := 3 }

theorem uniform_twoSamples : twoSamples.Uniform := by
  intro id records h
  by_cases hid : id = 1
  · rw [hid] at h
    cases h
    simp only [List.forall_mem_cons]
    decide
  · rw [twoSamples, BaseSamples.get?_cons, if_neg hid] at h
    cases h

theorem staged_summedCopy : ∃ e t tagged, summedCopy.Built ∧ ofCatalog summedCopy "g" = .ok e ∧ summedCopy.Holds summed ∧
    summedCopy.Refers summed renamed ∧ twoSamples.Uniform ∧ ofMetric summedCopy summed = .ok t ∧ t.setOutId 3 = .ok tagged ∧
    ∀ cache, (tagged.evaluate (e.staged twoSamples) cache).2 = e.evaluate "D" twoSamples := by
  have hbuilt : summedCopy.Built := Catalog.Built.empty.registerAll _
  have hsummed : summedCopy.Holds summed := by
    show summedCopy.byId? 3 = some summed
    cbv
  have hdefinition : ofMetric summedCopy summed = .ok (.reduce {} (.reference {} renamed) .sum [.xcc]) := by cbv
  have hok : (do let e ← ofCatalog summedCopy "g"; e.tree "M") =
      .ok (.reference ⟨Layout.scalar, some 2⟩ { name := "A", architecture := "g", block := "S", id := 1 }) := by cbv
  obtain ⟨e, he, htree⟩ := bind_eq_ok hok
  have hrefers : summedCopy.Refers summed renamed := ⟨by decide, _, hdefinition, List.mem_cons_self⟩
  obtain ⟨t, tagged, ht, htagged, hstaged⟩ := evaluate_eq_staged hbuilt he hsummed rfl (by decide)
    (fun t ht p hp => by rw [hdefinition] at ht; cases ht; cases hp) uniform_twoSamples fun m hm _ => by
      obtain ⟨-, t, ht, hm⟩ := hm
      rw [hdefinition] at ht
      cases ht
      rw [List.mem_singleton.mp hm]
      exact ⟨_, evaluate_of_tree htree twoSamples⟩
  exact ⟨e, t, tagged, hbuilt, he, hsummed, hrefers, uniform_twoSamples, ht, htagged, hstaged⟩

end Evaluator

end PerfCounters
