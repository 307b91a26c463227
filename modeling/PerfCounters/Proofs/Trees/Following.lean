import Mathlib.Data.List.Sort
import PerfCounters.Proofs.Trees.Expanders

/-! Following definitions. To find what a tree requires, the metrics that it names are looked at from left to right: a
    measured one is put among those that were found, and of a derived one the metrics that its definition names are looked
    at first. This comes to an end on any catalog, because a name that is met again on the way is not followed. Where all
    definitions on the way have trees, it ends with all measured metrics that can be reached, or because of a cycle. -/

namespace PerfCounters

open Relation

namespace Metric

variable {m x : Metric} {found found' : List Metric}

theorem mem_of_mem_insertById (h : x ∈ m.insertById found) : x = m ∨ x ∈ found := by
  induction found with
  | nil => exact Or.inl (List.mem_singleton.mp h)
  | cons y found ih =>
    unfold insertById at h
    split at h
    · exact List.mem_cons.mp h
    · split at h
      · exact Or.inr h
      · rcases List.mem_cons.mp h with rfl | h
        · exact Or.inr List.mem_cons_self
        · rcases ih h with heq | hmem
          · exact Or.inl heq
          · exact Or.inr (List.mem_cons_of_mem _ hmem)

theorem mem_insertById_of_mem (h : x ∈ found) : x ∈ m.insertById found := by
  induction found with
  | nil => cases h
  | cons y found ih =>
    unfold insertById
    split
    · exact List.mem_cons_of_mem _ h
    · split
      · exact h
      · rcases List.mem_cons.mp h with rfl | h
        · exact List.mem_cons_self
        · exact List.mem_cons_of_mem _ (ih h)

theorem exists_id_insertById (m : Metric) (found : List Metric) : ∃ x ∈ m.insertById found, x.id = m.id := by
  induction found with
  | nil => exact ⟨m, List.mem_cons_self, rfl⟩
  | cons y found ih =>
    unfold insertById
    split
    · exact ⟨m, List.mem_cons_self, rfl⟩
    · split
      · rename_i heq
        exact ⟨y, List.mem_cons_self, heq.symm⟩
      · obtain ⟨x, hx, hid⟩ := ih
        exact ⟨x, List.mem_cons_of_mem _ hx, hid⟩

/-- The metrics stand in the order of their numbers, none twice. -/
def Ascending (found : List Metric) : Prop := found.Pairwise fun x y => x.id < y.id

theorem Ascending.insertById (h : Ascending found) (m : Metric) : Ascending (m.insertById found) := by
  induction found with
  | nil => exact List.pairwise_singleton _ _
  | cons y found ih =>
    obtain ⟨hhead, htail⟩ := List.pairwise_cons.mp h
    unfold Metric.insertById
    split
    · rename_i hlt
      refine List.pairwise_cons.mpr ⟨fun x hx => ?_, h⟩
      rcases List.mem_cons.mp hx with rfl | hx
      · exact hlt
      · exact Nat.lt_trans hlt (hhead x hx)
    · rename_i hnot
      split
      · exact h
      · rename_i hne
        refine List.pairwise_cons.mpr ⟨fun x hx => ?_, ih htail⟩
        rcases mem_of_mem_insertById hx with rfl | hx
        · omega
        · exact hhead x hx

/-- Ascending lists of the same metrics are one. -/
theorem Ascending.eq_of_mem_iff (h : Ascending found) (h' : Ascending found') (hmem : ∀ x, x ∈ found ↔ x ∈ found') :
    found = found' := by
  have hnodup : ∀ {xs : List Metric}, Ascending xs → xs.Nodup := fun hxs =>
    hxs.imp fun hlt heq => absurd (congrArg Metric.id heq) (Nat.ne_of_lt hlt)
  have hperm := (List.perm_ext_iff_of_nodup (hnodup h) (hnodup h')).mpr hmem
  exact hperm.eq_of_pairwise (fun x y _ _ hlt hgt => absurd hlt (Nat.lt_asymm hgt)) h h'

end Metric

namespace Tree

section Reading

variable {c : Catalog} {m x y : Metric} {t : Tree}

/-- The metrics that a definition names are of the catalog, all of one architecture. -/
theorem known_of_leaf (hc : c.Numbered) (hm : m.isDerived = true) (h : ofMetric c m = .ok t) (hy : y ∈ t.leaves) :
    c.Holds y ∧ y.architecture = m.architecture := by
  obtain ⟨e, -, hexpr⟩ := ofMetric_derived h hm
  exact (ofExpr_ok hc hexpr).1 y hy

/-- Everything that a metric reads is of its architecture, and of the catalog but for itself. -/
theorem known_of_reads (hc : c.Numbered) (h : ReflTransGen c.Reads m x) :
    x.architecture = m.architecture ∧ (x = m ∨ c.Holds x) := by
  induction h with
  | refl => exact ⟨rfl, .inl rfl⟩
  | @tail y z _ hstep ih =>
    obtain ⟨hderived, t, ht, hz⟩ := hstep
    obtain ⟨hholds, harch⟩ := known_of_leaf hc hderived ht hz
    exact ⟨harch.trans ih.1, .inr hholds⟩

/-- A measured metric reads nothing else. -/
theorem eq_of_measured (hm : m.isDerived = false) (h : ReflTransGen c.Reads m x) : x = m := by
  rcases h.cases_head with rfl | ⟨y, hy, -⟩
  · rfl
  · simp [hy.1] at hm

/-- Whatever measured metric a derived one reads is read behind its definition. -/
theorem exists_leaf_of_reads (hm : m.isDerived = true) (definition : ofMetric c m = .ok t) (hx : x.isDerived = false)
    (h : ReflTransGen c.Reads m x) : ∃ z ∈ t.leaves, ReflTransGen c.Reads z x := by
  rcases h.cases_head with rfl | ⟨y, ⟨_, t', definition', hy⟩, hyx⟩
  · simp [hm] at hx
  · cases definition.symm.trans definition'
    exact ⟨y, hy, hyx⟩

/-- Measured metrics that one metric reads have different numbers. -/
theorem eq_of_reads (hc : c.Numbered) (hx : ReflTransGen c.Reads m x) (hy : ReflTransGen c.Reads m y)
    (hx' : x.isDerived = false) (hy' : y.isDerived = false) (hid : x.id = y.id) : x = y := by
  rcases (known_of_reads hc hx).2 with rfl | hxholds
  · exact (eq_of_measured hx' hy).symm
  · rcases (known_of_reads hc hy).2 with rfl | hyholds
    · exact eq_of_measured hy' hx
    · exact hxholds.eq_of_id hyholds hid

end Reading

/-- What comes of looking at some metrics, one after the other, while the definitions named on a path are being followed:
    the metrics found by then, and why it stopped early, if it did. -/
inductive Follows (c : Catalog) : List String → List Metric → List Metric → List Metric × Option EvalError → Prop where
  | done {path found} : Follows c path [] found (found, none)
  | measured {path m ms found r} (hm : m.isDerived = false) (rest : Follows c path ms (m.insertById found) r) :
      Follows c path (m :: ms) found r
  | again {path m ms found} (hm : m.isDerived = true) (hpath : m.name ∈ path) :
      Follows c path (m :: ms) found (found, some (.cyclicDefinition (path ++ [m.name])))
  | fault {path m ms found e} (hm : m.isDerived = true) (hpath : m.name ∉ path) (definition : ofMetric c m = .error e) :
      Follows c path (m :: ms) found (found, some e)
  | stopped {path m ms found found' t e} (hm : m.isDerived = true) (hpath : m.name ∉ path)
      (definition : ofMetric c m = .ok t) (inner : Follows c (path ++ [m.name]) t.leaves found (found', some e)) :
      Follows c path (m :: ms) found (found', some e)
  | entered {path m ms found found' t r} (hm : m.isDerived = true) (hpath : m.name ∉ path)
      (definition : ofMetric c m = .ok t)
      (inner : Follows c (path ++ [m.name]) t.leaves found (found', none)) (rest : Follows c path ms found' r) :
      Follows c path (m :: ms) found r

variable {c : Catalog} {architecture : String} {m x : Metric} {t t' : Tree} {path : List String}
  {ms ms' found found' : List Metric} {r r' : List Metric × Option EvalError}

theorem Follows.append (h : Follows c path ms found r) (hr : r = (found', none)) (h' : Follows c path ms' found' r') :
    Follows c path (ms ++ ms') found r' := by
  induction h with
  | done =>
    cases hr
    exact h'
  | measured hm _ ih => exact .measured hm (ih hr h')
  | again | fault | stopped => cases hr
  | entered hm hpath definition inner _ _ ih => exact .entered hm hpath definition inner (ih hr h')

theorem Follows.stop {e : EvalError} (h : Follows c path ms found r) (hr : r.2 = some e) (ms' : List Metric) :
    Follows c path (ms ++ ms') found r := by
  induction h with
  | done => cases hr
  | measured hm _ ih => exact .measured hm (ih hr)
  | again hm hpath => exact .again hm hpath
  | fault hm hpath definition => exact .fault hm hpath definition
  | stopped hm hpath definition inner => exact .stopped hm hpath definition inner
  | entered hm hpath definition inner _ _ ih => exact .entered hm hpath definition inner (ih hr)

theorem Follows.unique (h : Follows c path ms found r) (h' : Follows c path ms found r') : r = r' := by
  induction h generalizing r' with
  | done =>
    cases h'
    rfl
  | measured hm _ ih =>
    cases h' with
    | measured _ rest => exact ih rest
    | again hm' | fault hm' | stopped hm' | entered hm' => simp [hm] at hm'
  | again hm hpath =>
    cases h' with
    | measured hm' => simp [hm] at hm'
    | again => rfl
    | fault _ hnot | stopped _ hnot | entered _ hnot => exact absurd hpath hnot
  | fault hm hpath definition =>
    cases h' with
    | measured hm' => simp [hm] at hm'
    | again _ hin => exact absurd hin hpath
    | fault _ _ definition' =>
      cases definition.symm.trans definition'
      rfl
    | stopped _ _ definition' | entered _ _ definition' => cases definition.symm.trans definition'
  | stopped hm hpath definition _ ih =>
    cases h' with
    | measured hm' => simp [hm] at hm'
    | again _ hin => exact absurd hin hpath
    | fault _ _ definition' => cases definition.symm.trans definition'
    | stopped _ _ definition' inner' =>
      cases definition.symm.trans definition'
      exact ih inner'
    | entered _ _ definition' inner' =>
      cases definition.symm.trans definition'
      cases ih inner'
  | entered hm hpath definition _ _ ihinner ihrest =>
    cases h' with
    | measured hm' => simp [hm] at hm'
    | again _ hin => exact absurd hin hpath
    | fault _ _ definition' => cases definition.symm.trans definition'
    | stopped _ _ definition' inner' =>
      cases definition.symm.trans definition'
      cases ihinner inner'
    | entered _ _ definition' inner' rest' =>
      cases definition.symm.trans definition'
      cases ihinner inner'
      exact ihrest rest'

/-- Collecting follows the metrics of a tree, wherever the derived ones among them are of the catalog. -/
theorem follows_collect (hc : c.Numbered) :
    (∀ path t found, (∀ y ∈ t.leaves, y.isDerived = true → c.Holds y) →
      Follows c path t.leaves found (collect c path t found)) ∧
    ∀ path m found, (m.isDerived = true → c.Holds m) → Follows c path [m] found (collectMetric c path m found) := by
  apply collect.mutual_induct c
    (fun path t found => (∀ y ∈ t.leaves, y.isDerived = true → c.Holds y) →
      Follows c path t.leaves found (collect c path t found))
    (fun path m found => (m.isDerived = true → c.Holds m) → Follows c path [m] found (collectMetric c path m found))
  -- leaves
  · intro path found n v hleaves
    rw [collect]
    exact .done
  · intro path found n m ih hleaves
    rw [collect]
    exact ih (hleaves m List.mem_cons_self)
  · intro path found n m mode ih hleaves
    rw [collect]
    exact ih (hleaves m List.mem_cons_self)
  -- arithmetic: a failure on the left ends it
  · intro path found n op lhs rhs first e hl ih hleaves
    have h := ih fun m hm => hleaves m (List.mem_append_left _ hm)
    rw [hl] at h
    rw [collect, hl]
    exact h.stop rfl rhs.leaves
  · intro path found n op lhs rhs first hl ihl ihr hleaves
    have h := ihl fun m hm => hleaves m (List.mem_append_left _ hm)
    rw [hl] at h
    rw [collect, hl]
    exact h.append rfl (ihr fun m hm => hleaves m (List.mem_append_right _ hm))
  -- reduce and select
  · intro path found n child op ds ih hleaves
    rw [collect]
    exact ih hleaves
  · intro path found n child filters ih hleaves
    rw [collect]
    exact ih hleaves
  -- metrics: measured ones, ones met again, and the definitions of the others
  · intro path m found hmeasured hm
    rw [collectMetric, if_pos hmeasured]
    exact .measured (by simpa using hmeasured) .done
  · intro path m found hderived hpath hm
    rw [collectMetric, if_neg hderived, dif_pos hpath]
    exact .again (by simpa using hderived) (by simpa using hpath)
  · intro path m found hderived hpath hholds e he hm
    rw [collectMetric, if_neg hderived, dif_neg hpath, dif_pos hholds, he]
    exact .fault (by simpa using hderived) (by simpa using hpath) he
  · intro path m found hderived hpath hholds t ht ih hm
    have hderived' : m.isDerived = true := by simpa using hderived
    have hpath' : m.name ∉ path := by simpa using hpath
    have h := ih fun y hy _ => (known_of_leaf hc hderived' ht hy).1
    rw [collectMetric, if_neg hderived, dif_neg hpath, dif_pos hholds, ht]
    show Follows c path [m] found (collect c (path ++ [m.name]) t found)
    rcases hresult : collect c (path ++ [m.name]) t found with ⟨found', _ | e⟩
    · rw [hresult] at h
      exact .entered hderived' hpath' ht h .done
    · rw [hresult] at h
      exact .stopped hderived' hpath' ht h
  · intro path m found hderived hpath hholds hm
    exact absurd (hm (by simpa using hderived)) hholds

/-- So looking at the metrics that a tree names comes to an end, and there is one way it can end: what collecting says. -/
theorem follows_iff (hc : c.Numbered) (hleaves : ∀ y ∈ t.leaves, y.isDerived = true → c.Holds y) :
    Follows c path t.leaves found r ↔ r = collect c path t found := by
  have hcollect := (follows_collect hc).1 path t found hleaves
  refine ⟨fun h => h.unique hcollect, fun h => ?_⟩
  rwa [h]

/-! ### What is found -/

theorem Follows.kept (h : Follows c path ms found r) (hx : x ∈ found) : x ∈ r.1 := by
  induction h with
  | done | again | fault => exact hx
  | measured _ _ ih => exact ih (Metric.mem_insertById_of_mem hx)
  | stopped _ _ _ _ ih => exact ih hx
  | entered _ _ _ _ _ ihinner ihrest => exact ihrest (ihinner hx)

theorem Follows.ascending (h : Follows c path ms found r) (hfound : Metric.Ascending found) : Metric.Ascending r.1 := by
  induction h with
  | done | again | fault => exact hfound
  | measured _ _ ih => exact ih (hfound.insertById _)
  | stopped _ _ _ _ ih => exact ih hfound
  | entered _ _ _ _ _ ihinner ihrest => exact ihrest (ihinner hfound)

/-- Only measured metrics are found, and only those that can be reached. -/
theorem Follows.reached (h : Follows c path ms found r) (hx : x ∈ r.1) :
    x ∈ found ∨ x.isDerived = false ∧ ∃ z ∈ ms, ReflTransGen c.Reads z x := by
  induction h with
  | done | again | fault => exact .inl hx
  | measured hm _ ih =>
    rcases ih hx with hx | ⟨hmeasured, z, hz, hzx⟩
    · rcases Metric.mem_of_mem_insertById hx with rfl | hx
      · exact .inr ⟨hm, _, List.mem_cons_self, .refl⟩
      · exact .inl hx
    · exact .inr ⟨hmeasured, z, List.mem_cons_of_mem _ hz, hzx⟩
  | stopped hm _ definition _ ih =>
    refine (ih hx).imp_right fun ⟨hmeasured, z, hz, hzx⟩ => ⟨hmeasured, _, List.mem_cons_self, ?_⟩
    exact .head ⟨hm, _, definition, hz⟩ hzx
  | entered hm _ definition _ _ ihinner ihrest =>
    rcases ihrest hx with hx | ⟨hmeasured, z, hz, hzx⟩
    · refine (ihinner hx).imp_right fun ⟨hmeasured, z, hz, hzx⟩ => ⟨hmeasured, _, List.mem_cons_self, ?_⟩
      exact .head ⟨hm, _, definition, hz⟩ hzx
    · exact .inr ⟨hmeasured, z, List.mem_cons_of_mem _ hz, hzx⟩

/-- Whatever measured metric can be reached is found, unless it stopped early: its number is, at least. -/
theorem Follows.complete (h : Follows c path ms found r) (hr : r.2 = none) (hx : x.isDerived = false) :
    ∀ z ∈ ms, ReflTransGen c.Reads z x → ∃ y ∈ r.1, y.id = x.id := by
  induction h with
  | done => exact fun z hz => (by cases hz)
  | again | fault | stopped => cases hr
  | @measured path m ms found r hm rest ih =>
    intro z hz hzx
    rcases List.mem_cons.mp hz with rfl | hz
    · obtain ⟨y, hy, hid⟩ := Metric.exists_id_insertById z found
      rw [eq_of_measured hm hzx]
      exact ⟨y, rest.kept hy, hid⟩
    · exact ih hr z hz hzx
  | entered hm _ definition _ rest ihinner ihrest =>
    intro z hz hzx
    rcases List.mem_cons.mp hz with rfl | hz
    · obtain ⟨y, hy, hyx⟩ := exists_leaf_of_reads hm definition hx hzx
      obtain ⟨w, hw, hid⟩ := ihinner rfl y hy hyx
      exact ⟨w, rest.kept hw, hid⟩
    · exact ihrest hr z hz hzx

/-! ### Why it stops -/

/-- Each name is that of a metric that leads to all of `leaves`. -/
def Leading (c : Catalog) (architecture : String) (path : List String) (leaves : List Metric) : Prop :=
  ∀ name ∈ path, ∃ p, c.Holds p ∧ p.architecture = architecture ∧ p.name = name ∧ ∀ z ∈ leaves, TransGen c.Reads p z

/-- Collecting comes to an end for all of `leaves`, or finds a cycle behind one of them. -/
def Ends (c : Catalog) (leaves : List Metric) : Option EvalError → Prop
  | none => ∀ z ∈ leaves, Acc (fun x y => c.Reads y x) z
  | some failure => (∃ names name, failure = .cyclicDefinition (names ++ [name]) ∧ name ∈ names) ∧
      ∃ z ∈ leaves, ∃ x, ReflTransGen c.Reads z x ∧ TransGen c.Reads x x

theorem Ends.mono {leaves leaves' : List Metric} {failure : EvalError} (h : Ends c leaves (some failure))
    (hsub : leaves ⊆ leaves') : Ends c leaves' (some failure) := by
  obtain ⟨hnames, z, hz, hx⟩ := h
  exact ⟨hnames, z, hsub hz, hx⟩

theorem Ends.append {leaves leaves' : List Metric} {result : Option EvalError} (h : Ends c leaves none)
    (h' : Ends c leaves' result) : Ends c (leaves ++ leaves') result := by
  cases result with
  | none =>
    intro z hz
    rcases List.mem_append.mp hz with hz | hz
    · exact h z hz
    · exact h' z hz
  | some failure => exact h'.mono (List.subset_append_right _ _)

theorem Leading.mono {path : List String} {leaves leaves' : List Metric} (h : Leading c architecture path leaves')
    (hsub : leaves ⊆ leaves') : Leading c architecture path leaves := by
  intro name hname
  obtain ⟨p, hp, harch, hpname, hlead⟩ := h name hname
  exact ⟨p, hp, harch, hpname, fun z hz => hlead z (hsub hz)⟩

theorem ends_measured (h : m.isDerived = false) : Ends c [m] none := by
  intro z hz
  rw [List.mem_singleton.mp hz]
  exact ⟨_, fun x hx => by simp [hx.1] at h⟩

/-- A derived metric leads where its definition leads. -/
theorem Ends.of_definition {result : Option EvalError} (h : Ends c t.leaves result) (hderived : m.isDerived = true)
    (ht : ofMetric c m = .ok t) : Ends c [m] result := by
  cases result with
  | none =>
    intro z hz
    rw [List.mem_singleton.mp hz]
    refine ⟨_, fun x ⟨_, t', ht', hx⟩ => ?_⟩
    cases ht.symm.trans ht'
    exact h x hx
  | some failure =>
    obtain ⟨hnames, z, hz, x, hzx, hx⟩ := h
    exact ⟨hnames, m, List.mem_cons_self, x, .head ⟨hderived, t, ht, hz⟩ hzx, hx⟩

theorem Leading.enter {path : List String} (h : Leading c architecture path [m]) (hm : c.Holds m)
    (harch : m.architecture = architecture) (hderived : m.isDerived = true) (ht : ofMetric c m = .ok t) :
    Leading c architecture (path ++ [m.name]) t.leaves := by
  intro name hname
  rcases List.mem_append.mp hname with hname | hname
  · obtain ⟨p, hp, hparch, hpname, hlead⟩ := h name hname
    exact ⟨p, hp, hparch, hpname, fun z hz => .tail (hlead m List.mem_cons_self) ⟨hderived, t, ht, hz⟩⟩
  · rw [List.mem_singleton.mp hname]
    exact ⟨m, hm, harch, rfl, fun z hz => .single ⟨hderived, t, ht, hz⟩⟩

/-- All definitions behind these metrics have trees, and the metrics whose names are on the path lead to all of them. -/
structure Ahead (c : Catalog) (architecture : String) (path : List String) (ms : List Metric) : Prop where
  known : ∀ z ∈ ms, z.isDerived = true → c.Holds z ∧ z.architecture = architecture
  defined : ∀ z ∈ ms, ∀ x, ReflTransGen c.Reads z x → ∃ t, ofMetric c x = .ok t
  leading : Leading c architecture path ms

theorem Ahead.rest (h : Ahead c architecture path (m :: ms)) : Ahead c architecture path ms where
  known z hz := h.known z (List.mem_cons_of_mem _ hz)
  defined z hz := h.defined z (List.mem_cons_of_mem _ hz)
  leading := h.leading.mono (List.subset_cons_self _ _)

theorem Ahead.enter (hc : c.Numbered) (h : Ahead c architecture path (m :: ms)) (hm : m.isDerived = true)
    (definition : ofMetric c m = .ok t) : Ahead c architecture (path ++ [m.name]) t.leaves := by
  obtain ⟨hholds, rfl⟩ := h.known m List.mem_cons_self hm
  have hhead : Leading c m.architecture path [m] := h.leading.mono (by simp)
  exact ⟨fun z hz _ => known_of_leaf hc hm definition hz,
    fun z hz x hzx => h.defined m List.mem_cons_self x (.head ⟨hm, t, definition, hz⟩ hzx),
    hhead.enter hholds rfl hm definition⟩

/-- Where every definition on the way has a tree, only a cycle stops it. -/
theorem Follows.ends (hc : c.Numbered) (h : Follows c path ms found r) (hahead : Ahead c architecture path ms) :
    Ends c ms r.2 := by
  induction h with
  | done => exact fun z hz => (by cases hz)
  | measured hm _ ih => exact (ends_measured hm).append (ih hahead.rest)
  | @again path m ms found hm hpath =>
    -- the name on the path is that of `m`, which leads to itself then
    obtain ⟨p, hp, harch, hpname, hcycle⟩ := hahead.leading m.name hpath
    obtain ⟨hholds, harch'⟩ := hahead.known m List.mem_cons_self hm
    have heq := hc.eq_of_name hp hholds (harch.trans harch'.symm) hpname
    exact ⟨⟨path, m.name, rfl, hpath⟩, m, List.mem_cons_self, m, .refl, heq ▸ hcycle m List.mem_cons_self⟩
  | @fault path m ms found e hm _ definition =>
    obtain ⟨t, ht⟩ := hahead.defined m List.mem_cons_self m .refl
    cases definition.symm.trans ht
  | stopped hm _ definition _ ih =>
    exact ((ih (hahead.enter hc hm definition)).of_definition hm definition).mono (by simp)
  | entered hm _ definition _ _ ihinner ihrest =>
    exact ((ihinner (hahead.enter hc hm definition)).of_definition hm definition).append (ihrest hahead.rest)

end Tree

end PerfCounters
