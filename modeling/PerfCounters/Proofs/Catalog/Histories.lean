import Mathlib.Data.List.Permutation
import Mathlib.Data.List.Sort
import Mathlib.Data.String.Basic
import PerfCounters.Proofs.Catalog.Numbers
import PerfCounters.Proofs.Lists

/-! Catalogs over time. Whatever metrics and blocks are registered, and whichever of them are refused, the array, the
    index and the list of architectures show the same metrics; and a refused one is as if it had never been
    registered. -/

namespace PerfCounters

namespace Catalog

variable {c c' : Catalog} {d : Definition} {m : Metric} {architecture name : String}

/-! ### Architectures in order -/

theorem ascending_mergeSort {names : List String} (h : names.Nodup) :
    (names.mergeSort fun a b => decide (a ≤ b)).Pairwise (· < ·) := by
  have hsorted : (names.mergeSort fun a b => decide (a ≤ b)).Pairwise fun a b => decide (a ≤ b) = true :=
    List.pairwise_mergeSort
      (fun a b c hab hbc => decide_eq_true ((of_decide_eq_true hab).trans (of_decide_eq_true hbc)))
      (fun a b => by simpa only [Bool.or_eq_true, decide_eq_true_eq] using le_total a b) _
  have hnodup := (List.mergeSort_perm names fun a b => decide (a ≤ b)).nodup_iff.mpr h
  exact hsorted.imp₂ (fun a b hle hne => lt_of_le_of_ne (of_decide_eq_true hle) hne) hnodup

theorem ascending_architectures (c : Catalog) : c.architectures.Pairwise (· < ·) :=
  ascending_mergeSort (c.ids.distinct_keys.imp fun h heq => by simp [heq] at h)

theorem mem_architectures : architecture ∈ c.architectures ↔ architecture ∈ c.ids := by
  rw [architectures, List.mem_mergeSort, Std.HashMap.mem_keys]

/-- The index has an entry for the architectures of the metrics. -/
theorem Numbered.mem_ids (h : c.Numbered) : architecture ∈ c.ids ↔
    ∃ m ∈ c.metrics.toList, m.architecture = architecture := by
  refine ⟨h.occupied, ?_⟩
  rintro ⟨m, hm, rfl⟩
  obtain ⟨i, hi⟩ := List.mem_iff_getElem?.mp hm
  obtain ⟨names, hnames, -⟩ := Option.bind_eq_some_iff.mp (h.found (Array.getElem?_toList ▸ hi))
  exact Std.HashMap.mem_iff_isSome_getElem?.mpr (by rw [hnames]; rfl)

/-- The architectures of the metrics, each once, in ascending order. -/
def occurring (c : Catalog) : List String :=
  (c.metrics.toList.map fun m => m.architecture).eraseDups.mergeSort fun a b => decide (a ≤ b)

theorem mem_occurring : architecture ∈ c.occurring ↔ ∃ m ∈ c.metrics.toList, m.architecture = architecture := by
  rw [occurring, List.mem_mergeSort, List.mem_eraseDups, List.mem_map]

theorem Numbered.architectures_eq (h : c.Numbered) : c.architectures = c.occurring := by
  have hoccurring : c.occurring.Pairwise (· < ·) := ascending_mergeSort (nodup_eraseDups _)
  have hperm : c.architectures.Perm c.occurring :=
    (List.perm_ext_iff_of_nodup ((ascending_architectures c).imp ne_of_lt) (hoccurring.imp ne_of_lt)).mpr fun a => by
      rw [mem_architectures, h.mem_ids, mem_occurring]
  exact hperm.eq_of_pairwise (fun a b _ _ hab hba => absurd hab (lt_asymm hba)) (ascending_architectures c) hoccurring

/-! ### Calls -/

/-- What can be done to a catalog. -/
inductive Op where
  | register (d : Definition)
  | registerBlock (b : Block)

/-- What a catalog answers. -/
inductive Reply where
  | registered (m : Metric)
  | refused (e : CatalogError)
  | done
deriving DecidableEq, Repr

def Reply.metric? : Reply → Option Metric
  | .registered m => some m
  | .refused _ | .done => none

def perform (c : Catalog) : Op → Catalog × Reply
  | .register d => match c.register d with
    | (c', .ok m) => (c', .registered m)
    | (c', .error e) => (c', .refused e)
  | .registerBlock b => (c.registerBlock b, .done)

/-- Calls one after the other, and the answers to them. -/
def run (c : Catalog) : List Op → Catalog × List Reply
  | [] => (c, [])
  | op :: ops =>
    let (c, reply) := c.perform op
    let (c, replies) := c.run ops
    (c, reply :: replies)

/-- The architecture has a metric of this name. -/
def Taken (c : Catalog) (architecture name : String) : Prop :=
  ∃ m ∈ c.metrics.toList, m.architecture = architecture ∧ m.name = name

/-- The views of a catalog show the same metrics. -/
structure Consistent (c : Catalog) : Prop where
  ids : c.metrics.toList.map (fun m => m.id) = List.range' 1 c.size
  size_le : c.size ≤ 65535
  byName : ∀ architecture name m, c.byName? architecture name = some m ↔
    m ∈ c.metrics.toList ∧ m.architecture = architecture ∧ m.name = name
  byId : ∀ id m, c.byId? id = some m ↔ m ∈ c.metrics.toList ∧ m.id = id
  ascending : c.architectures.Pairwise (· < ·)
  mem_architectures : ∀ architecture, architecture ∈ c.architectures ↔ ∃ m ∈ c.metrics.toList, m.architecture = architecture
  /-- No architecture is in the index without a name. -/
  inhabited : ∀ (architecture : String) (names : Std.HashMap String Nat), c.ids[architecture]? = some names →
    names.isEmpty = false

/-- What comes of registering a metric, in each of the three cases. -/
structure Registering (c : Catalog) (d : Definition) : Prop where
  duplicate : c.Taken d.architecture d.name →
    c.perform (.register d) = (c, .refused (.duplicateName d.architecture d.name))
  exhausted : ¬c.Taken d.architecture d.name → c.size = 65535 → c.perform (.register d) = (c, .refused .idSpaceExhausted)
  registered : ¬c.Taken d.architecture d.name → c.size < 65535 → ∃ c',
    c.perform (.register d) = (c', .registered (c.next d)) ∧
      c'.metrics.toList = c.metrics.toList ++ [c.next d] ∧ c'.blocks = c.blocks

theorem Numbered.mem_iff_holds (h : c.Numbered) : m ∈ c.metrics.toList ↔ c.Holds m := by
  refine ⟨h.holds_of_mem, fun hm => ?_⟩
  unfold Holds at hm
  cases hid : m.id with
  | zero =>
    rw [hid, byId?_zero] at hm
    cases hm
  | succ i =>
    rw [hid, byId?_succ, ← Array.getElem?_toList] at hm
    exact List.mem_of_getElem? hm

theorem Numbered.ids_eq (h : c.Numbered) : c.metrics.toList.map (fun m => m.id) = List.range' 1 c.size := by
  refine List.ext_getElem? fun i => ?_
  rw [List.getElem?_map, Array.getElem?_toList]
  cases hm : c.metrics[i]? with
  | none =>
    have hle : c.size ≤ i := Array.getElem?_eq_none_iff.mp hm
    rw [List.getElem?_eq_none (by rwa [List.length_range']), Option.map_none]
  | some m =>
    have hlt : i < c.size := (Array.getElem?_eq_some_iff.mp hm).1
    rw [List.getElem?_range' hlt, Option.map_some, h.id_eq hm, Nat.one_mul, Nat.add_comm]

theorem Numbered.inhabited (h : c.Numbered) {names : Std.HashMap String Nat} (hnames : c.ids[architecture]? = some names) :
    names.isEmpty = false := by
  have hmem : architecture ∈ c.ids := Std.HashMap.mem_iff_isSome_getElem?.mpr (by rw [hnames]; rfl)
  obtain ⟨m, hm, rfl⟩ := h.occupied hmem
  obtain ⟨i, hi⟩ := List.mem_iff_getElem?.mp hm
  have hfound := h.found (Array.getElem?_toList ▸ hi)
  rw [number?, hnames, Option.bind_some] at hfound
  exact Std.HashMap.isEmpty_eq_false_iff_exists_mem.mpr
    ⟨m.name, Std.HashMap.mem_iff_isSome_getElem?.mpr (by rw [hfound]; rfl)⟩

theorem Numbered.consistent (h : c.Numbered) : c.Consistent where
  ids := h.ids_eq
  size_le := h.size_le
  byName _ _ _ := by rw [h.byName?_iff, h.mem_iff_holds]
  byId id m := by
    rw [h.mem_iff_holds]
    refine ⟨h.holds_of_byId?, ?_⟩
    rintro ⟨hm, rfl⟩
    exact hm
  ascending := ascending_architectures c
  mem_architectures _ := by rw [mem_architectures, h.mem_ids]
  inhabited _ _ := h.inhabited

theorem Numbered.hasName_iff_taken (h : c.Numbered) : c.hasName architecture name = true ↔ c.Taken architecture name := by
  rw [hasName_iff]
  constructor
  · intro hsome
    obtain ⟨id, hid⟩ := Option.isSome_iff_exists.mp hsome
    obtain ⟨m, hm, hkey⟩ := h.indexed hid
    exact ⟨m, h.mem_iff_holds.mpr (h.holds_of_byId? hm).1, hkey⟩
  · rintro ⟨m, hm, rfl, rfl⟩
    obtain ⟨i, hi⟩ := List.mem_iff_getElem?.mp hm
    rw [Array.getElem?_toList] at hi
    rw [h.found hi]
    rfl

theorem perform_of_error {e : CatalogError} (h : c.register d = (c', .error e)) :
    c.perform (.register d) = (c', .refused e) := by
  rw [perform, h]

theorem perform_of_ok (h : c.register d = (c', .ok m)) : c.perform (.register d) = (c', .registered m) := by
  rw [perform, h]

theorem Numbered.registering (h : c.Numbered) (d : Definition) : c.Registering d where
  duplicate htaken := perform_of_error (register_of_taken (h.hasName_iff_taken.mpr htaken))
  exhausted hfree hsize := perform_of_error (register_of_full (mt h.hasName_iff_taken.mp hfree) (Nat.le_of_eq hsize.symm))
  registered hfree hsize := by
    have hname : c.number? d.architecture d.name = none := by
      rwa [← h.hasName_iff_taken, hasName_iff, Option.not_isSome_iff_eq_none] at hfree
    refine ⟨c.add d, perform_of_ok (register_of_free ⟨hname, hsize⟩), ?_, blocks_add c d⟩
    rw [metrics_add, Array.toList_push]

/-! ### Runs -/

theorem run_cons (c : Catalog) (op : Op) (ops : List Op) :
    c.run (op :: ops) = (((c.perform op).1.run ops).1, (c.perform op).2 :: ((c.perform op).1.run ops).2) := rfl

theorem Built.perform (h : c.Built) (op : Op) : (c.perform op).1.Built := by
  cases op with
  | register d =>
    obtain ⟨e, herror⟩ | ⟨-, hok⟩ := register_cases c d
    · rw [perform_of_error herror]
      exact h
    · rw [perform_of_ok hok]
      exact h.metric hok
  | registerBlock b => exact h.block b

theorem Built.run (h : c.Built) (ops : List Op) : (c.run ops).1.Built := by
  induction ops generalizing c with
  | nil => exact h
  | cons op ops ih => exact ih (h.perform op)

theorem metrics_perform (c : Catalog) (op : Op) :
    (c.perform op).1.metrics.toList = c.metrics.toList ++ (c.perform op).2.metric?.toList := by
  cases op with
  | register d =>
    obtain ⟨e, herror⟩ | ⟨-, hok⟩ := register_cases c d
    · rw [perform_of_error herror]
      exact (List.append_nil _).symm
    · rw [perform_of_ok hok, metrics_add, Array.toList_push, Reply.metric?, Option.toList_some]
  | registerBlock b => exact (List.append_nil _).symm

/-- The metrics are those that registering them answered with, in order. -/
theorem metrics_run (c : Catalog) (ops : List Op) :
    (c.run ops).1.metrics.toList = c.metrics.toList ++ (c.run ops).2.filterMap Reply.metric? := by
  induction ops generalizing c with
  | nil => exact (List.append_nil _).symm
  | cons op ops ih =>
    rw [run_cons, ih, metrics_perform, List.append_assoc]
    cases hm : (c.perform op).2.metric? with
    | none => rw [List.filterMap_cons_none hm]; rfl
    | some m => rw [List.filterMap_cons_some hm]; rfl

theorem perform_of_refused {op : Op} {e : CatalogError} (h : (c.perform op).2 = .refused e) : (c.perform op).1 = c := by
  cases op with
  | register d =>
    obtain ⟨e', herror⟩ | ⟨-, hok⟩ := register_cases c d
    · rw [perform_of_error herror]
    · rw [perform_of_ok hok] at h
      cases h
  | registerBlock b => cases h

/-- A refused call can be left out of what is done. -/
theorem run_without {before after : List Op} {op : Op} {e : CatalogError}
    (h : ((c.run before).1.perform op).2 = .refused e) :
    c.run (before ++ after) =
      ((c.run (before ++ op :: after)).1, (c.run (before ++ op :: after)).2.eraseIdx before.length) := by
  induction before generalizing c with
  | nil =>
    have hsame : (c.perform op).1 = c := perform_of_refused h
    rw [List.nil_append, List.nil_append, run_cons, hsame]
    rfl
  | cons first before ih =>
    have hrest : (c.perform first).1.run (before ++ after) = _ := ih h
    rw [List.cons_append, List.cons_append, run_cons, run_cons, hrest]
    rfl

/-- After any calls, refused or not: the metrics are those that were answered, the views of the catalog agree on them,
    a definition is refused for its name or else for want of numbers, and a refused call leaves neither a trace in the
    catalog nor in any later answer. -/
theorem run_keeps_views_consistent (ops : List Op) :
    let c := (empty.run ops).1
    c.metrics.toList = (empty.run ops).2.filterMap Reply.metric? ∧ c.Consistent ∧ (∀ d, c.Registering d) ∧
      ∀ before op after e, ops = before ++ op :: after → ((empty.run before).1.perform op).2 = .refused e →
        ((empty.run before).1.perform op).1 = (empty.run before).1 ∧
          empty.run (before ++ after) = (c, (empty.run ops).2.eraseIdx before.length) := by
  have hnumbered := (Built.empty.run ops).numbered
  refine ⟨metrics_run empty ops, hnumbered.consistent, hnumbered.registering, ?_⟩
  rintro before op after e rfl hrefused
  exact ⟨perform_of_refused hrefused, run_without hrefused⟩

/-- A definition that is registered twice, and one of the same name on another architecture. -/
def registeredTwice : List Op :=
  [.register { name := "A", architecture := "h", block := "S" },
    .register { name := "A", architecture := "h", expression := "2" },
    .registerBlock ⟨"g", "S", []⟩, .register { name := "A", architecture := "g", block := "S" }]

theorem replies_registeredTwice : (empty.run registeredTwice).2 =
    [.registered { name := "A", architecture := "h", block := "S", id := 1 }, .refused (.duplicateName "h" "A"), .done,
      .registered { name := "A", architecture := "g", block := "S", id := 2 }] := by
  cbv

theorem consistent_registeredTwice : (empty.run registeredTwice).1.metrics.toList =
      [{ name := "A", architecture := "h", block := "S", id := 1 },
        { name := "A", architecture := "g", block := "S", id := 2 }] ∧
    (empty.run registeredTwice).1.Consistent ∧
    (empty.run (registeredTwice.eraseIdx 1)).1 = (empty.run registeredTwice).1 := by
  obtain ⟨hmetrics, hconsistent, -, hwithout⟩ := run_keeps_views_consistent registeredTwice
  refine ⟨?_, hconsistent, ?_⟩
  · rw [hmetrics, replies_registeredTwice]
    rfl
  · have hrefused : ((empty.run (registeredTwice.take 1)).1.perform registeredTwice[1]).2 =
        .refused (.duplicateName "h" "A") := by cbv
    have hsame := (hwithout (registeredTwice.take 1) registeredTwice[1] (registeredTwice.drop 2) _ rfl hrefused).2
    exact (Prod.mk.inj hsame).1

end Catalog

end PerfCounters
