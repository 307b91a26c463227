import Mathlib.Data.List.Basic
import PerfCounters.Catalog

/-! The two views of a catalog agree: a metric is found under its number and under its name, and nothing
    else is found under either. -/

namespace PerfCounters

namespace Catalog

variable {c c' : Catalog} {d : Definition} {m : Metric} {id : Nat} {architecture name : String}

/-! ### The index -/

theorem number?_enter (c : Catalog) (key architecture name : String) :
    (c.enter key).number? architecture name = c.number? architecture name := by
  unfold enter
  split
  · rfl
  · rename_i hnew
    have hnone : c.ids[key]? = none := Std.HashMap.getElem?_eq_none (by simpa using hnew)
    unfold number?
    rw [Std.HashMap.getElem?_insert]
    by_cases harch : key = architecture
    · subst harch
      simp [hnone]
    · simp [harch]

theorem mem_ids_enter {key : String} : architecture ∈ (c.enter key).ids ↔ key = architecture ∨ architecture ∈ c.ids := by
  unfold enter
  split
  · rename_i hold
    refine ⟨Or.inr, ?_⟩
    rintro (rfl | h)
    exacts [Std.HashMap.mem_iff_contains.mpr hold, h]
  · simp

/-- A registration puts a metric behind the others, and its name into an entry that there is by then. -/
theorem exists_entry (c : Catalog) (d : Definition) : ∃ names, (c.enter d.architecture).ids[d.architecture]? = some names ∧
    c.add d = ⟨c.metrics.push (c.next d),
      ((c.enter d.architecture).ids.erase d.architecture).insert d.architecture
        (names.insert d.name (c.size + 1)), c.blocks⟩ := by
  have hentered : d.architecture ∈ (c.enter d.architecture).ids := mem_ids_enter.mpr (Or.inl rfl)
  obtain ⟨names, hnames⟩ := Option.isSome_iff_exists.mp (Std.HashMap.mem_iff_isSome_getElem?.mp hentered)
  have hothers : c.enter d.architecture = ⟨c.metrics, (c.enter d.architecture).ids, c.blocks⟩ := by
    unfold enter
    split <;> rfl
  refine ⟨names, hnames, ?_⟩
  simp only [add, enterName, hnames]
  rw [hothers]
  rfl

theorem metrics_add (c : Catalog) (d : Definition) : (c.add d).metrics = c.metrics.push (c.next d) := by
  obtain ⟨names, -, heq⟩ := exists_entry c d
  rw [heq]

theorem blocks_add (c : Catalog) (d : Definition) : (c.add d).blocks = c.blocks := by
  obtain ⟨names, -, heq⟩ := exists_entry c d
  rw [heq]

theorem number?_add (c : Catalog) (d : Definition) (architecture name : String) : (c.add d).number? architecture name =
    if d.architecture = architecture ∧ d.name = name then some (c.size + 1) else c.number? architecture name := by
  obtain ⟨names, hnames, heq⟩ := exists_entry c d
  rw [← number?_enter c d.architecture, heq, number?, Std.HashMap.getElem?_insert]
  by_cases harch : d.architecture = architecture
  · subst harch
    by_cases hname : d.name = name <;> simp [number?, hnames, Std.HashMap.getElem?_insert, hname]
  · simp [number?, harch, Std.HashMap.getElem?_erase]

theorem mem_ids_add : architecture ∈ (c.add d).ids ↔ d.architecture = architecture ∨ architecture ∈ c.ids := by
  obtain ⟨names, -, heq⟩ := exists_entry c d
  rw [heq, Std.HashMap.mem_insert, Std.HashMap.mem_erase, mem_ids_enter, beq_iff_eq]
  by_cases harch : d.architecture = architecture <;> simp [harch]

theorem hasName_iff : c.hasName architecture name = true ↔ (c.number? architecture name).isSome = true := by
  unfold hasName number?
  cases c.ids[architecture]? with
  | none => rfl
  | some names => simp

/-! ### Registering -/

/-- The name is not taken, and a number is left. -/
def Free (c : Catalog) (d : Definition) : Prop := c.number? d.architecture d.name = none ∧ c.size < 65535

theorem register_of_taken (h : c.hasName d.architecture d.name = true) :
    c.register d = (c, .error (.duplicateName d.architecture d.name)) := if_pos h

theorem register_of_full (hname : ¬c.hasName d.architecture d.name = true) (hsize : 65535 ≤ c.size) :
    c.register d = (c, .error .idSpaceExhausted) := by
  have hfull : c.size + 1 > maxCounterId := Nat.lt_succ_of_le hsize
  rw [register, if_neg hname, if_pos hfull]

theorem register_of_free (h : c.Free d) : c.register d = (c.add d, .ok (c.next d)) := by
  have hname : ¬c.hasName d.architecture d.name = true := by
    rw [hasName_iff, h.1]
    exact Bool.false_ne_true
  have hroom : ¬c.size + 1 > maxCounterId := Nat.not_lt.mpr h.2
  rw [register, if_neg hname, if_neg hroom]

theorem register_cases (c : Catalog) (d : Definition) :
    (∃ e, c.register d = (c, .error e)) ∨ c.Free d ∧ c.register d = (c.add d, .ok (c.next d)) := by
  by_cases hname : c.hasName d.architecture d.name = true
  · exact Or.inl ⟨_, register_of_taken hname⟩
  · rcases Nat.lt_or_ge c.size 65535 with hsize | hsize
    · have hfree : c.Free d := ⟨by rwa [hasName_iff, Option.not_isSome_iff_eq_none] at hname, hsize⟩
      exact Or.inr ⟨hfree, register_of_free hfree⟩
    · exact Or.inl ⟨_, register_of_full hname hsize⟩

theorem register_eq_ok (h : c.register d = (c', .ok m)) : c.Free d ∧ c' = c.add d ∧ m = c.next d := by
  obtain ⟨e, herror⟩ | ⟨hfree, hok⟩ := register_cases c d
  · rw [herror] at h
    cases h
  · rw [hok] at h
    cases h
    exact ⟨hfree, rfl, rfl⟩

/-- The catalogs that come of registering metrics and blocks. -/
inductive Built : Catalog → Prop where
  | empty : Built empty
  | metric {c c' : Catalog} {d : Definition} {m : Metric} (h : Built c) (hregister : c.register d = (c', .ok m)) : Built c'
  | block {c : Catalog} (h : Built c) (b : Block) : Built (c.registerBlock b)

/-! ### Both views -/

/-- Numbers count the metrics from 1, the index leads from the names of each architecture to numbers, and it has no
    architecture without a metric. -/
structure Numbered (c : Catalog) : Prop where
  id_eq : ∀ {i : Nat} {m : Metric}, c.metrics[i]? = some m → m.id = i + 1
  indexed : ∀ {architecture name : String} {id : Nat}, c.number? architecture name = some id →
    ∃ m : Metric, c.byId? id = some m ∧ m.architecture = architecture ∧ m.name = name
  found : ∀ {i : Nat} {m : Metric}, c.metrics[i]? = some m → c.number? m.architecture m.name = some m.id
  occupied : ∀ {architecture : String}, architecture ∈ c.ids → ∃ m ∈ c.metrics.toList, m.architecture = architecture
  size_le : c.size ≤ 65535

theorem byId?_succ (c : Catalog) (i : Nat) : c.byId? (i + 1) = c.metrics[i]? := by
  simp [byId?]

theorem byId?_zero (c : Catalog) : c.byId? 0 = none := by simp [byId?]

theorem numbered_empty : empty.Numbered where
  id_eq h := by simp [empty] at h
  indexed h := by simp [number?, empty] at h
  found h := by simp [empty] at h
  occupied h := by simp [empty] at h
  size_le := Nat.zero_le _

theorem byId?_add_of_some (h : c.byId? id = some m) : (c.add d).byId? id = some m := by
  cases id with
  | zero => rw [byId?_zero] at h; cases h
  | succ i =>
    rw [byId?_succ] at h ⊢
    have hlt : i < c.metrics.size := (Array.getElem?_eq_some_iff.mp h).1
    rw [metrics_add, Array.getElem?_push, if_neg (Nat.ne_of_lt hlt), h]

theorem byId?_add_next (c : Catalog) (d : Definition) : (c.add d).byId? (c.size + 1) = some (c.next d) := by
  rw [byId?_succ, metrics_add]
  exact Array.getElem?_push_size

/-- The metrics after a registration: the new one, and those that there were. -/
theorem metrics_add_cases {i : Nat} (h : (c.add d).metrics[i]? = some m) :
    c.metrics[i]? = some m ∨ i = c.size ∧ m = c.next d := by
  rw [metrics_add, Array.getElem?_push] at h
  split at h
  · rename_i heq
    cases h
    exact Or.inr ⟨heq, rfl⟩
  · exact Or.inl h

theorem numbered_add (h : c.Numbered) (hd : c.Free d) : (c.add d).Numbered where
  id_eq hm := by
    rcases metrics_add_cases hm with hold | ⟨rfl, rfl⟩
    · exact h.id_eq hold
    · rfl
  indexed hnumber := by
    rw [number?_add] at hnumber
    split at hnumber
    · rename_i hkey
      cases hnumber
      exact ⟨c.next d, byId?_add_next c d, hkey⟩
    · obtain ⟨m, hm, hkey⟩ := h.indexed hnumber
      exact ⟨m, byId?_add_of_some hm, hkey⟩
  found {i m} hm := by
    rw [number?_add]
    rcases metrics_add_cases hm with hold | ⟨rfl, rfl⟩
    · have hne : ¬(d.architecture = m.architecture ∧ d.name = m.name) := fun ⟨harch, hname⟩ => by
        have hfound := h.found hold
        rw [← harch, ← hname, hd.1] at hfound
        cases hfound
      rw [if_neg hne]
      exact h.found hold
    · exact if_pos ⟨rfl, rfl⟩
  occupied harch := by
    rw [metrics_add, Array.toList_push]
    rcases mem_ids_add.mp harch with rfl | harch
    · exact ⟨c.next d, List.mem_append_right _ List.mem_cons_self, rfl⟩
    · obtain ⟨m, hm, hmarch⟩ := h.occupied harch
      exact ⟨m, List.mem_append_left _ hm, hmarch⟩
  size_le := by
    rw [size, metrics_add, Array.size_push]
    exact hd.2

theorem Built.numbered (h : c.Built) : c.Numbered := by
  induction h with
  | empty => exact numbered_empty
  | metric _ hregister ih =>
    obtain ⟨hfree, rfl, -⟩ := register_eq_ok hregister
    exact numbered_add ih hfree
  | block _ b ih => exact ⟨ih.id_eq, ih.indexed, ih.found, ih.occupied, ih.size_le⟩

theorem Built.registerAll (h : c.Built) (ds : List Definition) : (c.registerAll ds).1.Built := by
  induction ds generalizing c with
  | nil => exact h
  | cons d ds ih =>
    unfold Catalog.registerAll
    obtain ⟨e, herror⟩ | ⟨-, hok⟩ := register_cases c d
    · rw [herror]
      exact h
    · rw [hok]
      exact ih (h.metric hok)

/-! ### What was registered -/

variable {c'' : Catalog} {ds ds' : List Definition}

/-- The definitions that were registered, in order. -/
def definitions (c : Catalog) : List Definition := c.metrics.toList.map Metric.toDefinition

/-- The second catalog is the first one with these definitions registered. -/
structure Registers (c c' : Catalog) (ds : List Definition) : Prop where
  built : c.Built → c'.Built
  definitions : c'.definitions = c.definitions ++ ds
  blocks : c'.blocks = c.blocks

theorem Registers.refl (c : Catalog) : Registers c c [] := ⟨id, (List.append_nil _).symm, rfl⟩

theorem Registers.trans (h : Registers c c' ds) (h' : Registers c' c'' ds') : Registers c c'' (ds ++ ds') :=
  ⟨h'.built ∘ h.built, by rw [h'.definitions, h.definitions, List.append_assoc], h'.blocks.trans h.blocks⟩

theorem registers_add (h : c.Free d) : Registers c (c.add d) [d] :=
  ⟨fun hc => hc.metric (register_of_free h), by simp [definitions, metrics_add, next], blocks_add c d⟩

theorem registers_registerAll (h : c.registerAll ds = (c', none)) : Registers c c' ds := by
  induction ds generalizing c with
  | nil =>
    cases h
    exact .refl _
  | cons d ds ih =>
    unfold registerAll at h
    obtain ⟨e, herror⟩ | ⟨hfree, hok⟩ := register_cases c d
    · rw [herror] at h
      cases h
    · rw [hok] at h
      exact (registers_add hfree).trans (ih h)

/-! ### Registered metrics -/

/-- The catalog holds this metric under its number. -/
def Holds (c : Catalog) (m : Metric) : Prop := c.byId? m.id = some m

theorem Numbered.holds_of_byId? (h : c.Numbered) (hm : c.byId? id = some m) : c.Holds m ∧ m.id = id := by
  cases id with
  | zero => rw [byId?_zero] at hm; cases hm
  | succ i =>
    have hid : m.id = i + 1 := h.id_eq (by rwa [byId?_succ] at hm)
    exact ⟨by rw [Holds, hid, hm], hid⟩

theorem Numbered.holds_of_mem (h : c.Numbered) (hm : m ∈ c.metrics.toList) : c.Holds m := by
  obtain ⟨i, hi⟩ := List.mem_iff_getElem?.mp hm
  rw [Array.getElem?_toList] at hi
  exact (h.holds_of_byId? (by rw [byId?_succ, hi])).1

theorem Holds.eq_of_id {m' : Metric} (h : c.Holds m) (h' : c.Holds m') (hid : m.id = m'.id) : m = m' := by
  rw [Holds, hid, h'] at h
  exact (Option.some.inj h).symm

theorem Numbered.id_le (h : c.Numbered) (hm : c.Holds m) : m.id ≤ 65535 := by
  have hsize := h.size_le
  cases hid : m.id with
  | zero => exact Nat.zero_le _
  | succ i =>
    rw [Holds, hid, byId?_succ] at hm
    have hlt : i < c.metrics.size := (Array.getElem?_eq_some_iff.mp hm).1
    unfold size at hsize
    omega

theorem Numbered.byName?_iff (h : c.Numbered) :
    c.byName? architecture name = some m ↔ c.Holds m ∧ m.architecture = architecture ∧ m.name = name := by
  unfold byName?
  constructor
  · intro hm
    obtain ⟨id, hid, hbyId⟩ := Option.bind_eq_some_iff.mp hm
    obtain ⟨m', hm', hkey⟩ := h.indexed hid
    rw [hbyId] at hm'
    cases hm'
    exact ⟨(h.holds_of_byId? hbyId).1, hkey⟩
  · rintro ⟨hm, rfl, rfl⟩
    have hpos : ∃ i, m.id = i + 1 := by
      cases hid : m.id with
      | zero => rw [Holds, hid, byId?_zero] at hm; cases hm
      | succ i => exact ⟨i, rfl⟩
    obtain ⟨i, hi⟩ := hpos
    have hget : c.metrics[i]? = some m := by rw [← byId?_succ, ← hi]; exact hm
    rw [h.found hget]
    exact hm

/-- Metrics of one architecture have different names. -/
theorem Numbered.eq_of_name {m' : Metric} (h : c.Numbered) (hm : c.Holds m) (hm' : c.Holds m')
    (harch : m.architecture = m'.architecture) (hname : m.name = m'.name) : m = m' := by
  have hfind := h.byName?_iff.mpr ⟨hm, harch, hname⟩
  rw [h.byName?_iff.mpr ⟨hm', rfl, rfl⟩] at hfind
  exact (Option.some.inj hfind).symm

/-- What was registered is found by its name. -/
theorem Numbered.exists_byName? (h : c.Numbered) (hd : d ∈ c.definitions) :
    ∃ x, c.byName? d.architecture d.name = some x ∧ x.toDefinition = d := by
  obtain ⟨x, hx, rfl⟩ := List.mem_map.mp hd
  exact ⟨x, h.byName?_iff.mpr ⟨h.holds_of_mem hx, rfl, rfl⟩, rfl⟩

theorem mem_metricsOf : m ∈ c.metricsOf architecture ↔ m ∈ c.metrics.toList ∧ m.architecture = architecture := by
  simp [metricsOf]

end Catalog

end PerfCounters
