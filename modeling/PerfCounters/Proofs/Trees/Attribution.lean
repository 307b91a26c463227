import Mathlib
import PerfCounters.Proofs.Trees.Coverage
import PerfCounters.Proofs.Trees.Grouping

/-! The agents that results are attributed to. Every operation takes the attribution of its results from one of its
    operands. A literal, whose sample is of agent 0, gives way to the other operand only where it is repeated along it:
    where both operands have one sample, it is the left one that is kept. -/

namespace PerfCounters

open PerfCounters.Parser (bind_eq_ok)

namespace Records

variable {α : Type} {a : Nat} {l r records made : Records α}

/-- All samples are of one agent. -/
def OfAgent (a : Nat) (records : Records α) : Prop := ∀ r ∈ records, r.agent = a

/-- No more samples than there were, each of an agent that there was. -/
structure Attributes (records made : Records α) : Prop where
  few : made.length ≤ records.length
  agents : ∀ r ∈ made, ∃ s ∈ records, r.agent = s.agent

theorem Attributes.ofAgent (h : Attributes records made) (hagent : records.OfAgent a) : made.OfAgent a := fun r hr => by
  obtain ⟨s, hs, heq⟩ := h.agents r hr
  rw [heq, hagent s hs]

/-- Samples made one by one. -/
theorem attributes_map {f : Sample α → Sample α} (hf : ∀ s, (f s).agent = s.agent) :
    Attributes records (records.map f) := by
  refine ⟨Nat.le_of_eq (List.length_map _), fun r hr => ?_⟩
  obtain ⟨s, hs, rfl⟩ := List.mem_map.mp hr
  exact ⟨s, hs, hf s⟩

theorem attributes_select (filters : Filters) (records : Records α) : Attributes records (records.select filters) := by
  let allowed := records.filter fun r => filters.all fun f => f.2.contains (r.id.position f.1)
  have hmap : Attributes allowed (allowed.map (cleared filters.dimensions)) := attributes_map fun _ => rfl
  refine ⟨Nat.le_trans hmap.few (List.length_filter_le _ _), fun r hr => ?_⟩
  obtain ⟨s, hs, heq⟩ := hmap.agents r hr
  exact ⟨s, (List.mem_filter.mp hs).1, heq⟩

/-- A group is attributed to the agent of its first sample. -/
theorem attributes_reduce (op : Reduction α) (ds : List Dimension) (records : Records α) :
    Attributes records (records.reduce op ds) := by
  by_cases hds : ds = []
  · cases records with
    | nil => exact ⟨Nat.le_refl _, fun r hr => (by cases hr)⟩
    | cons first rest =>
      rw [reduce, if_pos hds]
      refine ⟨Nat.succ_le_succ (Nat.zero_le _), fun r hr => ⟨first, List.mem_cons_self, ?_⟩⟩
      rw [List.mem_singleton.mp hr]
  · induction records using induction_on_groups ds with
    | nil => exact ⟨Nat.le_refl _, fun r hr => (by cases hr)⟩
    | cons first rest ih =>
      rw [reduce_cons_groups hds]
      refine ⟨Nat.succ_le_succ (Nat.le_trans ih.few (List.length_filter_le _ _)), fun r hr => ?_⟩
      rcases List.mem_cons.mp hr with rfl | hr
      · exact ⟨first, List.mem_cons_self, rfl⟩
      · obtain ⟨s, hs, heq⟩ := ih.agents r hr
        exact ⟨s, List.mem_cons_of_mem _ (List.mem_filter.mp hs).1, heq⟩

/-- Results are attributed as the samples of the left operand, unless this is one sample that is repeated along the
    other. -/
theorem attributes_zipValues? {f : α → α → α} (h : zipValues? f l r = some made) :
    Attributes l made ∧ (r.length = 1 ∨ l.length = r.length) ∨ Attributes r made ∧ r.length ≠ 1 := by
  unfold zipValues? at h
  split at h
  · rename_i hlen
    cases h
    refine Or.inl ⟨⟨by simp [hlen], fun s hs => ?_⟩, Or.inr hlen⟩
    obtain ⟨i, hi, rfl⟩ := List.mem_iff_getElem.mp hs
    rw [List.getElem_zipWith]
    exact ⟨_, List.getElem_mem _, rfl⟩
  · rename_i hlen
    split at h
    · cases h
      exact Or.inr ⟨attributes_map fun _ => rfl, fun hone => hlen hone.symm⟩
    · cases h
      exact Or.inl ⟨attributes_map fun _ => rfl, Or.inl rfl⟩
    · cases h

theorem attributes_tag {k : Nat} (h : tag k records = .ok made) : Attributes records made := by
  by_cases hk : k ≤ maxCounterId
  · rw [tag_eq_ok hk] at h
    cases h
    exact attributes_map fun _ => rfl
  · cases records with
    | nil =>
      cases h
      exact ⟨Nat.le_refl _, fun r hr => (by cases hr)⟩
    | cons first rest =>
      have hover : first.id.setCounter k = .error (.counterIdOverflow k) := if_pos (Nat.lt_of_not_le hk)
      rw [tag, List.mapM_cons, hover] at h
      cases h

end Records

namespace Tree

variable {base : BaseSamples} {a : Nat} {n : Note} {t : Tree} {records made out : Records Float}

/-- The leftmost leaf is a literal, and every right operand on the way up from it has one sample: the results are then made
    of the sample of the literal. -/
def LedByLiteral (base : BaseSamples) : Tree → Prop
  | .number _ _ => True
  | .reference _ _ | .accumulate _ _ _ => False
  | .binary _ _ lhs rhs => lhs.LedByLiteral base ∧ ∃ r, rhs.value base = .ok [r]
  | .reduce _ child _ _ | .select _ child _ => child.LedByLiteral base

theorem attributes_retag (h : retag n records = .ok made) : Records.Attributes records made := by
  unfold retag at h
  split at h
  · cases h
    exact ⟨Nat.le_refl _, fun r hr => ⟨r, hr, rfl⟩⟩
  · rename_i k hk
    cases htag : Records.tag k records with
    | error e => rw [htag] at h; cases h
    | ok tagged =>
      rw [htag] at h
      cases h
      exact Records.attributes_tag htag

/-- What evaluation makes of samples of the agent `a`: samples of this agent or, where a literal leads, at
    most one sample of agent 0. -/
structure Attributed (a : Nat) (led : Prop) (out : Records Float) : Prop where
  measured : ¬led → out.OfAgent a
  literal : led → out.length ≤ 1 ∧ out.OfAgent 0

theorem Attributed.attributes {led : Prop} (h : Attributed a led records) (hmade : Records.Attributes records made) :
    Attributed a led made :=
  ⟨fun hled => hmade.ofAgent (h.measured hled),
    fun hled => ⟨Nat.le_trans hmade.few (h.literal hled).1, hmade.ofAgent (h.literal hled).2⟩⟩

/-- A literal that leads leaves one sample, or none. -/
theorem Attributed.of_length_ne_one {led : Prop} (h : Attributed a led records) (hne : records.length ≠ 1) :
    records.OfAgent a := by
  by_cases hled : led
  · have hempty : records = [] := List.length_eq_zero_iff.mp (by have := (h.literal hled).1; omega)
    rw [hempty]
    exact fun r hr => (by cases hr)
  · exact h.measured hled

/-- One of the operands is kept, and it is the one on the left where both have one sample. -/
theorem Attributed.combine {op : BinaryOp} {l r : Records Float} {ledl ledr : Prop} (hl : Attributed a ledl l)
    (hr : Attributed a ledr r) (h : Tree.combine op l r = .ok made) : Attributed a (ledl ∧ ∃ s, r = [s]) made := by
  have hzip : Records.zipValues? op.apply l r = some made := by
    unfold Tree.combine at h
    split at h
    · rename_i heq
      cases h
      exact heq
    · cases h
  rcases Records.attributes_zipValues? hzip with ⟨hmade, hfit⟩ | ⟨hmade, hmany⟩
  · refine ⟨fun hnot => ?_, fun hled => (hl.attributes hmade).literal hled.1⟩
    by_cases hone : r.length = 1
    · exact (hl.attributes hmade).measured fun hledl => hnot ⟨hledl, List.length_eq_one_iff.mp hone⟩
    · exact hmade.ofAgent (hl.of_length_ne_one (hfit.resolve_left hone ▸ hone))
  · refine ⟨fun _ => hmade.ofAgent (hr.of_length_ne_one hmany), fun ⟨_, s, hs⟩ => absurd ?_ hmany⟩
    rw [hs]
    rfl

theorem attributed_leaf (hbase : ∀ id records, base.get? id = some records → records.OfAgent a) {m : Metric}
    (h : leaf base m = .ok records) : Attributed a False records := by
  unfold leaf at h
  split at h
  · rename_i heq
    cases h
    exact ⟨fun _ => hbase _ _ heq, False.elim⟩
  · cases h

/-- Every node keeps to this; whether a literal leads is decided where two operands meet. -/
theorem attributed_value (hbase : ∀ id records, base.get? id = some records → records.OfAgent a)
    (h : t.value base = .ok out) : Attributed a (t.LedByLiteral base) out := by
  induction t generalizing out with
  | number n v =>
    refine Attributed.attributes ⟨fun hnot => absurd trivial hnot, fun _ => ⟨Nat.le_refl _, fun r hr => ?_⟩⟩
      (attributes_retag h)
    rw [List.mem_singleton.mp hr]
  | reference n m | accumulate n m mode =>
    obtain ⟨records, hleaf, h⟩ := bind_eq_ok h
    exact (attributed_leaf hbase hleaf).attributes (attributes_retag h)
  | binary n op lhs rhs ihl ihr =>
    obtain ⟨l, hl, h⟩ := bind_eq_ok h
    obtain ⟨r, hr, h⟩ := bind_eq_ok h
    obtain ⟨combined, hcombined, h⟩ := bind_eq_ok h
    have hled : (Tree.binary n op lhs rhs).LedByLiteral base ↔ lhs.LedByLiteral base ∧ ∃ s, r = [s] := by
      simp [LedByLiteral, hr]
    rw [hled]
    exact ((ihl hl).combine (ihr hr) hcombined).attributes (attributes_retag h)
  | reduce n child op ds ih =>
    obtain ⟨records, hchild, h⟩ := bind_eq_ok h
    exact ((ih hchild).attributes (Records.attributes_reduce _ _ _)).attributes (attributes_retag h)
  | select n child filters ih =>
    obtain ⟨records, hchild, h⟩ := bind_eq_ok h
    exact ((ih hchild).attributes (Records.attributes_select _ _)).attributes (attributes_retag h)

end Tree

namespace Evaluator

open PerfCounters.Tree

variable {e : Evaluator} {name : String} {base : BaseSamples} {a : Nat} {out : Records Float}

/-- Where all samples are of one agent, so are all results, except where a literal leads: the result is then one sample of
    agent 0. Results that are more than one sample are always attributed to the agent. -/
theorem evaluate_keeps_agent_iff (hbase : ∀ id records, base.get? id = some records → ∀ r ∈ records, r.agent = a)
    (hout : e.evaluate name base = .ok out) :
    ∃ t, e.tree name = .ok t ∧
      ((∀ r ∈ out, r.agent = a) ↔ (t.LedByLiteral base → a = 0 ∨ out = [])) ∧
      ((∀ r ∈ out, r.agent = a) ∨ ∃ r, out = [r] ∧ r.agent = 0) := by
  cases ht : e.tree name with
  | error failure =>
    unfold evaluate evaluateIn at hout
    rw [ht] at hout
    cases hout
  | ok t =>
    rw [evaluate_of_tree ht] at hout
    have hattributed := attributed_value hbase hout
    refine ⟨t, rfl, ⟨fun hall hled => ?_, fun hled => ?_⟩, ?_⟩
    · cases out with
      | nil => exact Or.inr rfl
      | cons r rest =>
        exact Or.inl ((hall r List.mem_cons_self).symm.trans ((hattributed.literal hled).2 r List.mem_cons_self))
    · by_cases h : t.LedByLiteral base
      · rcases hled h with rfl | rfl
        · exact (hattributed.literal h).2
        · exact fun r hr => (by cases hr)
      · exact hattributed.measured h
    · by_cases hone : out.length = 1
      · obtain ⟨r, rfl⟩ := List.length_eq_one_iff.mp hone
        by_cases h : t.LedByLiteral base
        · exact Or.inr ⟨r, rfl, (hattributed.literal h).2 r List.mem_cons_self⟩
        · exact Or.inl (hattributed.measured h)
      · exact Or.inl (hattributed.of_length_ne_one hone)

namespace NegatedCounter

/-- A counter, and its negative as a difference from a literal. -/
def catalog : Catalog :=
  (Catalog.empty.registerAll [{ name := "A", architecture := "g", block := "S" },
    { name := "D", architecture := "g", expression := "0 - A" }]).1

def counter : Metric := { name := "A", architecture := "g", block := "S", id := 1 }

def difference : Tree :=
  .binary ⟨Layout.scalar, some 2⟩ .sub (.number ⟨Layout.scalar, none⟩ (Float.ofBits 0))
    (.reference ⟨Layout.scalar, none⟩ counter)

/-- One sample of the third agent. -/
def samples : BaseSamples := [(1, [{ id := InstanceId.zero.withCounter 1, value := Float.ofBits 0, agent := 3 }])]

/-- The counter is required and it is of the third agent, but its negative is not. -/
theorem evaluate_loses_agent : ∃ e out, ofCatalog catalog "g" = .ok e ∧ e.required "D" = .ok [counter] ∧
    (∀ id records, samples.get? id = some records → ∀ r ∈ records, r.agent = 3) ∧ e.evaluate "D" samples = .ok out ∧
    e.tree "D" = .ok difference ∧ difference.LedByLiteral samples ∧ ∃ r ∈ out, r.agent ≠ 3 := by
  have heval : (do let e ← ofCatalog catalog "g"; return (← e.required "D", ← e.tree "D")) =
      .ok ([counter], difference) := by cbv
  obtain ⟨e, he, h⟩ := bind_eq_ok heval
  obtain ⟨ms, hms, h⟩ := bind_eq_ok h
  obtain ⟨t, ht, h⟩ := bind_eq_ok h
  cases h
  have hbase : ∀ id records, samples.get? id = some records → ∀ r ∈ records, r.agent = 3 := by
    intro id records h
    rw [samples, BaseSamples.get?_cons] at h
    split at h
    · cases h
      exact List.forall_mem_singleton.mpr rfl
    · cases h
  have hout : e.evaluate "D" samples =
      .ok [{ id := InstanceId.zero.withCounter 2, value := Float.ofBits 0 - Float.ofBits 0 }] :=
    (evaluate_of_tree ht samples).trans rfl
  obtain ⟨t, ht', hiff, -⟩ := evaluate_keeps_agent_iff hbase hout
  obtain rfl := Except.ok.inj (ht.symm.trans ht')
  have hled : difference.LedByLiteral samples := ⟨trivial, _, rfl⟩
  refine ⟨e, _, he, hms, hbase, hout, ht, hled, ?_⟩
  by_contra! hall
  rcases hiff.mp hall hled with h | h <;> cases h

end NegatedCounter

end Evaluator

end PerfCounters
