import PerfCounters.Proofs.Documents.Positions

/-! When operands do not fit. Inference compares the axes of operands and repeats an operand of one axis along
    several; evaluation compares the numbers of samples and repeats a single sample. Whether they agree is a
    matter of the catalog, not of the samples. -/

namespace PerfCounters

open InstanceId
open PerfCounters.Parser (bind_eq_ok)

namespace Tree

/-- Wherever the tree has arithmetic, both operands fill their layouts, and these hold as many instances, or
    one of them a single one. -/
def Fits : Tree → Prop
  | .number _ _ | .reference _ _ | .accumulate _ _ _ => True
  | .binary _ _ lhs rhs => lhs.Fits ∧ rhs.Fits ∧ lhs.Fills .exact ∧ rhs.Fills .exact ∧
    (lhs.layout.count = rhs.layout.count ∨ lhs.layout.count = 1 ∨ rhs.layout.count = 1)
  | .reduce _ child _ _ | .select _ child _ => child.Fits

variable {c : Catalog} {t : Tree} {leaf : Metric → Except EvalError (List InstanceId)}

theorem exists_fitIds {l r : List InstanceId} (h : l.length = r.length ∨ l.length = 1 ∨ r.length = 1) :
    ∃ ids, fitIds l r = .ok ids := by
  unfold fitIds Records.zipIds?
  by_cases hlen : l.length = r.length
  · rw [if_pos hlen]
    exact ⟨l, rfl⟩
  · rw [if_neg hlen]
    rcases h.resolve_left hlen with h | h
    · obtain ⟨x, rfl⟩ := List.length_eq_one_iff.mp h
      exact ⟨r, rfl⟩
    · obtain ⟨x, rfl⟩ := List.length_eq_one_iff.mp h
      match l with
      | [] => exact ⟨[], rfl⟩
      | [y] => exact absurd rfl hlen
      | y :: z :: l => exact ⟨y :: z :: l, rfl⟩

theorem length_of_fills (hreads : Reads c leaf t) (hfills : t.Fills .exact) {ids : List InstanceId}
    (hshape : t.shape leaf = .ok ids) : ids.length = t.layout.count := by
  obtain ⟨o, -, hfilled⟩ := exists_filled hreads hfills hshape
  have hids : ids = t.layout.ids o := hfilled
  rw [hids, Layout.length_ids hreads.proper]

/-- Where operands fit, it is for a metric if a tree has no shape. -/
theorem leaf_error_of_fits (hreads : Reads c leaf t) (hfits : t.Fits) {cause : EvalError}
    (hshape : t.shape leaf = .error cause) : ∃ m ∈ t.leaves, leaf m = .error cause := by
  induction t with
  | number n v => cases hshape
  | reference n m | accumulate n m mode =>
    rcases bind_eq_error hshape with hread | ⟨_, _, hshape⟩
    · exact ⟨m, List.mem_singleton.mpr rfl, hread⟩
    · cases hshape
  | binary n op lhs rhs ihl ihr =>
    obtain ⟨hlfits, hrfits, hlfills, hrfills, hcount⟩ := hfits
    rcases bind_eq_error hshape with hl | ⟨l, hl, hshape⟩
    · obtain ⟨m, hm, hread⟩ := ihl hreads.left hlfits hl
      exact ⟨m, List.mem_append_left _ hm, hread⟩
    · rcases bind_eq_error hshape with hr | ⟨r, hr, hshape⟩
      · obtain ⟨m, hm, hread⟩ := ihr hreads.right hrfits hr
        exact ⟨m, List.mem_append_right _ hm, hread⟩
      · rw [← length_of_fills hreads.left hlfills hl, ← length_of_fills hreads.right hrfills hr] at hcount
        obtain ⟨ids, hfit⟩ := exists_fitIds hcount
        rw [hfit] at hshape
        cases hshape
  | reduce n child op ds ih =>
    rcases bind_eq_error hshape with hchild | ⟨_, _, hshape⟩
    · exact ih hreads.reduced hfits hchild
    · cases hshape
  | select n child filters ih =>
    rcases bind_eq_error hshape with hchild | ⟨_, _, hshape⟩
    · exact ih hreads.selected hfits hchild
    · cases hshape

end Tree

namespace Evaluator

open PerfCounters.Tree

variable {c : Catalog} {architecture : String}

/-- Whether operands fit, and the sizes that do not, follow from the catalog; they fit where they fill layouts
    of as many instances. -/
theorem evaluate_sizeMismatch_iff {text : String} (hc : Catalog.ofText text = .ok c)
    (harch : architecture ∈ c.architectures) :
    ∃ e, ofCatalog c architecture = .ok e ∧ ∀ name t ms base, e.tree name = .ok t → e.required name = .ok ms →
      LaidOut e base ms → Only base ms →
        (∀ l r, e.evaluate name base = .error (.sizeMismatch l r) ↔ t.shape (readIds c) = .error (.sizeMismatch l r)) ∧
        (t.Fits → ∀ l r, e.evaluate name base ≠ .error (.sizeMismatch l r)) := by
  obtain ⟨hsound, hevaluators⟩ := Catalog.ofText_ok hc
  obtain ⟨e, he⟩ := hevaluators architecture harch
  refine ⟨e, he, fun name t ms base ht hms hbase honly => ?_⟩
  obtain ⟨m, t', rfl, ht', htree, hrequired, hmeasured⟩ := required_ok hsound.built.numbered he hms
  rw [ht] at ht'
  cases ht'
  have hflat := htree.flat
  have hothers : ∀ x ∈ t.leaves, x.isDerived = true → base.get? x.id = none := by
    intro x hx hderived
    refine honly x.id fun y hy hid => ?_
    rw [← (hrequired y hy).1.eq_of_id (hflat.known x hx).1 hid, (hrequired y hy).2] at hderived
    cases hderived
  have hiff : ∀ l r, e.evaluate name base = .error (.sizeMismatch l r) ↔
      t.shape (readIds c) = .error (.sizeMismatch l r) := by
    intro l r
    rw [evaluate_of_tree ht, ← map_ids_value_of_laidOut hsound he hflat hbase hmeasured hothers, map_eq_error]
  refine ⟨hiff, fun hfits l r hmismatch => ?_⟩
  obtain ⟨x, hx, hread⟩ := leaf_error_of_fits (reads_readIds hsound hflat htree.laid) hfits ((hiff l r).mp hmismatch)
  unfold readIds at hread
  split at hread <;> cases hread

namespace FourInstances

/-- The mean along one axis is repeated along both by inference, not by evaluation. -/
theorem shareOfMean_does_not_fit :
    ∃ c e base, Catalog.ofText text = .ok c ∧ "g" ∈ c.architectures ∧ ofCatalog c "g" = .ok e ∧
    e.required "E" = .ok [b] ∧ LaidOut e base [b] ∧ Only base [b] ∧ e.evaluate "E" base = .error (.sizeMismatch 4 2) := by
  obtain ⟨c, e, htext, harch, he, h⟩ := exists_evaluator
  obtain ⟨hrequired, -, base, hbase, honly, hvalue⟩ := h ("E", [b], shareOfMean)
    (List.mem_cons_of_mem _ (List.mem_cons_of_mem _ List.mem_cons_self))
  have hshape : shareOfMean.shape ids = .error (.sizeMismatch 4 2) := by decide
  rw [hshape, map_eq_error] at hvalue
  exact ⟨c, e, base, htext, harch, he, hrequired, hbase, honly, hvalue⟩

theorem share_fits : ∃ c e t ms base, Catalog.ofText text = .ok c ∧ "g" ∈ c.architectures ∧ ofCatalog c "g" = .ok e ∧
    e.tree "D" = .ok t ∧ e.required "D" = .ok ms ∧ LaidOut e base ms ∧ Only base ms ∧ t.Fits ∧
    ∀ l r, e.evaluate "D" base ≠ .error (.sizeMismatch l r) := by
  obtain ⟨c, e, htext, harch, he, h⟩ := exists_evaluator
  obtain ⟨hrequired, ht, base, hbase, honly, -⟩ := h ("D", [b], share) (List.mem_cons_of_mem _ List.mem_cons_self)
  have hfits : share.Fits := ⟨trivial, trivial, trivial, ⟨trivial, rfl⟩, Or.inr (Or.inr rfl)⟩
  obtain ⟨e', he', hall⟩ := evaluate_sizeMismatch_iff htext harch
  rw [he] at he'
  cases he'
  exact ⟨c, e, share, [b], base, htext, harch, he, ht, hrequired, hbase, honly, hfits,
    (hall "D" share [b] base ht hrequired hbase honly).2 hfits⟩

end FourInstances

end Evaluator

end PerfCounters
