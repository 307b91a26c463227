import PerfCounters.Evaluator
import PerfCounters.Proofs.Trees.Caching
import PerfCounters.Proofs.Trees.Denotation

/-! What evaluation leaves in a cache. A tree that denotes samples adds one list for each of its nodes, operands first: what
    the node denotes, but none for a leaf whose samples are read where they are. Nothing else is written, and a
    tree that fails leaves nothing. So what a cache held before has no part in the outcome. -/

namespace PerfCounters

namespace Tree

/-- What the nodes of a tree denote, operands first. Samples that are not tagged are read in place. -/
def made (base : BaseSamples) : Tree → List (Records Float)
  | .number n v => ((number n v).denote base).toOption.toList
  | .reference n m => if n.outId.isSome then ((reference n m).denote base).toOption.toList else []
  | .accumulate n m mode => if n.outId.isSome then ((accumulate n m mode).denote base).toOption.toList else []
  | .binary n op lhs rhs => lhs.made base ++ rhs.made base ++ ((binary n op lhs rhs).denote base).toOption.toList
  | .reduce n child op ds => child.made base ++ ((reduce n child op ds).denote base).toOption.toList
  | .select n child filters => child.made base ++ ((select n child filters).denote base).toOption.toList

end Tree

namespace Evaluation

variable {base : BaseSamples} {cache final : Cache} {place : Place} {n : Note}

/-- A sequence that succeeds does so step by step. -/
theorem run_bind_ok {α β : Type} {x : Evaluation α} {f : α → Evaluation β} {b : β}
    (h : ExceptT.run (x >>= f) cache = (.ok b, final)) :
    ∃ a mid, ExceptT.run x cache = (.ok a, mid) ∧ ExceptT.run (f a) mid = (.ok b, final) := by
  rw [run_bind] at h
  cases hx : ExceptT.run x cache with
  | mk answer mid =>
    rw [hx] at h
    cases answer with
    | error e => cases h
    | ok a => exact ⟨a, mid, rfl, h⟩

theorem setIfInBounds_push (cache : Cache) (records tagged : Records Float) :
    (cache.push records).setIfInBounds cache.size tagged = cache.push tagged := by
  apply Array.ext'
  simp

/-- A list of the cache is tagged where it is. -/
theorem retagAt_cached {index : Nat} (h : ExceptT.run (retagAt base n (.cached index)) cache = (.ok place, final)) :
    place = .cached index ∧ (final = cache ∨ ∃ list, final = cache.setIfInBounds index list) := by
  unfold retagAt at h
  cases hid : n.outId with
  | none =>
    rw [hid] at h
    cases h
    exact ⟨rfl, .inl rfl⟩
  | some counter =>
    rw [hid] at h
    obtain ⟨taken, _, htake, h⟩ := run_bind_ok h
    rw [run_takeOut_cached] at htake
    cases htake
    cases htag : Records.tag counter (read base cache (.cached index)) with
    | error e =>
      rw [htag] at h
      cases h
    | ok tagged =>
      rw [htag] at h
      simp only [run_putBack_cached, setIfInBounds_setIfInBounds] at h
      cases h
      exact ⟨rfl, .inr ⟨tagged, rfl⟩⟩

/-- The samples of a base metric are copied if they are to be tagged, and only then. -/
theorem retagAt_base {id : Nat} (h : ExceptT.run (retagAt base n (.base id)) cache = (.ok place, final)) :
    if n.outId.isSome then ∃ list, final = cache.push list ∧ place = .cached cache.size else final = cache := by
  unfold retagAt at h
  cases hid : n.outId with
  | none =>
    rw [hid] at h
    cases h
    rfl
  | some counter =>
    rw [hid] at h
    obtain ⟨taken, _, htake, h⟩ := run_bind_ok h
    rw [run_takeOut_base] at htake
    cases htake
    cases htag : Records.tag counter (read base cache (.base id)) with
    | error e =>
      rw [htag] at h
      cases h
    | ok tagged =>
      rw [htag] at h
      simp only [run_putBack_base] at h
      cases h
      exact ⟨tagged, rfl, rfl⟩

/-- A list that is kept and tagged is one list more. -/
theorem exists_pushed {records : Records Float}
    (h : ExceptT.run (keep records >>= retagAt base n) cache = (.ok place, final)) :
    ∃ list, final = cache.push list ∧ place = .cached cache.size := by
  obtain ⟨_, _, hkeep, h⟩ := run_bind_ok h
  cases hkeep
  obtain ⟨hplace, rfl | ⟨tagged, rfl⟩⟩ := retagAt_cached h
  · exact ⟨records, rfl, hplace⟩
  · exact ⟨tagged, setIfInBounds_push cache records tagged, hplace⟩

theorem leafAt_ok {m : Metric} (h : ExceptT.run (leafAt base m) cache = (.ok place, final)) :
    place = .base m.id ∧ final = cache := by
  unfold leafAt at h
  cases hget : base.get? m.id with
  | none =>
    rw [hget] at h
    cases h
  | some records =>
    rw [hget] at h
    cases h
    exact ⟨rfl, rfl⟩

theorem exists_copied {m : Metric} (h : ExceptT.run (leafAt base m >>= retagAt base n) cache = (.ok place, final)) :
    if n.outId.isSome then ∃ list, final = cache.push list ∧ place = .cached cache.size else final = cache := by
  obtain ⟨leaf, mid, hleaf, hrest⟩ := run_bind_ok h
  obtain ⟨rfl, rfl⟩ := leafAt_ok hleaf
  exact retagAt_base hrest

/-- The list that a node adds is what it denotes. -/
theorem push_denoted {t : Tree} {mid : Cache} {list : Records Float}
    (h : ExceptT.run (ofTree base t) cache = (.ok (.cached mid.size), mid.push list)) :
    mid.push list = mid ++ ((t.denote base).toOption.toList).toArray := by
  have hends := ends_ofTree base t cache
  rw [h] at hends
  have hdenotes : t.denote base = .ok list := by
    rw [← t.value_eq_denote, hends.1]
    simp [read]
  rw [hdenotes]
  simp [Except.toOption]

theorem cache_ofTree {t : Tree} (h : ExceptT.run (ofTree base t) cache = (.ok place, final)) :
    final = cache ++ (t.made base).toArray := by
  induction t generalizing cache place final with
  | number n v =>
    obtain ⟨list, rfl, rfl⟩ := exists_pushed h
    exact push_denoted h
  | reference n m | accumulate n m mode =>
    have hcopied := exists_copied h
    unfold Tree.made
    by_cases htagged : n.outId.isSome = true
    · rw [if_pos htagged] at hcopied ⊢
      obtain ⟨list, rfl, rfl⟩ := hcopied
      exact push_denoted h
    · rw [if_neg htagged] at hcopied ⊢
      rw [hcopied, List.toArray, Array.append_empty]
  | binary n op lhs rhs ihl ihr =>
    have hrun := h
    unfold ofTree at hrun
    obtain ⟨l, cache₁, hl, hrun⟩ := run_bind_ok hrun
    obtain ⟨r, cache₂, hr, hrun⟩ := run_bind_ok hrun
    obtain ⟨_, _, hfetch, hrun⟩ := run_bind_ok hrun
    cases hfetch
    obtain ⟨_, _, hfetch, hrun⟩ := run_bind_ok hrun
    cases hfetch
    cases hcombine : Tree.combine op (read base cache₂ l) (read base cache₂ r) with
    | error e =>
      rw [hcombine] at hrun
      cases hrun
    | ok records =>
      rw [hcombine] at hrun
      obtain ⟨list, rfl, rfl⟩ := exists_pushed hrun
      rw [push_denoted h, ihr hr, ihl hl]
      simp only [Tree.made, ← List.append_toArray, Array.append_assoc]
  | reduce n child op ds ih | select n child filters ih =>
    have hrun := h
    unfold ofTree at hrun
    obtain ⟨c, cache₁, hc, hrun⟩ := run_bind_ok hrun
    obtain ⟨_, _, hfetch, hrun⟩ := run_bind_ok hrun
    cases hfetch
    obtain ⟨list, rfl, rfl⟩ := exists_pushed hrun
    rw [push_denoted h, ih hc]
    simp only [Tree.made, ← List.append_toArray, Array.append_assoc]

end Evaluation

open Evaluation

theorem Tree.evaluate_eq (base : BaseSamples) (cache : Cache) (t : Tree) :
    t.evaluate base cache = match t.denote base with
      | .ok records => (cache ++ (t.made base).toArray, .ok records)
      | .error e => (cache, .error e) := by
  obtain ⟨hresult, -, hcache⟩ := t.evaluate_eq_value base cache
  rw [t.value_eq_denote base] at hresult hcache
  cases hdenotes : t.denote base with
  | error e => exact Prod.ext (hcache e hdenotes) (hresult.trans hdenotes)
  | ok records =>
    refine Prod.ext ?_ (hresult.trans hdenotes)
    unfold Tree.evaluate at hresult ⊢
    cases hrun : ExceptT.run (ofTree base t) cache with
    | mk answer final =>
      rw [hrun, hdenotes] at hresult
      cases answer with
      | error e => cases hresult
      | ok place => exact cache_ofTree hrun

theorem Evaluator.evaluateIn_eq (e : Evaluator) (name : String) (base : BaseSamples) (cache : Cache) :
    (e.evaluateIn name base cache).2 = (do (← e.tree name).denote base) := by
  unfold Evaluator.evaluateIn
  cases e.tree name with
  | error failure => rfl
  | ok t => exact (t.evaluate_eq_value base cache).1.trans (t.value_eq_denote base)

/-- Evaluation in a cache gives what the tree denotes, or fails as that does. The lists that were in the cache stay
    where they are, and a failure leaves no others; so an evaluator answers the same in every cache. -/
theorem Evaluation.evaluate_in_any_cache (base : BaseSamples) (cache : Cache) :
    (∀ t : Tree,
      (t.evaluate base cache).2 = t.denote base ∧
      (∀ i, i < cache.size → (t.evaluate base cache).1[i]? = cache[i]?) ∧
      (∀ e, t.denote base = .error e → (t.evaluate base cache).1 = cache) ∧
      ∀ records, t.denote base = .ok records → (t.evaluate base cache).1 = cache ++ (t.made base).toArray) ∧
    ∀ (e : Evaluator) (name : String),
      (e.evaluateIn name base cache).2 = e.evaluate name base ∧
      e.evaluate name base = (do (← e.tree name).denote base) ∧
      (∀ i, i < cache.size → (e.evaluateIn name base cache).1[i]? = cache[i]?) ∧
      ∀ failure, e.evaluate name base = .error failure → (e.evaluateIn name base cache).1 = cache := by
  have htree : ∀ t : Tree, (t.evaluate base cache).2 = t.denote base ∧ Extends cache (t.evaluate base cache).1 ∧
      ∀ e, t.denote base = .error e → (t.evaluate base cache).1 = cache := fun t => by
    rw [← t.value_eq_denote base]
    exact t.evaluate_eq_value base cache
  refine ⟨fun t => ?_, fun e name => ?_⟩
  · obtain ⟨hresult, hext, hfailure⟩ := htree t
    refine ⟨hresult, hext.2, hfailure, fun records hdenotes => ?_⟩
    rw [t.evaluate_eq base cache, hdenotes]
  · have hdenotes : e.evaluate name base = (do (← e.tree name).denote base) := e.evaluateIn_eq name base #[]
    refine ⟨(e.evaluateIn_eq name base cache).trans hdenotes.symm, hdenotes, ?_⟩
    rw [hdenotes]
    unfold Evaluator.evaluateIn
    cases e.tree name with
    | error failure => exact ⟨fun _ _ => rfl, fun _ _ => rfl⟩
    | ok t =>
      obtain ⟨-, hext, hfailure⟩ := htree t
      exact ⟨hext.2, hfailure⟩

end PerfCounters
