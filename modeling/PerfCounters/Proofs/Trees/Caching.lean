import Mathlib.Data.List.Basic
import PerfCounters.Tree.Evaluation

/-! Evaluation in a cache means the same as the plain value. A step may only add lists behind those that
    were in the cache before it, or change lists that were added since: so a place that was answered
    keeps its meaning while the other operand is evaluated. -/

namespace PerfCounters

namespace Evaluation

variable {base : BaseSamples} {old cache cache' : Cache} {place : Place} {records : Records Float}

/-- The lists of the first cache are the first lists of the second one. -/
def Extends (old cache : Cache) : Prop := old.size ≤ cache.size ∧ ∀ i, i < old.size → cache[i]? = old[i]?

theorem Extends.refl (cache : Cache) : Extends cache cache := ⟨Nat.le_refl _, fun _ _ => rfl⟩

theorem Extends.trans (h : Extends old cache) (h' : Extends cache cache') : Extends old cache' :=
  ⟨Nat.le_trans h.1 h'.1, fun i hi => (h'.2 i (Nat.lt_of_lt_of_le hi h.1)).trans (h.2 i hi)⟩

theorem Extends.push (cache : Cache) (records : Records Float) : Extends cache (cache.push records) := by
  refine ⟨by simp, fun i hi => ?_⟩
  rw [Array.getElem?_push, if_neg (Nat.ne_of_lt hi)]

/-- Changing a list that was not there before. -/
theorem Extends.set (h : Extends old cache) {index : Nat} (hindex : old.size ≤ index) (records : Records Float) :
    Extends old (cache.setIfInBounds index records) := by
  refine ⟨by simpa using h.1, fun i hi => ?_⟩
  rw [Array.getElem?_setIfInBounds_ne (by omega)]
  exact h.2 i hi

theorem Extends.take_eq (h : Extends old cache) : cache.take old.size = old := by
  apply Array.ext
  · simpa using Nat.min_eq_left h.1
  · intro i hi _
    have hlt : i < old.size := by simp at hi; omega
    have heq := h.2 i hlt
    rw [Array.getElem?_eq_getElem hlt, Array.getElem?_eq_getElem (Nat.lt_of_lt_of_le hlt h.1)] at heq
    simpa using heq

/-- The place is one of a base metric, or of a list that was added since. -/
def Fresh (old cache : Cache) : Place → Prop
  | .base _ => True
  | .cached index => old.size ≤ index ∧ index < cache.size

/-- What is at a fresh place stays there while the cache is extended. -/
theorem read_of_extends (base : BaseSamples) (h : Fresh old cache place) (hext : Extends cache cache') :
    read base cache' place = read base cache place := by
  cases place with
  | base id => rfl
  | cached index =>
    have heq := hext.2 index h.2
    simp only [read, Array.getD_eq_getD_getElem?, heq]

/-- The end of a step that should answer `v`: it does, at a fresh place, or it fails as `v` does; and the
    cache it was started in is extended. -/
def Ends (base : BaseSamples) (old : Cache) (v : Except EvalError (Records Float)) :
    Except EvalError Place × Cache → Prop
  | (.ok place, cache) => v = .ok (read base cache place) ∧ Extends old cache ∧ Fresh old cache place
  | (.error e, cache) => v = .error e ∧ Extends old cache

/-- One step after another. -/
theorem run_bind {α β : Type} (x : Evaluation α) (f : α → Evaluation β) (cache : Cache) :
    ExceptT.run (x >>= f) cache = match ExceptT.run x cache with
      | (.ok a, cache) => ExceptT.run (f a) cache
      | (.error e, cache) => (.error e, cache) := by
  show (ExceptT.run x >>= ExceptT.bindCont f) cache = _
  show ExceptT.bindCont f (ExceptT.run x cache).1 (ExceptT.run x cache).2 = _
  cases ExceptT.run x cache with
  | mk answer cache => cases answer <;> rfl

/-! ### The steps -/

theorem run_takeOut_base (base : BaseSamples) (id : Nat) (cache : Cache) :
    ExceptT.run (takeOut base (.base id)) cache = (.ok (read base cache (.base id)), cache) := rfl

theorem run_takeOut_cached (base : BaseSamples) (index : Nat) (cache : Cache) :
    ExceptT.run (takeOut base (.cached index)) cache =
      (.ok (read base cache (.cached index)), cache.setIfInBounds index []) := rfl

theorem run_putBack_base (records : Records Float) (id : Nat) (cache : Cache) :
    ExceptT.run (putBack records (.base id)) cache = (.ok (.cached cache.size), cache.push records) := rfl

theorem run_putBack_cached (records : Records Float) (index : Nat) (cache : Cache) :
    ExceptT.run (putBack records (.cached index)) cache = (.ok (.cached index), cache.setIfInBounds index records) := rfl

/-- A list that is taken out and put back is a list that is changed in place. -/
theorem setIfInBounds_setIfInBounds (cache : Cache) (index : Nat) (records tagged : Records Float) :
    (cache.setIfInBounds index records).setIfInBounds index tagged = cache.setIfInBounds index tagged := by
  apply Array.ext'
  simp

theorem ends_retagAt (base : BaseSamples) (n : Note) (hext : Extends old cache) (hfresh : Fresh old cache place) :
    Ends base old (Tree.retag n (read base cache place)) (ExceptT.run (retagAt base n place) cache) := by
  unfold retagAt Tree.retag
  cases hid : n.outId with
  | none => exact ⟨rfl, hext, hfresh⟩
  | some counter =>
    cases place with
    | base id =>
      simp only [run_bind, run_takeOut_base]
      cases Records.tag counter (read base cache (.base id)) with
      | error e => exact ⟨rfl, hext⟩
      | ok tagged =>
        refine ⟨?_, hext.trans (Extends.push cache tagged), hext.1, ?_⟩
        · simp [read, Except.mapError]
        · simp
    | cached index =>
      simp only [run_bind, run_takeOut_cached]
      cases Records.tag counter (read base cache (.cached index)) with
      -- The list stays out of the cache, but it was not there at first.
      | error e => exact ⟨rfl, hext.set hfresh.1 []⟩
      | ok tagged =>
        simp only [run_putBack_cached, setIfInBounds_setIfInBounds]
        refine ⟨?_, hext.set hfresh.1 tagged, hfresh.1, ?_⟩
        · simp [read, hfresh.2, Except.mapError]
        · simpa using hfresh.2

theorem ends_keep (base : BaseSamples) (n : Note) (hext : Extends old cache) (records : Records Float) :
    Ends base old (Tree.retag n records) (ExceptT.run (keep records >>= retagAt base n) cache) := by
  have hkeep : ExceptT.run (keep records) cache = (.ok (.cached cache.size), cache.push records) := rfl
  rw [run_bind, hkeep]
  have hread : read base (cache.push records) (.cached cache.size) = records := by simp [read]
  have hfresh : Fresh old (cache.push records) (.cached cache.size) := ⟨hext.1, by simp⟩
  have h := ends_retagAt base n (hext.trans (Extends.push cache records)) hfresh
  rwa [hread] at h

theorem ends_leafAt (base : BaseSamples) (n : Note) (hext : Extends old cache) (m : Metric) :
    Ends base old (Tree.leaf base m >>= Tree.retag n) (ExceptT.run (leafAt base m >>= retagAt base n) cache) := by
  rw [run_bind]
  unfold leafAt Tree.leaf
  cases hbase : base.get? m.id with
  | none => exact ⟨rfl, hext⟩
  | some records =>
    have hfresh : Fresh old cache (.base m.id) := trivial
    have h := ends_retagAt base n hext hfresh
    simp only [read, hbase, Option.getD_some] at h
    exact h

/-- A node with one operand: what is made of its value is kept. -/
theorem ends_unary (n : Note) (f : Records Float → Records Float) {v : Except EvalError (Records Float)}
    {x : Evaluation Place} (h : Ends base old v (ExceptT.run x cache)) :
    Ends base old (v >>= fun records => Tree.retag n (f records))
      (ExceptT.run (do let place ← x; retagAt base n (← keep (f (← fetch base place)))) cache) := by
  rw [run_bind]
  cases hrun : ExceptT.run x cache with
  | mk answer cache₁ =>
    rw [hrun] at h
    cases answer with
    | error e => exact ⟨by rw [h.1]; rfl, h.2⟩
    | ok place =>
      obtain ⟨hv, hext, -⟩ := h
      rw [hv]
      exact ends_keep base n hext (f (read base cache₁ place))

/-- Evaluation answers the place of the value, or fails as the value does. -/
theorem ends_ofTree (base : BaseSamples) (t : Tree) (cache : Cache) :
    Ends base cache (t.value base) (ExceptT.run (ofTree base t) cache) := by
  induction t generalizing cache with
  | number n v => exact ends_keep base n (Extends.refl cache) _
  | reference n m => exact ends_leafAt base n (Extends.refl cache) m
  | accumulate n m mode => exact ends_leafAt base n (Extends.refl cache) m
  | binary n op lhs rhs ihl ihr =>
    simp only [ofTree, Tree.value, run_bind]
    have hl := ihl cache
    cases hrunl : ExceptT.run (ofTree base lhs) cache with
    | mk answer cache₁ =>
      rw [hrunl] at hl
      cases answer with
      | error e => exact ⟨by rw [hl.1]; rfl, hl.2⟩
      | ok l =>
        obtain ⟨hvl, hext₁, hfreshl⟩ := hl
        have hr := ihr cache₁
        simp only [hvl]
        cases hrunr : ExceptT.run (ofTree base rhs) cache₁ with
        | mk answer cache₂ =>
          rw [hrunr] at hr
          cases answer with
          | error e => exact ⟨by rw [hr.1]; rfl, hext₁.trans hr.2⟩
          | ok r =>
            obtain ⟨hvr, hext₂, -⟩ := hr
            -- The place of the left operand still holds what it held before the right one was evaluated.
            have hkept := read_of_extends base hfreshl hext₂
            have hfetchl : ExceptT.run (fetch base l) cache₂ = (.ok (read base cache₁ l), cache₂) := by
              rw [← hkept]
              rfl
            have hfetchr : ExceptT.run (fetch base r) cache₂ = (.ok (read base cache₂ r), cache₂) := rfl
            simp only [hvr, hfetchl, hfetchr]
            show Ends base cache (Tree.combine op (read base cache₁ l) (read base cache₂ r) >>= Tree.retag n) _
            cases Tree.combine op (read base cache₁ l) (read base cache₂ r) with
            | error e => exact ⟨rfl, hext₁.trans hext₂⟩
            | ok records => exact ends_keep base n (hext₁.trans hext₂) records
  | reduce n child op ds ih =>
    exact ends_unary n (fun records => records.reduce op.reduction ds) (ih cache)
  | select n child filters ih =>
    exact ends_unary n (fun records => records.select filters) (ih cache)

end Evaluation

open Evaluation

/-- Evaluation in any cache has the outcome of the plain value; it adds to the cache, and a failure leaves
    the cache as it was. -/
theorem Tree.evaluate_eq_value (base : BaseSamples) (cache : Cache) (t : Tree) :
    (t.evaluate base cache).2 = t.value base ∧ Extends cache (t.evaluate base cache).1 ∧
      ∀ e, t.value base = .error e → (t.evaluate base cache).1 = cache := by
  have h := ends_ofTree base t cache
  unfold Tree.evaluate
  cases hrun : ExceptT.run (ofTree base t) cache with
  | mk answer cache' =>
    rw [hrun] at h
    cases answer with
    | ok place =>
      obtain ⟨hv, hext, -⟩ := h
      exact ⟨hv.symm, hext, fun e he => by rw [hv] at he; cases he⟩
    | error e =>
      obtain ⟨hv, hext⟩ := h
      have htake := hext.take_eq
      refine ⟨hv.symm, ?_, fun _ _ => htake⟩
      show Extends cache (cache'.take cache.size)
      rw [htake]
      exact Extends.refl cache

end PerfCounters
