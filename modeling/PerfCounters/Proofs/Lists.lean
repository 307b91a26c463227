import Mathlib.Data.List.Forall2
import Mathlib.Data.List.Nodup

/-! Lists: repetitions left out, and what is done to all elements at once. -/

namespace PerfCounters

/-! ### Without repetitions -/

section Repetitions

variable {α β : Type} [DecidableEq α] [DecidableEq β]

theorem eraseDups_of_nodup {l : List α} (h : l.Nodup) : l.eraseDups = l := by
  induction l with
  | nil => rfl
  | cons x l ih =>
    obtain ⟨hx, hl⟩ := List.nodup_cons.mp h
    have hkeep : (l.filter fun y => !y == x) = l := by
      apply List.filter_eq_self.mpr
      intro y hy
      have hne : y ≠ x := fun heq => hx (heq ▸ hy)
      simp [hne]
    rw [List.eraseDups_cons, hkeep, ih hl]

omit [DecidableEq α] in
theorem length_filter_lt_cons (p : α → Bool) (x : α) (l : List α) : (l.filter p).length < (x :: l).length :=
  Nat.lt_succ_of_le (List.length_filter_le p l)

theorem nodup_eraseDups : ∀ l : List α, l.eraseDups.Nodup
  | [] => List.nodup_nil
  | x :: l => by
    rw [List.eraseDups_cons, List.nodup_cons]
    exact ⟨by simp, nodup_eraseDups _⟩
termination_by l => l.length
decreasing_by exact length_filter_lt_cons _ _ _

theorem eraseDups_filter (p : α → Bool) : ∀ l : List α, (l.filter p).eraseDups = l.eraseDups.filter p
  | [] => rfl
  | x :: l => by
    have ih := eraseDups_filter p (l.filter fun y => !y == x)
    rw [List.eraseDups_cons]
    by_cases hx : p x = true
    · rw [List.filter_cons_of_pos hx, List.filter_cons_of_pos hx, List.eraseDups_cons, ← ih,
        List.filter_filter, List.filter_filter]
      simp only [Bool.and_comm]
    · rw [List.filter_cons_of_neg hx, List.filter_cons_of_neg hx, ← ih, List.filter_filter]
      congr 1
      apply List.filter_congr
      intro y hy
      by_cases hy' : y = x
      · simp [hy', hx]
      · simp [hy']
termination_by l => l.length
decreasing_by exact length_filter_lt_cons _ _ _

/-- Repetitions may be left out before a function is applied as well. -/
theorem eraseDups_map (f : α → β) : ∀ l : List α, (l.map f).eraseDups = (l.eraseDups.map f).eraseDups
  | [] => rfl
  | x :: l => by
    have ih := eraseDups_map f (l.filter fun y => !y == x)
    rw [List.eraseDups_cons, List.map_cons, List.map_cons, List.eraseDups_cons, List.eraseDups_cons]
    congr 1
    rw [eraseDups_filter, eraseDups_filter, ← ih, ← eraseDups_filter, ← eraseDups_filter]
    congr 1
    -- What is left of the images has no `f x`, so it does not matter if `x` itself was taken out before.
    rw [List.filter_map, List.filter_map, List.filter_filter]
    congr 1
    apply List.filter_congr
    intro y hy
    by_cases hy' : y = x
    · simp [hy']
    · simp [hy']
termination_by l => l.length
decreasing_by exact length_filter_lt_cons _ _ _

theorem eraseDups_map_of_inj {f : α → β} : ∀ {l : List α}, (∀ x ∈ l, ∀ y ∈ l, f x = f y → x = y) →
    (l.map f).eraseDups = l.eraseDups.map f := by
  intro l hf
  rw [eraseDups_map, eraseDups_of_nodup]
  apply List.Nodup.map_on _ (nodup_eraseDups l)
  intro x hx y hy
  exact hf x (List.mem_eraseDups.mp hx) y (List.mem_eraseDups.mp hy)

/-- Lists that have nothing in common, one for each member. -/
theorem eraseDups_flatMap {g : α → List β} : ∀ {l : List α}, (∀ x ∈ l, ∀ y ∈ l, x ≠ y → ∀ z ∈ g x, z ∉ g y) →
    (l.flatMap g).eraseDups = l.eraseDups.flatMap fun x => (g x).eraseDups
  | [], _ => rfl
  | x :: l, hg => by
    have ih := eraseDups_flatMap (g := g) (l := l.filter fun y => !y == x) fun y hy z hz =>
      hg y (List.mem_cons_of_mem _ (List.mem_filter.mp hy).1) z (List.mem_cons_of_mem _ (List.mem_filter.mp hz).1)
    have hrest : ∀ y ∈ l, y ≠ x → ∀ z ∈ g y, z ∉ g x := fun y hy hne =>
      hg y (List.mem_cons_of_mem _ hy) x List.mem_cons_self hne
    rw [List.eraseDups_cons, List.flatMap_cons, List.flatMap_cons, List.eraseDups_append, ← ih]
    congr 2
    rw [List.removeAll, List.filter_flatMap]
    clear ih hg
    induction l with
    | nil => rfl
    | cons y l ih =>
      rw [List.flatMap_cons, ih fun z hz => hrest z (List.mem_cons_of_mem _ hz)]
      by_cases hy : y = x
      · have hnil : (g y).filter (fun z => !(g x).elem z) = [] := by
          apply List.filter_eq_nil_iff.mpr
          intro z hz
          simp [hy ▸ hz]
        rw [hnil, List.filter_cons_of_neg (by simp [hy]), List.nil_append]
      · have hself : (g y).filter (fun z => !(g x).elem z) = g y := by
          apply List.filter_eq_self.mpr
          intro z hz
          simpa using hrest y List.mem_cons_self hy z hz
        rw [hself, List.filter_cons_of_pos (by simp [hy]), List.flatMap_cons]
termination_by l => l.length
decreasing_by exact length_filter_lt_cons _ _ _

/-- An element that was there before adds nothing. -/
theorem eraseDups_concat (l : List α) (x : α) :
    (l ++ [x]).eraseDups = if x ∈ l then l.eraseDups else l.eraseDups ++ [x] := by
  rw [List.eraseDups_append]
  by_cases hx : x ∈ l <;> simp [List.removeAll, hx, List.eraseDups_cons]

omit [DecidableEq α] in
theorem eraseDups_map_const {l : List α} (h : l ≠ []) (y : β) : (l.map fun _ => y).eraseDups = [y] := by
  cases l with
  | nil => exact absurd rfl h
  | cons x l =>
    have hnil : ((l.map fun _ => y).filter fun z => !z == y) = [] := by simp
    rw [List.map_cons, List.eraseDups_cons, hnil]
    rfl

omit [DecidableEq α] [DecidableEq β] in
theorem flatMap_if (p : α → Bool) (g : α → List β) (l : List α) :
    (l.flatMap fun x => if p x then g x else []) = (l.filter p).flatMap g := by
  induction l with
  | nil => rfl
  | cons x l ih => cases hx : p x <;> simp [hx, ih]

end Repetitions

/-! ### Element by element -/

theorem getElem?_concat_eq_some {α : Type} {l : List α} {x y : α} {i : Nat} :
    (l ++ [x])[i]? = some y ↔ l[i]? = some y ∨ i = l.length ∧ x = y := by
  rcases Nat.lt_trichotomy i l.length with hlt | rfl | hgt
  · rw [List.getElem?_append_left hlt]
    simp [Nat.ne_of_lt hlt]
  · simp
  · have hend : (l ++ [x]).length ≤ i := by simpa using Nat.succ_le_of_lt hgt
    rw [List.getElem?_eq_none hend, List.getElem?_eq_none (Nat.le_of_lt hgt)]
    simp [Nat.ne_of_gt hgt]

/-- A list of steps that all succeed. -/
theorem mapM_eq_ok {α β ε : Type} {f : α → Except ε β} {g : α → β} {l : List α} (h : ∀ x ∈ l, f x = .ok (g x)) :
    l.mapM f = .ok (l.map g) := by
  induction l with
  | nil => rfl
  | cons x l ih =>
    rw [List.mapM_cons, h x List.mem_cons_self, ih fun y hy => h y (List.mem_cons_of_mem _ hy)]
    rfl

/-- The first step that fails is the one that counts. -/
theorem mapM_eq_error {α β ε : Type} {f : α → Except ε β} {before after : List α} {x : α} {e : ε}
    (hbefore : ∀ y ∈ before, ∃ z, f y = .ok z) (hx : f x = .error e) : (before ++ x :: after).mapM f = .error e := by
  induction before with
  | nil =>
    rw [List.nil_append, List.mapM_cons, hx]
    rfl
  | cons y before ih =>
    obtain ⟨z, hz⟩ := hbefore y List.mem_cons_self
    rw [List.cons_append, List.mapM_cons, hz, ih fun w hw => hbefore w (List.mem_cons_of_mem _ hw)]
    rfl

theorem take_set_concat {α : Type} {l : List α} {i : Nat} (h : i < l.length) (x : α) :
    (l.set i x).take (i + 1) = l.take i ++ [x] := by
  rw [List.take_add_one, List.take_set_of_le (Nat.le_refl i), List.getElem?_set_self h, Option.toList_some]

theorem filterMap_of_forall₂ {α β : Type} {f : α → Option β} {l : List α} {l' : List β}
    (h : List.Forall₂ (fun x y => f x = some y) l l') : l.filterMap f = l' := by
  induction h with
  | nil => rfl
  | cons hx _ ih => rw [List.filterMap_cons, hx, ih]

end PerfCounters
