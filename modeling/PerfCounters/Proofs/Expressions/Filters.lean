import Mathlib.Data.List.Sort
import PerfCounters.Expr.Basic

/-! Filters as they are written and as they are kept. A selection may name a dimension again and again, with
    its positions in any order; what is kept has each dimension once, in the order of dimensions, and its
    positions ascending. Only one such list keeps what was written, so it may stand for all ways to write it. -/

namespace PerfCounters

theorem Dimension.index_injective {d e : Dimension} (h : d.index = e.index) : d = e := by
  revert h
  cases d <;> cases e <;> decide

namespace Filters

variable {f g : Filters} {d e : Dimension} {n m : Nat} {ns : List Nat}

/-- The position `n` is among those listed for `d`. -/
def Lists (f : Filters) (d : Dimension) (n : Nat) : Prop := ∃ ns, (d, ns) ∈ f ∧ n ∈ ns

/-- Dimensions in their order, each once, and with some positions in ascending order. -/
structure Tidy (f : Filters) : Prop where
  ordered : f.Pairwise fun x y => x.1.index < y.1.index
  ascending : ∀ x ∈ f, x.2.Pairwise (· < ·) ∧ x.2 ≠ []

/-- The filters that were written, put in order: what they list, and nothing else. -/
structure Merges (f written : Filters) : Prop where
  tidy : f.Tidy
  lists : ∀ d n, f.Lists d n ↔ written.Lists d n

theorem not_lists_nil (d : Dimension) (n : Nat) : ¬ Lists [] d n := fun ⟨_, h, _⟩ => by cases h

theorem lists_cons : Lists ((e, ns) :: f) d n ↔ (d = e ∧ n ∈ ns) ∨ f.Lists d n := by
  constructor
  · rintro ⟨ms, h, hn⟩
    rcases List.mem_cons.mp h with h | h
    · cases h
      exact Or.inl ⟨rfl, hn⟩
    · exact Or.inr ⟨ms, h, hn⟩
  · rintro (⟨rfl, hn⟩ | ⟨ms, h, hn⟩)
    · exact ⟨ns, List.mem_cons_self, hn⟩
    · exact ⟨ms, List.mem_cons_of_mem _ h, hn⟩

/-! ### Adding a position -/

theorem mem_insertNumber : m ∈ insertNumber n ns ↔ m = n ∨ m ∈ ns := by
  induction ns with
  | nil => simp [insertNumber]
  | cons k ns ih =>
    unfold insertNumber
    split
    · simp
    · split
      · rename_i heq
        simp [heq]
      · rw [List.mem_cons, ih, List.mem_cons, or_left_comm]

theorem pairwise_insertNumber (h : ns.Pairwise (· < ·)) : (insertNumber n ns).Pairwise (· < ·) := by
  induction ns with
  | nil => exact List.pairwise_singleton _ _
  | cons k ns ih =>
    obtain ⟨hk, hns⟩ := List.pairwise_cons.mp h
    unfold insertNumber
    split
    · rename_i hlt
      refine List.pairwise_cons.mpr ⟨fun m hm => ?_, h⟩
      rcases List.mem_cons.mp hm with rfl | hm
      · exact hlt
      · exact Nat.lt_trans hlt (hk m hm)
    · split
      · exact h
      · refine List.pairwise_cons.mpr ⟨fun m hm => ?_, ih hns⟩
        rcases mem_insertNumber.mp hm with rfl | hm
        · omega
        · exact hk m hm

theorem lists_allow : (f.allow d n).Lists e m ↔ (e = d ∧ m = n) ∨ f.Lists e m := by
  induction f with
  | nil => simp [allow, lists_cons, not_lists_nil]
  | cons x f ih =>
    obtain ⟨k, ns⟩ := x
    unfold allow
    split
    · rw [lists_cons, List.mem_singleton]
    · split
      · rename_i heq
        rw [lists_cons, lists_cons, mem_insertNumber, heq, and_or_left, or_assoc]
      · rw [lists_cons, lists_cons, ih, or_left_comm]

theorem mem_allow {x : Dimension × List Nat} (h : x ∈ f.allow d n) : x.1 = d ∨ ∃ y ∈ f, y.1 = x.1 := by
  induction f with
  | nil => exact Or.inl (congrArg Prod.fst (List.mem_singleton.mp h))
  | cons y f ih =>
    unfold allow at h
    split at h
    · rcases List.mem_cons.mp h with rfl | h
      · exact Or.inl rfl
      · exact Or.inr ⟨x, h, rfl⟩
    · split at h
      · rename_i heq
        rcases List.mem_cons.mp h with rfl | h
        · exact Or.inl heq.symm
        · exact Or.inr ⟨x, List.mem_cons_of_mem _ h, rfl⟩
      · rcases List.mem_cons.mp h with rfl | h
        · exact Or.inr ⟨_, List.mem_cons_self, rfl⟩
        · rcases ih h with heq | ⟨z, hz, heq⟩
          · exact Or.inl heq
          · exact Or.inr ⟨z, List.mem_cons_of_mem _ hz, heq⟩

theorem tidy_nil : Tidy [] := ⟨List.Pairwise.nil, fun x hx => (by cases hx)⟩

theorem Tidy.allow (h : f.Tidy) (d : Dimension) (n : Nat) : (f.allow d n).Tidy := by
  have hone : [n].Pairwise (· < ·) ∧ [n] ≠ [] := ⟨List.pairwise_singleton _ _, List.cons_ne_nil _ _⟩
  induction f with
  | nil => exact ⟨List.pairwise_singleton _ _, fun x hx => by rw [List.mem_singleton.mp hx]; exact hone⟩
  | cons y f ih =>
    obtain ⟨k, ns⟩ := y
    obtain ⟨hy, hf⟩ := List.pairwise_cons.mp h.ordered
    have hkept : ∀ x ∈ f, x.2.Pairwise (· < ·) ∧ x.2 ≠ [] := fun x hx => h.ascending x (List.mem_cons_of_mem _ hx)
    have htail := ih ⟨hf, hkept⟩
    unfold Filters.allow
    split
    · rename_i hlt
      refine ⟨List.pairwise_cons.mpr ⟨fun x hx => ?_, h.ordered⟩, List.forall_mem_cons.mpr ⟨hone, h.ascending⟩⟩
      rcases List.mem_cons.mp hx with rfl | hx
      · exact hlt
      · exact Nat.lt_trans hlt (hy x hx)
    · split
      · refine ⟨List.pairwise_cons.mpr ⟨hy, hf⟩, List.forall_mem_cons.mpr ⟨⟨?_, ?_⟩, hkept⟩⟩
        · exact pairwise_insertNumber (h.ascending _ List.mem_cons_self).1
        · exact List.ne_nil_of_mem (mem_insertNumber.mpr (Or.inl rfl))
      · rename_i hnot hne
        refine ⟨List.pairwise_cons.mpr ⟨fun x hx => ?_, htail.ordered⟩,
          List.forall_mem_cons.mpr ⟨h.ascending _ List.mem_cons_self, htail.ascending⟩⟩
        rcases mem_allow hx with heq | ⟨z, hz, heq⟩
        · have hindex : d.index ≠ k.index := fun hindex => hne (Dimension.index_injective hindex)
          rw [heq]
          exact Nat.lt_of_le_of_ne (Nat.le_of_not_lt hnot) (Ne.symm hindex)
        · rw [← heq]
          exact hy z hz

/-! ### Merging -/

/-- Allows all of `ns` along `d`. -/
def allowAll (d : Dimension) (ns : List Nat) (f : Filters) : Filters := ns.foldl (fun f n => f.allow d n) f

/-- Allows what was written, item by item. -/
def merge (written f : Filters) : Filters := written.foldl (fun f x => f.allowAll x.1 x.2) f

theorem allowAll_spec (h : f.Tidy) (d : Dimension) (ns : List Nat) :
    (f.allowAll d ns).Tidy ∧ ∀ e m, (f.allowAll d ns).Lists e m ↔ f.Lists e m ∨ (e = d ∧ m ∈ ns) := by
  induction ns generalizing f with
  | nil => exact ⟨h, fun e m => by simp [allowAll]⟩
  | cons n ns ih =>
    obtain ⟨htidy, hlists⟩ := ih (h.allow d n)
    refine ⟨htidy, fun e m => (hlists e m).trans ?_⟩
    rw [lists_allow, List.mem_cons, and_or_left, or_comm (a := e = d ∧ m = n), or_assoc]

theorem merge_spec (h : f.Tidy) (written : Filters) :
    (merge written f).Tidy ∧ ∀ d n, (merge written f).Lists d n ↔ f.Lists d n ∨ written.Lists d n := by
  induction written generalizing f with
  | nil => exact ⟨h, fun d n => by simp [merge, not_lists_nil]⟩
  | cons x written ih =>
    obtain ⟨hone, hfirst⟩ := allowAll_spec h x.1 x.2
    obtain ⟨htidy, hlists⟩ := ih hone
    refine ⟨htidy, fun d n => (hlists d n).trans ?_⟩
    rw [hfirst, lists_cons, or_assoc]

theorem merges_merge (written : Filters) : (merge written []).Merges written := by
  obtain ⟨htidy, hlists⟩ := merge_spec tidy_nil written
  exact ⟨htidy, fun d n => (hlists d n).trans (by simp [not_lists_nil])⟩

/-- The positions of one dimension are in one place. -/
theorem Tidy.mem_iff (h : f.Tidy) (hx : (d, ns) ∈ f) : n ∈ ns ↔ f.Lists d n := by
  refine ⟨fun hn => ⟨ns, hx, hn⟩, fun ⟨ms, hms, hn⟩ => ?_⟩
  have hkeys : (f.map fun x => x.1.index).Nodup :=
    List.pairwise_map.mpr (h.ordered.imp fun hlt => Nat.ne_of_lt hlt)
  have heq : ((d, ms) : Dimension × List Nat) = (d, ns) := List.inj_on_of_nodup_map hkeys hms hx rfl
  cases heq
  exact hn

theorem Tidy.mem_of_lists (hf : f.Tidy) (hg : g.Tidy) (h : ∀ d n, f.Lists d n ↔ g.Lists d n) {x : Dimension × List Nat}
    (hx : x ∈ f) : x ∈ g := by
  obtain ⟨d, ns⟩ := x
  obtain ⟨hns, hsome⟩ := hf.ascending _ hx
  obtain ⟨n, hn⟩ := List.exists_mem_of_ne_nil _ hsome
  obtain ⟨ms, hms, -⟩ := (h d n).mp ⟨ns, hx, hn⟩
  have heq : ns = ms := hns.eq_of_mem_iff (hg.ascending _ hms).1 fun k =>
    (hf.mem_iff hx).trans ((h d k).trans (hg.mem_iff hms).symm)
  rwa [heq]

/-- Whatever lists the same positions in order is the same. -/
theorem Merges.unique {written : Filters} (hf : f.Merges written) (hg : g.Merges written) : f = g := by
  have hlists : ∀ d n, f.Lists d n ↔ g.Lists d n := fun d n => (hf.lists d n).trans (hg.lists d n).symm
  have : Std.Irrefl fun x y : Dimension × List Nat => x.1.index < y.1.index := ⟨fun x => Nat.lt_irrefl _⟩
  have : Std.Antisymm fun x y : Dimension × List Nat => x.1.index < y.1.index :=
    ⟨fun x y hxy hyx => absurd hxy (Nat.lt_asymm hyx)⟩
  exact hf.tidy.ordered.eq_of_mem_iff hg.tidy.ordered fun x =>
    ⟨fun hx => hf.tidy.mem_of_lists hg.tidy hlists hx,
      fun hx => hg.tidy.mem_of_lists hf.tidy (fun d n => (hlists d n).symm) hx⟩

end Filters

end PerfCounters
