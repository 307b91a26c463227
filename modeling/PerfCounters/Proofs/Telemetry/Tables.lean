import Mathlib.Data.List.Nodup
import PerfCounters.Telemetry.Exposition

/-! Tables of series. Every series has a place, which no other label ever gets; a label shows the series at one place
    or none. So a holder of a place goes on counting there, whether the series is shown or not, and what is shown under
    another label does not change. -/

namespace PerfCounters

namespace SeriesTable

variable {σ τ : Type} {t : SeriesTable σ} {u : SeriesTable τ} {label : String} {place : Nat} {x : σ}

/-- What is shown under a label. -/
def reading? (t : SeriesTable σ) (label : String) : Option σ := (t.place? label).bind t.at?

/-- Labels and places go together one by one, and the places are those of series that were made. -/
structure Proper (t : SeriesTable σ) : Prop where
  labels : (t.shown.map Prod.fst).Nodup
  places : (t.shown.map Prod.snd).Nodup
  below : ∀ {label place}, (label, place) ∈ t.shown → place < t.cells.size

theorem proper_empty : ({} : SeriesTable σ).Proper := ⟨List.nodup_nil, List.nodup_nil, fun h => by cases h⟩

theorem mem_of_place? (h : t.place? label = some place) : (label, place) ∈ t.shown := by
  obtain ⟨entry, hentry, rfl⟩ := Option.map_eq_some_iff.mp h
  have hlabel : entry.1 = label := by simpa using List.find?_some hentry
  exact hlabel ▸ List.mem_of_find?_eq_some hentry

theorem Proper.place?_eq_some (h : t.Proper) : t.place? label = some place ↔ (label, place) ∈ t.shown := by
  refine ⟨mem_of_place?, fun hmem => ?_⟩
  cases hfound : t.place? label with
  | none =>
    have hnone := List.find?_eq_none.mp (Option.map_eq_none_iff.mp hfound) _ hmem
    simp at hnone
  | some place' =>
    have heq := List.inj_on_of_nodup_map h.labels hmem (mem_of_place? hfound) rfl
    exact congrArg some (congrArg Prod.snd heq).symm

theorem Proper.label_unique (h : t.Proper) {other : String} (hmem : (label, place) ∈ t.shown)
    (hother : (other, place) ∈ t.shown) : other = label :=
  congrArg Prod.fst (List.inj_on_of_nodup_map h.places hother hmem rfl)

/-! ### Finding, changing and removing series -/

@[simp] theorem size_modify (t : SeriesTable σ) (place : Nat) (f : σ → σ) :
    (t.modify place f).cells.size = t.cells.size := Array.size_modify

theorem Proper.modify (h : t.Proper) (place : Nat) (f : σ → σ) : (t.modify place f).Proper :=
  ⟨h.labels, h.places, fun hmem => by rw [size_modify]; exact h.below hmem⟩

theorem at?_modify (t : SeriesTable σ) (changed : Nat) (f : σ → σ) (place : Nat) :
    (t.modify changed f).at? place = if place = changed then (t.at? place).map f else t.at? place := by
  simp only [at?, modify, Array.getElem?_modify, eq_comm]

theorem place?_remove (t : SeriesTable σ) (gone label : String) :
    (t.remove gone).place? label = if label = gone then none else t.place? label := by
  simp only [place?, remove, List.find?_filter]
  split
  · rename_i heq
    rw [List.find?_eq_none.mpr]
    · rfl
    · intro entry _
      simp [heq]
  · rename_i hne
    congr 2
    funext entry
    by_cases h : entry.1 = label
    · simp [h, hne]
    · simp [h]

theorem Proper.remove (h : t.Proper) (gone : String) : (t.remove gone).Proper :=
  ⟨h.labels.sublist (List.filter_sublist.map _), h.places.sublist (List.filter_sublist.map _),
    fun hmem => h.below (List.mem_of_mem_filter hmem)⟩

/-- The series of a label is found, or made at a new place. -/
theorem resolve_cases (t : SeriesTable σ) (label : String) (fresh : σ) :
    (∃ place, t.place? label = some place ∧ t.resolve label fresh = (t, place)) ∨
      t.place? label = none ∧ t.resolve label fresh =
        ({ cells := t.cells.push fresh, shown := t.shown ++ [(label, t.cells.size)] }, t.cells.size) := by
  unfold resolve
  cases hplace : t.place? label with
  | some place => exact Or.inl ⟨place, rfl, rfl⟩
  | none => exact Or.inr ⟨rfl, rfl⟩

theorem place?_resolve (t : SeriesTable σ) (label : String) (fresh : σ) (other : String) :
    (t.resolve label fresh).1.place? other =
      if other = label then some (t.resolve label fresh).2 else t.place? other := by
  rcases t.resolve_cases label fresh with ⟨place, hplace, heq⟩ | ⟨hnone, heq⟩
  · rw [heq]
    split
    · rename_i hother
      rw [hother, hplace]
    · rfl
  · rw [heq]
    simp only [place?, List.find?_append]
    split
    · rename_i hother
      rw [hother, Option.map_eq_none_iff.mp hnone]
      simp
    · rename_i hother
      have hne : label ≠ other := fun h => hother h.symm
      cases List.find? (fun entry => entry.1 == other) t.shown <;> simp [hne]

theorem Proper.resolve (h : t.Proper) (label : String) (fresh : σ) : (t.resolve label fresh).1.Proper := by
  rcases t.resolve_cases label fresh with ⟨place, -, heq⟩ | ⟨hnone, heq⟩
  · rwa [heq]
  · rw [heq]
    have hnew : label ∉ t.shown.map Prod.fst := fun hmem => by
      obtain ⟨entry, hentry, hlabel⟩ := List.mem_map.mp hmem
      have hplace : t.place? label = some entry.2 := h.place?_eq_some.mpr (hlabel ▸ hentry)
      rw [hplace] at hnone
      cases hnone
    have hfree : t.cells.size ∉ t.shown.map Prod.snd := fun hmem => by
      obtain ⟨entry, hentry, hplace⟩ := List.mem_map.mp hmem
      exact absurd (h.below hentry) (Nat.not_lt.mpr (Nat.le_of_eq hplace.symm))
    refine ⟨?_, ?_, fun {other place} hmem => ?_⟩
    · rw [List.map_append, List.map_cons, List.map_nil, ← List.concat_eq_append]
      exact h.labels.concat hnew
    · rw [List.map_append, List.map_cons, List.map_nil, ← List.concat_eq_append]
      exact h.places.concat hfree
    · simp only [Array.size_push]
      rcases List.mem_append.mp hmem with hmem | hmem
      · exact Nat.lt_succ_of_lt (h.below hmem)
      · cases List.mem_singleton.mp hmem
        exact Nat.lt_succ_self _

/-- A place that was there before shows no label that it did not show, and the series at it is the same. -/
theorem resolve_keeps (t : SeriesTable σ) (label : String) (fresh : σ) (h : place < t.cells.size) :
    (t.resolve label fresh).1.at? place = t.at? place ∧ place < (t.resolve label fresh).1.cells.size ∧
      ∀ other, (other, place) ∈ (t.resolve label fresh).1.shown → (other, place) ∈ t.shown := by
  rcases t.resolve_cases label fresh with ⟨_, -, heq⟩ | ⟨-, heq⟩
  · rw [heq]
    exact ⟨rfl, h, fun _ hmem => hmem⟩
  · rw [heq]
    refine ⟨?_, ?_, fun other hmem => ?_⟩
    · simp only [at?, Array.getElem?_push, if_neg (Nat.ne_of_lt h)]
    · simp only [Array.size_push]
      exact Nat.lt_succ_of_lt h
    · rcases List.mem_append.mp hmem with hmem | hmem
      · exact hmem
      · cases List.mem_singleton.mp hmem
        exact absurd h (Nat.lt_irrefl _)

/-! ### Rows -/

theorem mem_rows : (label, x) ∈ t.rows ↔ ∃ place, (label, place) ∈ t.shown ∧ t.at? place = some x := by
  simp only [rows, List.mem_filterMap, List.mem_mergeSort, Option.map_eq_some_iff, Prod.mk.injEq]
  constructor
  · rintro ⟨⟨_, place⟩, hmem, series, hat, rfl, rfl⟩
    exact ⟨place, hmem, hat⟩
  · rintro ⟨place, hmem, hat⟩
    exact ⟨(label, place), hmem, x, hat, rfl, rfl⟩

theorem mem_rows_of_reading (h : t.reading? label = some x) : (label, x) ∈ t.rows := by
  obtain ⟨place, hplace, hat⟩ := Option.bind_eq_some_iff.mp h
  exact mem_rows.mpr ⟨place, mem_of_place? hplace, hat⟩

/-! ### Tables that go in step -/

/-- The tables show the same labels at the same places, and have had the same number of series. -/
structure Like (t : SeriesTable σ) (u : SeriesTable τ) : Prop where
  shown : u.shown = t.shown
  size : u.cells.size = t.cells.size

theorem Like.place? (h : t.Like u) (label : String) : u.place? label = t.place? label := by
  rw [SeriesTable.place?, SeriesTable.place?, h.shown]

theorem Like.modify_left (h : t.Like u) (place : Nat) (f : σ → σ) : (t.modify place f).Like u :=
  ⟨h.shown, by rw [size_modify, h.size]⟩

theorem Like.modify_right (h : t.Like u) (place : Nat) (f : τ → τ) : t.Like (u.modify place f) :=
  ⟨h.shown, by rw [size_modify, h.size]⟩

theorem Like.remove (h : t.Like u) (gone : String) : (t.remove gone).Like (u.remove gone) :=
  ⟨congrArg (List.filter _) h.shown, h.size⟩

theorem Like.resolve (h : t.Like u) (label : String) (fresh : σ) (fresh' : τ) :
    (t.resolve label fresh).1.Like (u.resolve label fresh').1 ∧ (u.resolve label fresh').2 = (t.resolve label fresh).2 := by
  rcases t.resolve_cases label fresh with ⟨place, hplace, heq⟩ | ⟨hnone, heq⟩ <;>
    rcases u.resolve_cases label fresh' with ⟨place', hplace', heq'⟩ | ⟨hnone', heq'⟩
  · rw [heq, heq']
    rw [h.place?, hplace] at hplace'
    exact ⟨h, (Option.some.inj hplace').symm⟩
  · rw [h.place?, hplace] at hnone'
    cases hnone'
  · rw [h.place?, hnone] at hplace'
    cases hplace'
  · rw [heq, heq']
    exact ⟨⟨by rw [h.shown, h.size], by rw [Array.size_push, Array.size_push, h.size]⟩, h.size⟩

end SeriesTable

end PerfCounters
