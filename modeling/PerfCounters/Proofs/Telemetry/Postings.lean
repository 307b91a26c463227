import PerfCounters.Proofs.Telemetry.Tables
import PerfCounters.Service.Error

/-! What is posted to telemetry: the series of a label are found or made, something is tallied in the series of a holder,
    or a label is removed. What a holder's label shows after any postings follows from what was posted: it shows the
    holder's series until the label is removed, and then never again; and they have counted what was tallied in them. -/

namespace PerfCounters

/-- What a buffer counts: a record that was stored or dropped, or a drain that delivered `size` records. -/
inductive Tally where
  | stored
  | dropped
  | drained (size : Nat) (seconds : Float)

/-- What is posted to telemetry. A tally comes from a buffer and goes to its series. -/
inductive Posting where
  | made (label : String)
  | tallied (id : BufferId) (handles : SeriesHandles) (tally : Tally)
  | removed (label : String)

/-- The places of series that are made together. -/
def SeriesHandles.at (place : Nat) : SeriesHandles := ⟨place, place, place, place, place⟩

/-- The tally, if it goes to these series. -/
def Posting.tallyIn? (handles : SeriesHandles) : Posting → Option Tally
  | .tallied _ holder n => if holder = handles then some n else none
  | .made _ | .removed _ => none

/-- A tally goes to series that were made together. -/
def Posting.Placed : Posting → Prop
  | .tallied _ handles _ => ∃ place, handles = .at place
  | .made _ | .removed _ => True

/-- What the series of a buffer show, but for the time that drains take. -/
structure Readings where
  emplaced : Nat
  dropped : Nat
  flushes : Nat
  batchSizes : Histogram Nat

/-- What the series show after one more tally. -/
def Readings.after (r : Readings) : Tally → Readings
  | .stored => { r with emplaced := r.emplaced + 1 }
  | .dropped => { r with dropped := r.dropped + 1 }
  | .drained size _ => { r with flushes := r.flushes + 1, batchSizes := r.batchSizes.observe size }

open Exposition in
/-- The lines that show them. -/
def Readings.lines (label : String) (r : Readings) : List String :=
  histogramLines (namespaceText ++ "flush_batch_size") label r.batchSizes ++
    counterLines (namespaceText ++ "flushes_total") label r.flushes ++
    counterLines (namespaceText ++ "records_dropped_total") label r.dropped ++
    counterLines (namespaceText ++ "records_emplaced_total") label r.emplaced

/-! ### Numbers that only grow -/

namespace Histogram

/-- The bounds are the same, and no number of the second rows is lower. -/
def NoneLower (rows rows' : List (Nat × Nat)) : Prop := List.Forall₂ (fun x y => x.1 = y.1 ∧ x.2 ≤ y.2) rows rows'

theorem NoneLower.refl (rows : List (Nat × Nat)) : NoneLower rows rows :=
  List.forall₂_same.mpr fun _ _ => ⟨rfl, Nat.le_refl _⟩

theorem NoneLower.trans {a b c : List (Nat × Nat)} (h : NoneLower a b) (h' : NoneLower b c) : NoneLower a c := by
  induction h generalizing c with
  | nil =>
    cases h'
    exact .nil
  | cons hxy _ ih =>
    cases h' with
    | cons hyz hrest => exact .cons ⟨hxy.1.trans hyz.1, Nat.le_trans hxy.2 hyz.2⟩ (ih hrest)

theorem noneLower_fill (value : Nat) (buckets : List (Nat × Nat)) : NoneLower buckets (fill value buckets) := by
  induction buckets with
  | nil => exact .nil
  | cons bucket rest ih =>
    unfold fill
    split
    · exact .cons ⟨rfl, Nat.le_succ _⟩ (NoneLower.refl rest)
    · exact .cons ⟨rfl, Nat.le_refl _⟩ ih

theorem NoneLower.accumulate {buckets buckets' : List (Nat × Nat)} {below below' : Nat} (hbelow : below ≤ below')
    (h : NoneLower buckets buckets') : NoneLower (accumulate below buckets) (accumulate below' buckets') := by
  induction h generalizing below below' with
  | nil => exact .nil
  | cons hxy _ ih =>
    have hsum := Nat.add_le_add hbelow hxy.2
    exact .cons ⟨hxy.1, hsum⟩ (ih hsum)

/-- No number of the second histogram is lower. -/
structure AtMost (h h' : Histogram Nat) : Prop where
  cumulative : NoneLower h.cumulative h'.cumulative
  sum : h.sum ≤ h'.sum
  count : h.count ≤ h'.count

theorem atMost_observe (h : Histogram Nat) (value : Nat) : h.AtMost (h.observe value) :=
  ⟨(noneLower_fill value h.buckets).accumulate (Nat.le_refl 0), Nat.le_add_right _ _, Nat.le_succ _⟩

end Histogram

namespace Readings

variable {r r' r'' : Readings}

/-- No number of the second readings is lower. -/
structure AtMost (r r' : Readings) : Prop where
  emplaced : r.emplaced ≤ r'.emplaced
  dropped : r.dropped ≤ r'.dropped
  flushes : r.flushes ≤ r'.flushes
  batchSizes : r.batchSizes.AtMost r'.batchSizes

theorem AtMost.refl (r : Readings) : r.AtMost r :=
  ⟨Nat.le_refl _, Nat.le_refl _, Nat.le_refl _, ⟨.refl _, Nat.le_refl _, Nat.le_refl _⟩⟩

theorem AtMost.trans (h : r.AtMost r') (h' : r'.AtMost r'') : r.AtMost r'' :=
  ⟨Nat.le_trans h.emplaced h'.emplaced, Nat.le_trans h.dropped h'.dropped, Nat.le_trans h.flushes h'.flushes,
    ⟨h.batchSizes.cumulative.trans h'.batchSizes.cumulative, Nat.le_trans h.batchSizes.sum h'.batchSizes.sum,
      Nat.le_trans h.batchSizes.count h'.batchSizes.count⟩⟩

theorem atMost_after (r : Readings) (n : Tally) : r.AtMost (r.after n) := by
  have hsame := AtMost.refl r
  cases n with
  | stored => exact { hsame with emplaced := Nat.le_succ _ }
  | dropped => exact { hsame with dropped := Nat.le_succ _ }
  | drained size seconds =>
    exact { hsame with flushes := Nat.le_succ _, batchSizes := r.batchSizes.atMost_observe size }

theorem atMost_foldl (r : Readings) (tallies : List Tally) : r.AtMost (tallies.foldl after r) := by
  induction tallies generalizing r with
  | nil => exact .refl r
  | cons n tallies ih => exact (r.atMost_after n).trans (ih _)

end Readings

namespace Telemetry

/-- Telemetry after a tally in some series. -/
def tally (t : Telemetry Nat) (handles : SeriesHandles) : Tally → Telemetry Nat
  | .stored => t.addEmplaced handles.emplaced 1
  | .dropped => t.addDropped handles.dropped 1
  | .drained size seconds => t.countDrain handles size seconds

def post (t : Telemetry Nat) : Posting → Telemetry Nat
  | .made label => (t.ofBuffer label).1
  | .tallied _ handles n => t.tally handles n
  | .removed label => t.removeBuffer label

/-- Telemetry after some postings, the first one first. -/
def postAll (t : Telemetry Nat) (xs : List Posting) : Telemetry Nat := xs.foldl post t

/-- What is shown under a label, in every table. -/
def readings? (t : Telemetry Nat) (label : String) : Option Readings := do
  return ⟨← t.emplaced.reading? label, ← t.dropped.reading? label, ← t.flushes.reading? label,
    ← t.batchSizes.reading? label⟩

/-- What the series at a place show. -/
def readingsAt? (t : Telemetry Nat) (place : Nat) : Option Readings := do
  return ⟨← t.emplaced.at? place, ← t.dropped.at? place, ← t.flushes.at? place, ← t.batchSizes.at? place⟩

/-- What is shown under a label are the series of this holder. -/
structure Shows (t : Telemetry Nat) (label : String) (handles : SeriesHandles) : Prop where
  emplaced : t.emplaced.place? label = some handles.emplaced
  dropped : t.dropped.place? label = some handles.dropped
  flushes : t.flushes.place? label = some handles.flushes
  batchSizes : t.batchSizes.place? label = some handles.batchSize

/-- The tables go in step. -/
structure InStep (t : Telemetry Nat) : Prop where
  proper : t.emplaced.Proper
  dropped : t.emplaced.Like t.dropped
  flushes : t.emplaced.Like t.flushes
  batchSizes : t.emplaced.Like t.batchSizes
  durations : t.emplaced.Like t.durations

/-- The holder has one place in every table, which no other label shows. -/
def Holder (t : Telemetry Nat) (label : String) (handles : SeriesHandles) : Prop :=
  ∃ place, handles = .at place ∧ place < t.emplaced.cells.size ∧ ∀ other, (other, place) ∈ t.emplaced.shown → other = label

variable {t : Telemetry Nat} {label : String} {handles : SeriesHandles} {place : Nat} {r : Readings}

theorem inStep_empty : ({} : Telemetry Nat).InStep :=
  ⟨SeriesTable.proper_empty, ⟨rfl, rfl⟩, ⟨rfl, rfl⟩, ⟨rfl, rfl⟩, ⟨rfl, rfl⟩⟩

theorem InStep.shows_iff (h : t.InStep) : t.Shows label (.at place) ↔ t.emplaced.place? label = some place :=
  ⟨fun hshows => hshows.emplaced, fun hplace => ⟨hplace, (h.dropped.place? label).trans hplace,
    (h.flushes.place? label).trans hplace, (h.batchSizes.place? label).trans hplace⟩⟩

theorem InStep.readings?_eq (h : t.InStep) (label : String) :
    t.readings? label = (t.emplaced.place? label).bind t.readingsAt? := by
  unfold readings? SeriesTable.reading?
  rw [h.dropped.place?, h.flushes.place?, h.batchSizes.place?]
  cases t.emplaced.place? label <;> rfl

theorem InStep.exists_readingsAt (h : t.InStep) (hplace : place < t.emplaced.cells.size) :
    ∃ r, t.readingsAt? place = some r := by
  have hat : ∀ {σ : Type} {u : SeriesTable σ}, u.cells.size = t.emplaced.cells.size → ∃ x, u.at? place = some x :=
    fun hsize => ⟨_, Array.getElem?_eq_getElem (hsize ▸ hplace)⟩
  obtain ⟨e, he⟩ := hat (u := t.emplaced) rfl
  obtain ⟨d, hd⟩ := hat h.dropped.size
  obtain ⟨f, hf⟩ := hat h.flushes.size
  obtain ⟨b, hb⟩ := hat h.batchSizes.size
  exact ⟨⟨e, d, f, b⟩, by simp only [readingsAt?, he, hd, hf, hb, Option.bind_eq_bind, Option.bind_some]; rfl⟩

/-! ### One posting -/

theorem InStep.tally (h : t.InStep) (handles : SeriesHandles) (n : Tally) : (t.tally handles n).InStep := by
  cases n with
  | stored =>
    exact ⟨h.proper.modify _ _, h.dropped.modify_left _ _, h.flushes.modify_left _ _, h.batchSizes.modify_left _ _,
      h.durations.modify_left _ _⟩
  | dropped => exact { h with dropped := h.dropped.modify_right _ _ }
  | drained size seconds =>
    exact ⟨h.proper, h.dropped, h.flushes.modify_right _ _, h.batchSizes.modify_right _ _, h.durations.modify_right _ _⟩

theorem InStep.ofBuffer (h : t.InStep) (label : String) :
    (t.ofBuffer label).1.InStep ∧ (t.ofBuffer label).2 = .at (t.emplaced.resolve label Amount.zero).2 := by
  obtain ⟨hdropped, hdropped'⟩ := h.dropped.resolve label Amount.zero Amount.zero
  obtain ⟨hflushes, hflushes'⟩ := h.flushes.resolve label Amount.zero Amount.zero
  obtain ⟨hbatchSizes, hbatchSizes'⟩ := h.batchSizes.resolve label Amount.zero freshBatchSizes
  obtain ⟨hdurations, hdurations'⟩ := h.durations.resolve label Amount.zero freshDurations
  refine ⟨⟨h.proper.resolve label Amount.zero, hdropped, hflushes, hbatchSizes, hdurations⟩, ?_⟩
  simp only [Telemetry.ofBuffer, hdropped', hflushes', hbatchSizes', hdurations', SeriesHandles.at]

theorem InStep.removeBuffer (h : t.InStep) (gone : String) : (t.removeBuffer gone).InStep :=
  ⟨h.proper.remove gone, h.dropped.remove gone, h.flushes.remove gone, h.batchSizes.remove gone, h.durations.remove gone⟩

theorem InStep.post (h : t.InStep) (x : Posting) : (t.post x).InStep := by
  cases x with
  | made label => exact (h.ofBuffer label).1
  | tallied id handles n => exact h.tally handles n
  | removed gone => exact h.removeBuffer gone

@[simp] theorem emplaced_ofBuffer (t : Telemetry Nat) (label : String) :
    (t.ofBuffer label).1.emplaced = (t.emplaced.resolve label Amount.zero).1 := rfl

@[simp] theorem shown_tally (t : Telemetry Nat) (handles : SeriesHandles) (n : Tally) :
    (t.tally handles n).emplaced.shown = t.emplaced.shown := by
  cases n <;> rfl

@[simp] theorem size_tally (t : Telemetry Nat) (handles : SeriesHandles) (n : Tally) :
    (t.tally handles n).emplaced.cells.size = t.emplaced.cells.size := by
  cases n with
  | stored => exact SeriesTable.size_modify _ _ _
  | dropped | drained => rfl

/-- A buffer that is made holds a place of its label. -/
theorem InStep.holder_made (h : t.InStep) (label : String) :
    (t.ofBuffer label).1.Holder label (t.ofBuffer label).2 ∧ (t.ofBuffer label).1.Shows label (t.ofBuffer label).2 := by
  obtain ⟨hstep, hhandles⟩ := h.ofBuffer label
  have hplace : (t.ofBuffer label).1.emplaced.place? label = some (t.emplaced.resolve label Amount.zero).2 := by
    rw [emplaced_ofBuffer, SeriesTable.place?_resolve, if_pos rfl]
  have hmem := SeriesTable.mem_of_place? hplace
  rw [hhandles]
  exact ⟨⟨_, rfl, hstep.proper.below hmem, fun _ hother => hstep.proper.label_unique hmem hother⟩,
    hstep.shows_iff.mpr hplace⟩

theorem Holder.post (h : t.Holder label handles) (x : Posting) : (t.post x).Holder label handles := by
  obtain ⟨place, rfl, hplace, howner⟩ := h
  cases x with
  | made made =>
    obtain ⟨-, hplace', hshown⟩ := t.emplaced.resolve_keeps made Amount.zero hplace
    exact ⟨place, rfl, hplace', fun other hother => howner other (hshown other hother)⟩
  | tallied id tallied n =>
    refine ⟨place, rfl, ?_, fun other hother => howner other ?_⟩
    · exact (size_tally t tallied n).symm ▸ hplace
    · exact shown_tally t tallied n ▸ hother
  | removed gone => exact ⟨place, rfl, hplace, fun other hother => howner other (List.mem_of_mem_filter hother)⟩

/-- The series of a holder are shown under no other label. -/
theorem Holder.label_eq (h : t.Holder label handles) {other : String} (hshows : t.Shows other handles) : other = label := by
  obtain ⟨place, rfl, -, howner⟩ := h
  exact howner other (SeriesTable.mem_of_place? hshows.emplaced)

theorem readings?_removeBuffer (t : Telemetry Nat) (label : String) : (t.removeBuffer label).readings? label = none := by
  simp [readings?, removeBuffer, SeriesTable.reading?, SeriesTable.place?_remove]

/-- A holder's series are shown until its label is removed. Then they are never shown again. -/
theorem shows_post (hstep : t.InStep) (h : t.Holder label handles) (x : Posting) :
    (t.post x).Shows label handles ↔ t.Shows label handles ∧ x ≠ .removed label := by
  obtain ⟨place, rfl, hplace, -⟩ := h
  rw [(hstep.post x).shows_iff, hstep.shows_iff]
  cases x with
  | made made =>
    rw [and_iff_left (fun heq => by cases heq)]
    show (t.ofBuffer made).1.emplaced.place? label = some place ↔ _
    rw [emplaced_ofBuffer, SeriesTable.place?_resolve]
    split
    · rename_i hsame
      subst hsame
      rcases t.emplaced.resolve_cases label Amount.zero with ⟨found, hfound, heq⟩ | ⟨hnone, heq⟩
      · rw [heq, hfound]
      · rw [heq, hnone]
        simp only [Option.some.injEq, reduceCtorEq, iff_false]
        exact (Nat.ne_of_lt hplace).symm
    · rfl
  | tallied id tallied n =>
    rw [and_iff_left (fun heq => by cases heq)]
    show (t.tally tallied n).emplaced.place? label = some place ↔ _
    rw [SeriesTable.place?, shown_tally]
    rfl
  | removed gone =>
    show (t.emplaced.remove gone).place? label = some place ↔ _
    rw [SeriesTable.place?_remove]
    by_cases hgone : label = gone
    · simp [hgone]
    · have hne : Posting.removed gone ≠ .removed label := fun heq => hgone (Posting.removed.inj heq).symm
      simp [hgone, hne]

theorem readingsAt?_tally (t : Telemetry Nat) (tallied place : Nat) (n : Tally) :
    (t.tally (.at tallied) n).readingsAt? place =
      if place = tallied then (t.readingsAt? place).map (Readings.after · n) else t.readingsAt? place := by
  cases n with
  | stored =>
    simp only [readingsAt?, tally, addEmplaced, SeriesHandles.at, SeriesTable.at?_modify]
    split
    · cases t.emplaced.at? place <;> cases t.dropped.at? place <;> cases t.flushes.at? place <;>
        cases t.batchSizes.at? place <;> rfl
    · rfl
  | dropped =>
    simp only [readingsAt?, tally, addDropped, SeriesHandles.at, SeriesTable.at?_modify]
    split
    · cases t.emplaced.at? place <;> cases t.dropped.at? place <;> cases t.flushes.at? place <;>
        cases t.batchSizes.at? place <;> rfl
    · rfl
  | drained size seconds =>
    simp only [readingsAt?, tally, countDrain, addFlushes, observeBatch, observeDuration, SeriesHandles.at,
      SeriesTable.at?_modify]
    split
    · cases t.emplaced.at? place <;> cases t.dropped.at? place <;> cases t.flushes.at? place <;>
        cases t.batchSizes.at? place <;> rfl
    · rfl

/-- The series at a place count what is tallied in them, and nothing else. -/
theorem readingsAt?_post (hstep : t.InStep) (hplace : place < t.emplaced.cells.size) {x : Posting} (hx : x.Placed) :
    (t.post x).readingsAt? place =
      (t.readingsAt? place).map fun r => (x.tallyIn? (.at place)).toList.foldl Readings.after r := by
  cases x with
  | made made =>
    have hsame : ∀ {σ : Type} {u : SeriesTable σ} (fresh : σ), t.emplaced.Like u →
        (u.resolve made fresh).1.at? place = u.at? place := fun fresh hlike =>
      (SeriesTable.resolve_keeps _ made fresh (hlike.size ▸ hplace)).1
    have hreadings : (t.post (.made made)).readingsAt? place = t.readingsAt? place := by
      simp only [readingsAt?, post, Telemetry.ofBuffer, hsame _ ⟨rfl, rfl⟩, hsame _ hstep.dropped, hsame _ hstep.flushes,
        hsame _ hstep.batchSizes]
    exact hreadings.trans Option.map_id'.symm
  | tallied id tallied n =>
    obtain ⟨tallied, rfl⟩ := hx
    show (t.tally (.at tallied) n).readingsAt? place = _
    rw [readingsAt?_tally]
    by_cases hsame : place = tallied
    · subst hsame
      simp [Posting.tallyIn?]
    · have hne : SeriesHandles.at tallied ≠ .at place := fun heq => hsame (SeriesHandles.mk.inj heq).1.symm
      simp [Posting.tallyIn?, hsame, hne]
  | removed gone => exact Option.map_id'.symm

/-! ### Any postings -/

variable {xs : List Posting}

@[simp] theorem postAll_nil (t : Telemetry Nat) : t.postAll [] = t := rfl

@[simp] theorem postAll_cons (t : Telemetry Nat) (x : Posting) (xs : List Posting) :
    t.postAll (x :: xs) = (t.post x).postAll xs := rfl

theorem postAll_append (t : Telemetry Nat) (xs ys : List Posting) : t.postAll (xs ++ ys) = (t.postAll xs).postAll ys :=
  List.foldl_append

theorem InStep.postAll (h : t.InStep) (xs : List Posting) : (t.postAll xs).InStep := by
  induction xs generalizing t with
  | nil => exact h
  | cons x xs ih => exact ih (h.post x)

theorem Holder.postAll (h : t.Holder label handles) (xs : List Posting) : (t.postAll xs).Holder label handles := by
  induction xs generalizing t with
  | nil => exact h
  | cons x xs ih => exact ih (h.post x)

theorem shows_postAll (hstep : t.InStep) (h : t.Holder label handles) (xs : List Posting) :
    (t.postAll xs).Shows label handles ↔ t.Shows label handles ∧ .removed label ∉ xs := by
  induction xs generalizing t with
  | nil => simp
  | cons x xs ih =>
    rw [postAll_cons, ih (hstep.post x) (h.post x), shows_post hstep h, List.mem_cons, not_or, and_assoc, ne_comm]

theorem readingsAt?_postAll (hstep : t.InStep) (h : t.Holder label (.at place)) (hxs : ∀ x ∈ xs, x.Placed) :
    (t.postAll xs).readingsAt? place =
      (t.readingsAt? place).map fun r => (xs.filterMap (Posting.tallyIn? (.at place))).foldl Readings.after r := by
  induction xs generalizing t with
  | nil => exact Option.map_id'.symm
  | cons x xs ih =>
    obtain ⟨hx, hxs⟩ := List.forall_mem_cons.mp hxs
    have hplace : place < t.emplaced.cells.size := by
      obtain ⟨place', heq, hplace, -⟩ := h
      obtain rfl := (SeriesHandles.mk.inj heq).1
      exact hplace
    rw [postAll_cons, ih (hstep.post x) (h.post x) hxs, readingsAt?_post hstep hplace hx, Option.map_map]
    congr 1
    funext r
    cases htally : x.tallyIn? (.at place) with
    | none => rw [List.filterMap_cons_none htally]; rfl
    | some n => rw [List.filterMap_cons_some htally]; rfl

/-- While its series are shown, a holder's label shows what it showed before and all that was tallied in them since. -/
theorem readings_postAll (hstep : t.InStep) (h : t.Holder label handles) (hxs : ∀ x ∈ xs, x.Placed)
    (hshows : t.Shows label handles) (hnot : .removed label ∉ xs) :
    ∃ r, t.readings? label = some r ∧
      (t.postAll xs).readings? label = some ((xs.filterMap (Posting.tallyIn? handles)).foldl Readings.after r) := by
  have hshows' := (shows_postAll hstep h xs).mpr ⟨hshows, hnot⟩
  obtain ⟨place, rfl, hplace, howner⟩ := h
  obtain ⟨r, hr⟩ := hstep.exists_readingsAt hplace
  refine ⟨r, ?_, ?_⟩
  · rw [hstep.readings?_eq, hstep.shows_iff.mp hshows, Option.bind_some, hr]
  · rw [(hstep.postAll xs).readings?_eq, (hstep.postAll xs).shows_iff.mp hshows', Option.bind_some,
      readingsAt?_postAll hstep ⟨place, rfl, hplace, howner⟩ hxs, hr, Option.map_some]

/-! ### The text -/

theorem mem_family {σ : Type} {name help kind line : String} {rows : List (String × σ)} {x : σ}
    {lines : String → String → σ → List String} (hrow : (label, x) ∈ rows)
    (hline : line ∈ lines (Exposition.namespaceText ++ name) label x) :
    line ∈ Exposition.family name help kind rows lines := by
  have hrows : rows.isEmpty = false := List.isEmpty_eq_false_iff.mpr (List.ne_nil_of_mem hrow)
  simp only [Exposition.family, hrows, Bool.false_eq_true, if_false]
  exact List.mem_append_right _ (List.mem_flatMap.mpr ⟨(label, x), hrow, hline⟩)

theorem readings?_eq_some : t.readings? label = some r ↔
    t.emplaced.reading? label = some r.emplaced ∧ t.dropped.reading? label = some r.dropped ∧
      t.flushes.reading? label = some r.flushes ∧ t.batchSizes.reading? label = some r.batchSizes := by
  unfold readings?
  cases r
  cases t.emplaced.reading? label <;> cases t.dropped.reading? label <;> cases t.flushes.reading? label <;>
    cases t.batchSizes.reading? label <;> simp

/-- What is shown under a label is in the text. -/
theorem mem_lines (h : t.readings? label = some r) : ∀ line ∈ r.lines label, line ∈ t.lines := by
  obtain ⟨hemplaced, hdropped, hflushes, hbatchSizes⟩ := readings?_eq_some.mp h
  intro line hline
  simp only [Readings.lines, List.mem_append] at hline
  simp only [Telemetry.lines, List.mem_append]
  rcases hline with ((hline | hline) | hline) | hline
  · exact Or.inl (Or.inl (Or.inl (Or.inl (mem_family (SeriesTable.mem_rows_of_reading hbatchSizes) hline))))
  · exact Or.inl (Or.inl (Or.inr (mem_family (SeriesTable.mem_rows_of_reading hflushes) hline)))
  · exact Or.inl (Or.inr (mem_family (SeriesTable.mem_rows_of_reading hdropped) hline))
  · exact Or.inr (mem_family (SeriesTable.mem_rows_of_reading hemplaced) hline)

/-- No table has a row for the label. -/
def Hides (t : Telemetry Nat) (label : String) : Prop :=
  (∀ n, (label, n) ∉ t.emplaced.rows ∧ (label, n) ∉ t.dropped.rows ∧ (label, n) ∉ t.flushes.rows) ∧
    ∀ sizes, (label, sizes) ∉ t.batchSizes.rows

theorem InStep.hides (h : t.InStep) (hnone : t.readings? label = none) : t.Hides label := by
  have hplace : t.emplaced.place? label = none := by
    cases hplace : t.emplaced.place? label with
    | none => rfl
    | some place =>
      obtain ⟨r, hr⟩ := h.exists_readingsAt (h.proper.below (SeriesTable.mem_of_place? hplace))
      rw [h.readings?_eq, hplace, Option.bind_some, hr] at hnone
      cases hnone
  have hrows : ∀ {σ : Type} {u : SeriesTable σ}, t.emplaced.Like u → ∀ x, (label, x) ∉ u.rows := fun hlike x hmem => by
    obtain ⟨place, hmem, -⟩ := SeriesTable.mem_rows.mp hmem
    rw [h.proper.place?_eq_some.mpr (hlike.shown ▸ hmem)] at hplace
    cases hplace
  exact ⟨fun n => ⟨hrows ⟨rfl, rfl⟩ n, hrows h.dropped n, hrows h.flushes n⟩, hrows h.batchSizes⟩

end Telemetry

end PerfCounters
