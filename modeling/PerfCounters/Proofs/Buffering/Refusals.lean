import Mathlib.Algebra.Order.Group.Multiset
import Mathlib.Tactic.Abel
import PerfCounters.Proofs.Buffering.Events

/-! Consumers that fail. A refused batch stays on its side, and records go behind it once that side is current again, so
    the order of storing is lost; but nothing else is: what was stored is what was accepted and what the sides hold.
    While no drain is in flight, the retired side holds only what has been refused. -/

namespace PerfCounters

variable {α : Type}

/-! ### What drains do to the records -/

/-- The records of the batches that were answered so. -/
def Delivery.recordsOf (accepted : Bool) (ds : List (Delivery α)) : Multiset (Record α) :=
  ((ds.filter fun d => d.accepted == accepted).flatMap fun d => d.batch.records : List (Record α))

@[simp] theorem Delivery.recordsOf_nil (accepted : Bool) : recordsOf accepted ([] : List (Delivery α)) = 0 := rfl

@[simp] theorem Delivery.recordsOf_append (accepted : Bool) (ds es : List (Delivery α)) :
    recordsOf accepted (ds ++ es) = recordsOf accepted ds + recordsOf accepted es := by
  simp [recordsOf]

theorem RecordBuffer.records_unlock (b : RecordBuffer α) (t : Thread) : (b.unlock t).records = b.records := rfl

namespace Buffer

open Delivery (recordsOf)

variable {b b' : Buffer α} {ds : List (Delivery α)}

/-- All that the sides of a buffer hold. -/
def content (b : Buffer α) : Multiset (Record α) := ↑b.left.records + ↑b.right.records

theorem content_eq (b : Buffer α) : b.content = ↑b.retired.records + ↑b.current.records := by
  unfold content retired current
  cases b.side with
  | left => exact add_comm _ _
  | right => rfl

theorem retired_ofSettings (id : BufferId) (settings : Settings) (handles : SeriesHandles) :
    (ofSettings id settings handles : Buffer α).retired.records = [] :=
  (RecordBuffer.bare_ofCapacity _).records

theorem content_ofSettings (id : BufferId) (settings : Settings) (handles : SeriesHandles) :
    (ofSettings id settings handles : Buffer α).content = 0 := by
  have hcurrent : (ofSettings id settings handles : Buffer α).current.records = [] :=
    (RecordBuffer.bare_ofCapacity _).records
  rw [content_eq, retired_ofSettings, hcurrent]
  rfl

theorem retired_enterDrain (h : b.Sound) : b.enterDrain.retired.records = b.retired.records := by
  rcases enterDrain_cases h with ⟨heq, -⟩ | ⟨-, heq⟩
  · rw [heq]
  · rw [heq]
    simp [retired]

theorem content_enterDrain (h : b.Sound) : b.enterDrain.content = b.content := by
  rw [content_eq, content_eq, retired_enterDrain h, (enterDrain_kept h).2.1.current]

theorem enterDrain_idle (hd : b.drain = none) : b.enterDrain = b := by simp [enterDrain, hd]

/-- A drain that ends empties the side that it drained, or leaves it as it was. -/
theorem retired_endDrain (h : b.Sound) {batch : Batch α}
    (hd : b.drain = some { side := b.side.other, batch := some batch }) (accepted : Bool) :
    batch.records = b.retired.records ∧
      (b.endDrain accepted).retired.records = if accepted then [] else b.retired.records := by
  have hdr := h.draining
  rw [hd] at hdr
  refine ⟨hdr.2.2.2, ?_⟩
  cases accepted with
  | true => exact ((endDrain_kept h hd true).2.2.2.1 rfl).records
  | false =>
    have heq : b.endDrain false = (b.modifyStore b.side.other fun store => store.unlock worker).withDrain none := by
      simp only [endDrain, hd]
      rfl
    rw [heq]
    simp [retired, RecordBuffer.records_unlock]

theorem recordsOf_batch (accepted : Bool) (batch : Batch α) (answer : Bool) :
    recordsOf answer (if batch.records.isEmpty then [] else [⟨batch, accepted⟩]) =
      if accepted = answer then ↑batch.records else 0 := by
  cases hempty : batch.records with
  | nil => simp
  | cons r rest => cases accepted <;> cases answer <;> simp [recordsOf, hempty]

/-- Drains lose nothing and repeat nothing: what leaves the sides was accepted. -/
theorem Turns.content (h : b.Turns b' ds) (hs : b.Sound) : b.content = recordsOf true ds + b'.content := by
  cases h with
  | rest => simp
  | start hd =>
    rw [content_eq, content_eq, retired_startDrain, current_startDrain, Delivery.recordsOf_nil]
    abel
  | enter => rw [content_enterDrain hs, Delivery.recordsOf_nil, zero_add]
  | @finish batch accepted hd =>
    obtain ⟨hsound, -, -, -⟩ := enterDrain_kept hs
    obtain ⟨hbatch, hretired⟩ := retired_endDrain hsound hd accepted
    rw [← content_enterDrain hs, content_eq, content_eq (b.enterDrain.endDrain accepted), hretired,
      (endDrain_kept hsound hd accepted).2.1.current, recordsOf_batch, hbatch]
    cases accepted <;> simp

/-- When a drain has ended, what it has left on its side was refused. -/
theorem Turns.retired_le (h : b.Turns b' ds) (hs : b.Sound) (hidle : b'.drain = none) {seen : Multiset (Record α)}
    (hseen : b.drain = none → ↑b.retired.records ≤ seen) : ↑b'.retired.records ≤ seen + recordsOf false ds := by
  cases h with
  | rest =>
    rw [Delivery.recordsOf_nil, add_zero]
    exact hseen hidle
  | start hd => cases hidle
  | enter =>
    rw [Delivery.recordsOf_nil, add_zero, retired_enterDrain hs]
    refine hseen ?_
    have hbusy := (enterDrain_kept hs).2.2.2
    rw [isBusy, hidle] at hbusy
    simpa [isBusy] using hbusy.symm
  | @finish batch accepted hd =>
    obtain ⟨hsound, -, -, -⟩ := enterDrain_kept hs
    obtain ⟨hbatch, hretired⟩ := retired_endDrain hsound hd accepted
    rw [hretired, recordsOf_batch, hbatch]
    cases accepted with
    | true => exact Multiset.zero_le _
    | false => exact Multiset.le_add_left _ _

/-- How a drain that is not refused goes on: it leaves the current side alone, and has emptied the other one when it
ends. -/
structure Rests (b b' : Buffer α) : Prop where
  current : b'.current = b.current
  idle : b.drain = none → b' = b
  ended : b'.drain = none → b' = b ∨ b'.retired.records = []

theorem Rests.refl (b : Buffer α) : b.Rests b := ⟨rfl, fun _ => rfl, fun _ => Or.inl rfl⟩

theorem rests_enterDrain (h : b.Sound) : b.Rests b.enterDrain := by
  refine ⟨(enterDrain_kept h).2.1.current, enterDrain_idle, fun hidle => Or.inl (enterDrain_idle ?_)⟩
  have hbusy := (enterDrain_kept h).2.2.2
  rw [isBusy, hidle] at hbusy
  simpa [isBusy] using hbusy.symm

theorem rests_endDrain (h : b.Sound) {batch : Batch α}
    (hd : b.enterDrain.drain = some { side := b.enterDrain.side.other, batch := some batch }) :
    b.Rests (b.enterDrain.endDrain true) := by
  obtain ⟨hsound, hkeeps, -, -⟩ := enterDrain_kept h
  refine ⟨(hkeeps.trans (endDrain_kept hsound hd true).2.1).current, fun hidle => ?_, fun _ => Or.inr ?_⟩
  · rw [enterDrain_idle hidle, hidle] at hd
    cases hd
  · rw [(retired_endDrain hsound hd true).2, if_pos rfl]

/-- A stored record goes to the current side, and nothing else changes. -/
theorem push_stored (h : b.Sound) {r : Record α} (hr : (b.push r).2 = true) :
    (b.push r).1.current.records = b.current.records ++ [r] ∧ (b.push r).1.retired = b.retired ∧
      (b.push r).1.drain = b.drain := by
  obtain ⟨-, -, -, hrecords⟩ := RecordBuffer.push_cases (r := r) h.current
  rw [push_eq h] at hr ⊢
  simp only at hr
  rw [hr, if_pos rfl] at hrecords
  exact ⟨by simpa [current] using hrecords, by simp [retired], modifyStore_drain _ _ _⟩

end Buffer

namespace Service

open Delivery (recordsOf)

/-- The records of a buffer that the consumer was handed, whatever it answered. -/
def passed (s : Service α) (id : BufferId) : List (Record α) := (s.handed id).flatMap fun d => d.batch.records

/-- The records of a buffer in the batches that the consumer failed on. -/
def refused (s : Service α) (id : BufferId) : Multiset (Record α) := recordsOf false (s.handed id)

theorem delivered_eq (s : Service α) (id : BufferId) :
    (s.delivered id : Multiset (Record α)) = recordsOf true (s.handed id) := by
  simp [delivered, recordsOf, handed, List.filter_filter]

theorem passed_eq (s : Service α) (id : BufferId) :
    (s.passed id : Multiset (Record α)) = s.delivered id + s.refused id := by
  rw [delivered_eq]
  unfold passed refused
  induction s.handed id with
  | nil => rfl
  | cons d ds ih =>
    have hcons : ∀ accepted, recordsOf accepted (d :: ds) =
        (if d.accepted = accepted then (d.batch.records : Multiset (Record α)) else 0) + recordsOf accepted ds := by
      intro accepted
      by_cases h : d.accepted = accepted <;> simp [recordsOf, h]
    rw [hcons, hcons, List.flatMap_cons, ← Multiset.coe_add, ih]
    cases d.accepted <;> simp <;> abel

end Service

namespace Session

variable {s s' : Session α} {id : BufferId}

/-- What every event keeps: a record that was stored was delivered or is held, and what is held on the retired side of a
buffer without a drain in flight was refused. -/
structure Accounted (s : Session α) : Prop where
  held : ∀ {id b}, s.service.buffer? id = some b →
    (s.stored id : Multiset (Record α)) = s.service.delivered id + b.content
  seen : ∀ {id b}, s.service.buffer? id = some b → b.drain = none → ↑b.retired.records ≤ s.service.refused id

theorem stored_of_stored {r : Record α} (h : s'.emplaced id = s.emplaced id ++ [(r, .stored)]) :
    s'.stored id = s.stored id ++ [r] := by
  rw [stored_eq_kept, stored_eq_kept, h, List.filterMap_append]
  rfl

theorem stored_of_dropped {r : Record α} (h : s'.emplaced id = s.emplaced id ++ [(r, .dropped)]) :
    s'.stored id = s.stored id := by
  rw [stored_eq_kept, stored_eq_kept, h, List.filterMap_append]
  exact List.append_nil _

theorem stored_congr (h : s'.emplaced id = s.emplaced id) : s'.stored id = s.stored id := by
  rw [stored_eq_kept, stored_eq_kept, h]

theorem Accounted.step (h : s.Accounted) (hregular : s.Regular) (huntouched : s.Untouched) (e : Event α) :
    (s.step e).Accounted := by
  have hboth : ∀ {id b'}, (s.step e).service.buffer? id = some b' →
      ((s.step e).stored id : Multiset (Record α)) = (s.step e).service.delivered id + b'.content ∧
        (b'.drain = none → ↑b'.retired.records ≤ (s.step e).service.refused id) := by
    intro id b' hb'
    rw [Service.delivered_eq, Service.refused]
    cases (hregular.happens e).changes hregular.sound id with
    | turned hturned hsame =>
      cases hturned with
      | absent _ hnone => rw [hnone] at hb'; cases hb'
      | @buffer b _ ds hb hb'' hturns hlog =>
        rw [hb''] at hb'
        cases hb'
        have hheld := h.held hb
        rw [Service.delivered_eq, hturns.content (hregular.sound.sound hb)] at hheld
        refine ⟨?_, fun hidle => ?_⟩
        · rw [stored_congr hsame, hlog, hheld, Delivery.recordsOf_append, add_assoc]
        · rw [hlog, Delivery.recordsOf_append]
          exact hturns.retired_le (hregular.sound.sound hb) hidle (h.seen hb)
    | configured hnew hsame =>
      obtain ⟨hnothing, hunhanded⟩ := huntouched.configured hnew
      obtain ⟨settings, handles, -, hb'', -⟩ := hnew.buffer
      rw [hb''] at hb'
      cases hb'
      rw [stored_eq_kept, hsame, hnothing, hnew.handed, hunhanded, Buffer.content_ofSettings]
      refine ⟨rfl, fun _ => ?_⟩
      rw [Buffer.retired_ofSettings]
      exact Multiset.zero_le _
    | forgotten _ hgone => rw [hgone] at hb'; cases hb'
    | @stored r b hb hpush hb'' hlook hmore hlog =>
      rw [hb''] at hb'
      cases hb'
      obtain ⟨hcurrent, hretired, hdrain⟩ := Buffer.push_stored (hregular.sound.sound hb) hpush
      have hheld := h.held hb
      rw [Service.delivered_eq, b.content_eq] at hheld
      rw [hlog, stored_of_stored hmore, Buffer.content_eq, hcurrent, hretired, hdrain]
      refine ⟨?_, h.seen hb⟩
      rw [← Multiset.coe_add, hheld, ← Multiset.coe_add]
      abel
    | dropped hb _ _ hb'' hmore hlog =>
      have hheld := h.held hb
      have hseen := h.seen hb
      rw [hb''] at hb'
      cases hb'
      rw [hlog, stored_of_dropped hmore, ← Service.delivered_eq]
      exact ⟨hheld, hseen⟩
  exact ⟨fun hb' => (hboth hb').1, fun hb' => (hboth hb').2⟩

end Session

end PerfCounters
