import PerfCounters.Proofs.Buffering.Calls
import PerfCounters.Proofs.Buffering.Watermark

/-! What the calls answer. A buffer keeps its settings, counts the records that were dropped, and drops none where it
    must not. Where it must not, and the consumer fails on nothing, storing always succeeds. -/

namespace PerfCounters

open Service

variable {α : Type}

namespace Buffer

variable {b b' : Buffer α} {settings : Settings}

@[simp] theorem push_settings (h : b.Sound) (r : Record α) : (b.push r).1.settings = b.settings := by
  rw [push_eq h, modifyStore_settings]

@[simp] theorem push_drops (h : b.Sound) (r : Record α) : (b.push r).1.drops = b.drops := by
  rw [push_eq h, modifyStore_drops]

/-- The buffer has these settings, and its sides the size they say. -/
structure Made (b : Buffer α) (settings : Settings) : Prop where
  settings_eq : b.settings = settings
  capacity_eq : b.current.capacity = max settings.size 1

theorem made_ofSettings (id : BufferId) (settings : Settings) (handles : SeriesHandles) :
    (ofSettings id settings handles : Buffer α).Made settings := ⟨rfl, rfl⟩

theorem lasting_made (settings : Settings) : Lasting fun b : Buffer α => b.Made settings where
  turns {b b' ds} h hs hturns := by
    refine ⟨(hturns.settings hs).trans h.settings_eq, ?_⟩
    rcases hturns.current hs with hsame | ⟨-, hretired⟩
    · rw [hsame, h.capacity_eq]
    · rw [hretired, hs.capacity, h.capacity_eq]
  push {b} h hs r := by
    refine ⟨(push_settings hs r).trans h.settings_eq, ?_⟩
    obtain ⟨-, -, hcapacity, -⟩ := RecordBuffer.push_cases (r := r) hs.current
    have hcurrent : (b.push r).1.current = (b.current.push r).1 := by
      rw [push_eq hs]
      simp [current]
    rw [hcurrent, hcapacity, h.capacity_eq]
  drop h := ⟨h.settings_eq, h.capacity_eq⟩

end Buffer

namespace Session

variable {s s' : Session α} {id : BufferId} {b b' : Buffer α} {settings : Settings}

/-! ### Settings -/

/-- The buffer under a number was made with these settings, or there will never be one again. -/
def Bound (s : Session α) (id : BufferId) (settings : Settings) : Prop :=
  (∃ b, s.service.buffer? id = some b ∧ b.Made settings) ∨
    s.service.buffer? id = none ∧ id ∉ s.service.ids ∧ id < s.service.nextId

theorem Bound.step (h : s.Bound id settings) (hregular : s.Regular) (e : Event α) : (s.step e).Bound id settings :=
  Stays.step h (Buffer.lasting_made settings) hregular e

theorem Bound.run (h : s.Bound id settings) (hregular : s.Regular) (events : List (Event α)) :
    (s.run events).Bound id settings :=
  Stays.run h (Buffer.lasting_made settings) hregular events

theorem Bound.made (h : s.Bound id settings) (hb : s.service.buffer? id = some b) : b.Made settings := Stays.holds h hb

/-! ### Drops -/

/-- A buffer has counted the records that it dropped, of which there are none if it drops none. -/
def Counted (s : Session α) : Prop :=
  ∀ id b, s.service.buffer? id = some b → b.drops = (s.emplaced id).countP (fun x => x.2 == .dropped) ∧
    (b.settings.policy = .lossless → b.drops = 0)

theorem counted_ofReplies (replies : List Reply) : (ofReplies replies : Session α).Counted := fun _ _ h => by cases h

theorem Counted.step (h : s.Counted) (hregular : s.Regular) (huntouched : s.Untouched) (e : Event α) :
    (s.step e).Counted := by
  intro id b' hb'
  cases (hregular.happens e).changes hregular.sound id with
  | turned hturned hsame =>
    cases hturned with
    | absent _ hnone => rw [hnone] at hb'; cases hb'
    | buffer hb hb'' hturns =>
      have hsound := hregular.sound.sound hb
      obtain rfl := Option.some.inj (hb'.symm.trans hb'')
      rw [hturns.drops hsound, hturns.settings hsound, hsame]
      exact h id _ hb
  | configured hnew hsame =>
    obtain ⟨settings, handles, -, hb'', -⟩ := hnew.buffer
    obtain rfl := Option.some.inj (hb'.symm.trans hb'')
    rw [hsame, (huntouched.configured hnew).1]
    exact ⟨rfl, fun _ => rfl⟩
  | forgotten _ hnone => rw [hnone] at hb'; cases hb'
  | stored hb _ hb'' _ hmore =>
    have hsound := hregular.sound.sound hb
    obtain rfl := Option.some.inj (hb'.symm.trans hb'')
    rw [Buffer.push_drops hsound, Buffer.push_settings hsound, hmore, List.countP_append]
    exact h id _ hb
  | dropped hb _ hpolicy hb'' hmore =>
    obtain rfl := Option.some.inj (hb'.symm.trans hb'')
    rw [hmore, List.countP_append, ← (h id _ hb).1]
    refine ⟨rfl, fun hlossless => ?_⟩
    rw [show _ = Policy.discard from hpolicy] at hlossless
    cases hlossless

theorem Counted.run (h : s.Counted) (hregular : s.Regular) (huntouched : s.Untouched) (events : List (Event α)) :
    (s.run events).Counted :=
  (hregular.run_keeps (P := fun s => s.Untouched ∧ s.Counted)
    (fun h hregular e => ⟨h.1.step hregular e, h.2.step hregular h.1 e⟩) ⟨huntouched, h⟩ events).2

end Session

/-! ### Calls to a service whose consumer fails on nothing -/

namespace Service

variable {s s' : Service α} {id : BufferId} {b : Buffer α}

/-- A drain that is waited for is delivered. -/
theorem kept_flushBuffer (hs : s.Orderly) (hb : s.buffer? id = some b) :
    Kept s (s.flushBuffer b true).1 ∧ (s.flushBuffer b true).2 = .ok () := by
  have hid := hs.named hb
  have hidled : Kept s (s.idled b) := by
    unfold idled
    split
    · exact (kept_finish hs b.id).1
    · exact Kept.refl hs
  obtain ⟨b', hrep, -, hkeeps, hnone, -⟩ := idled_spec hs.toSound hb
  have hid' : b'.id = id := hkeeps.id.trans hid
  have hb' := hrep.self
  have hstart := kept_start hidled.orderly hb' (by simp [Buffer.isBusy, hnone])
  obtain ⟨hfinish, htrue⟩ := kept_finish hstart.orderly id
  rw [hid'] at hb'
  rw [flushBuffer_eq hid hid' hb', htrue]
  exact ⟨(hidled.trans hstart).trans hfinish, rfl⟩

theorem stores_afterStore (hs : s.Orderly) (hb : s.buffer? id = some b) {r : Record α} (hpush : (b.push r).2 = true) :
    ((s.afterStore (b.push r).1).buffer? id).isSome = true := by
  have hname : (b.push r).1.id = id := (Buffer.push_id (hs.sound hb) r).trans (hs.named hb)
  have hself := (replaces_countStored hs.toSound hb r).self
  rw [hname] at hself
  obtain ⟨b', hb', -⟩ := Session.checkWatermark_cases (ledger_countStored hs (by rwa [hs.named hb]) hpush).1 hself
  rw [afterStore, hb']
  rfl

/-- Enough tries store a record that the buffer can hold and must not drop. -/
theorem emplaceWithin_lossless {r : Record α} (halign : r.type.align ∈ alignments) (attempts : Nat) (hs : s.Orderly)
    (hb : s.buffer? id = some b) (hpolicy : b.settings.policy = .lossless) (hcan : b.current.canHold r.type = true)
    (henough : Session.Enough attempts b) :
    (s.emplaceWithin attempts id r).2 = .ok .stored ∧ ((s.emplaceWithin attempts id r).1.buffer? id).isSome = true := by
  induction attempts generalizing s b with
  | zero => exact False.elim henough
  | succ attempts ih =>
    cases hpush : b.push r with
    | mk b' stored =>
      cases stored with
      | true =>
        have hstored := stores_afterStore hs hb (r := r) (by rw [hpush])
        rw [hpush] at hstored
        rw [Session.emplaceWithin_stored hb hpush]
        exact ⟨rfl, hstored⟩
      | false =>
        cases attempts with
        | zero =>
          have hstored := Buffer.push_of_bare (hs.sound hb) henough hcan halign
          rw [hpush] at hstored
          cases hstored
        | succ attempts =>
          obtain ⟨hkept, hok⟩ := kept_flushBuffer hs hb
          obtain ⟨b'', hrep, -, hid, hsettings, hcapacity, hnone, hcurrent, hresult⟩ := flushBuffer_waited hs.toSound hb
          have hb'' := hrep.self
          rw [hid] at hb''
          have hbare : b''.retired.Bare := hresult.elim And.right fun herror => by rw [hok] at herror; cases herror
          rw [Session.emplaceWithin_again hb hpush hpolicy (Prod.ext rfl hok)]
          exact ih hkept.orderly hb'' (by rw [hsettings, hpolicy])
            (by rwa [RecordBuffer.canHold, hcapacity, ← RecordBuffer.canHold])
            (Session.enough_waited henough hnone hcurrent hbare)

theorem emplace_lossless {r : Record α} (halign : r.type.align ∈ alignments) (hs : s.Orderly)
    (hb : s.buffer? id = some b) (hpolicy : b.settings.policy = .lossless) (hcan : b.canHold r.type = true) :
    (s.emplace id r).2 = .ok .stored ∧ ((s.emplace id r).1.buffer? id).isSome = true := by
  simp only [emplace, configured_eq_ok.mpr hb, hcan, if_true]
  exact emplaceWithin_lossless halign maxAttempts hs hb hpolicy
    ((Buffer.canHold_current (hs.sound hb) r.type).symm.trans hcan) trivial

theorem flush_waited (hs : s.Orderly) (hb : s.buffer? id = some b) :
    s.flush id true = ((s.flushBuffer b true).1, .ok ()) := by
  simp only [flush, configured_eq_ok.mpr hb]
  exact Prod.ext rfl (kept_flushBuffer hs hb).2

theorem destroy_ok (hs : s.Orderly) (hb : s.buffer? id = some b) : (s.destroy id).2 = .ok () := by
  have hlookup := lookup?_of_buffer? hb
  obtain ⟨b', hrep, -, hid, -⟩ := flushBuffer_waited hs.toSound hb
  have hb' := hrep.self
  rw [hid] at hb'
  have hboth : ∃ service, s.drainBoth id = (service, .ok ()) := by
    simp only [drainBoth, flush_waited hs hb, flush_waited (kept_flushBuffer hs hb).1.orderly hb']
    exact ⟨_, rfl⟩
  obtain ⟨service, hboth⟩ := hboth
  simp only [destroy, hlookup, hboth]

end Service

end PerfCounters
