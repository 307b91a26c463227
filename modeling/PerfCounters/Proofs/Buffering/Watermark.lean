import Mathlib.Data.List.Induction
import PerfCounters.Proofs.Buffering.Conservation
import PerfCounters.Proofs.Buffering.Events

/-! Watermarks. The fill of a buffer is looked at once, after a record was stored: a drain starts at the watermark, but
    not while another one is in flight. Such a look is not made up for when that drain ends. -/

namespace PerfCounters

open Service

variable {α : Type}

namespace Session

variable {s s' start : Session α} {events : List (Event α)} {id : BufferId} {b : Buffer α}

/-- The call under way is about to look at the watermark of a buffer. -/
def Looking (s : Session α) (id : BufferId) : Prop := ∃ p, s.pending = some p ∧ p.stage = .watermark id

/-- The call under way is about to find a buffer at its watermark with a drain of it in flight. -/
def LooksBusy (s : Session α) (id : BufferId) : Prop :=
  s.Looking id ∧ ∃ b, s.service.buffer? id = some b ∧ b.isBusy = true ∧ b.atWatermark = true

/-- A look at the watermark of a buffer found a drain in flight, and the side that takes its records has been left as
it was since. -/
def Missed (start : Session α) (events : List (Event α)) (id : BufferId) (current : RecordBuffer α) : Prop :=
  ∃ before after, events = before ++ .advance :: after ∧ (start.run before).LooksBusy id ∧
    ∀ between, between <+: after → ∃ b, (start.run (before ++ .advance :: between)).service.buffer? id = some b ∧
      b.current = current

/-- A buffer at its watermark is about to be looked at, or was and a drain was in flight. -/
def Watched (start : Session α) (events : List (Event α)) (id : BufferId) : Prop :=
  ∀ b, (start.run events).service.buffer? id = some b → 0 < b.settings.watermark →
    b.pending < b.settings.watermark ∨ (start.run events).Looking id ∨ Missed start events id b.current

theorem run_snoc (s : Session α) (events : List (Event α)) (e : Event α) :
    s.run (events ++ [e]) = (s.run events).step e := run_append s events [e]

/-- An event that leaves the side as it is. -/
theorem Missed.snoc {current : RecordBuffer α} (h : Missed start events id current) (e : Event α)
    (hb : (start.run (events ++ [e])).service.buffer? id = some b) (hcurrent : b.current = current) :
    Missed start (events ++ [e]) id current := by
  obtain ⟨before, after, rfl, hlooks, hsame⟩ := h
  refine ⟨before, after ++ [e], by simp, hlooks, fun between hbetween => ?_⟩
  rcases List.prefix_concat_iff.mp hbetween with rfl | hprefix
  · exact ⟨b, by simpa using hb, hcurrent⟩
  · exact hsame between hprefix

/-- Before anything else is done, the call that is about to look at the watermark does. -/
theorem looking_step (h : s.Looking id) {e : Event α} (he : e ≠ .advance) : (s.step e).Looking id := by
  obtain ⟨p, hp, hstage⟩ := h
  cases e with
  | begin call => exact ⟨p, by simp only [Session.step, Session.begin, hp], hstage⟩
  | advance => exact absurd rfl he
  | enter target => exact ⟨p, hp, hstage⟩
  | finish target =>
    have hrefused : p.refused target = p := by simp [Pending.refused, hstage]
    refine ⟨p, ?_, hstage⟩
    simp only [Session.step, Session.finish, hp, Option.map_some, hrefused, ite_self]

theorem atWatermark_iff : b.atWatermark = true ↔ 0 < b.settings.watermark ∧ b.settings.watermark ≤ b.pending := by
  simp [Buffer.atWatermark]

/-- A look at the watermark leaves a buffer below it, or as it was if a drain is in flight. -/
theorem checkWatermark_cases {service : Service α} (hs : service.Orderly) (hb : service.buffer? id = some b) :
    ∃ b', (service.checkWatermark b).buffer? id = some b' ∧ (0 < b'.settings.watermark →
      b'.pending < b'.settings.watermark ∨ b' = b ∧ b.isBusy = true ∧ b.atWatermark = true) := by
  unfold checkWatermark
  cases hat : b.atWatermark with
  | false =>
    refine ⟨b, hb, fun hpositive => Or.inl (Nat.lt_of_not_le fun hle => ?_)⟩
    rw [atWatermark_iff.mpr ⟨hpositive, hle⟩] at hat
    cases hat
  | true =>
    simp only [if_true, flushBuffer, Bool.false_eq_true, if_false]
    cases hbusy : b.isBusy with
    | true => exact ⟨b, hb, fun _ => Or.inr ⟨rfl, rfl, trivial⟩⟩
    | false =>
      obtain rfl := hs.named hb
      have hbare := hs.cleared hb (by simpa [Buffer.isBusy] using hbusy)
      refine ⟨b.startDrain, (replaces_start hb).self, fun hpositive => Or.inl ?_⟩
      rw [Buffer.pending, Buffer.current_startDrain, hbare.count]
      exact hpositive

theorem watched_look (hs : (start.run events).service.Orderly) (hlooking : (start.run events).Looking id) :
    Watched start (events ++ [.advance]) id := by
  obtain ⟨p, hp, hstage⟩ := hlooking
  have hservice : (start.run (events ++ [.advance])).service = (p.next (start.run events).service).1 := by
    rw [run_snoc]
    simp only [Session.step, Session.advance, hp, hstage]
  intro b' hb' hpositive
  cases hb : (start.run events).service.buffer? id with
  | none =>
    simp only [Pending.next, hstage, hb] at hservice
    rw [hservice, hb] at hb'
    cases hb'
  | some b =>
    simp only [Pending.next, hstage, hb] at hservice
    obtain ⟨c, hc, hlook⟩ := checkWatermark_cases hs hb
    rw [← hservice] at hc
    obtain rfl : b' = c := Option.some.inj (hb'.symm.trans hc)
    rcases hlook hpositive with hbelow | ⟨rfl, hbusy, hat⟩
    · exact Or.inl hbelow
    · refine Or.inr (Or.inr ⟨events, [], rfl, ⟨⟨p, hp, hstage⟩, b', hb, hbusy, hat⟩, fun between hbetween => ?_⟩)
      obtain rfl := List.prefix_nil.mp hbetween
      exact ⟨b', hb', rfl⟩

/-- What every event keeps. -/
theorem Watched.snoc (h : Watched start events id) (hregular : (start.run events).Regular)
    (hs : (start.run events).service.Orderly) (e : Event α) : Watched start (events ++ [e]) id := by
  by_cases hlooking : (start.run events).Looking id
  · by_cases he : e = .advance
    · rw [he]
      exact watched_look hs hlooking
    · intro b' _ _
      rw [run_snoc]
      exact Or.inr (Or.inl (looking_step hlooking he))
  · intro b' hb' hpositive
    -- The side of before, with the watermark of before.
    have hsame : ∀ {b}, (start.run events).service.buffer? id = some b → b'.settings = b.settings → b'.current = b.current →
        b'.pending < b'.settings.watermark ∨ (start.run (events ++ [e])).Looking id ∨
          Missed start (events ++ [e]) id b'.current := fun {b} hb hsettings hcurrent => by
      rw [Buffer.pending, hcurrent, hsettings]
      rcases h b hb (by rwa [← hsettings]) with hbelow | hlooking' | hmissed
      · exact Or.inl hbelow
      · exact absurd hlooking' hlooking
      · exact Or.inr (Or.inr (hmissed.snoc e hb' hcurrent))
    have hchanges := (hregular.happens e).changes hregular.sound id
    rw [← run_snoc] at hchanges
    cases hchanges with
    | turned hturned =>
      cases hturned with
      | absent _ hnone => rw [hnone] at hb'; cases hb'
      | buffer hb hb'' hturns =>
        rw [hb''] at hb'
        cases hb'
        rcases hturns.current (hs.sound hb) with hcurrent | ⟨hd, hcurrent⟩
        · exact hsame hb (hturns.settings (hs.sound hb)) hcurrent
        · refine Or.inl ?_
          rw [Buffer.pending, hcurrent, (hs.cleared hb hd).count]
          exact hpositive
    | configured hnew =>
      obtain ⟨settings, handles, -, hb'', -⟩ := hnew.buffer
      rw [hb''] at hb'
      cases hb'
      exact Or.inl hpositive
    | forgotten _ hgone => rw [hgone] at hb'; cases hb'
    | stored _ _ _ hlook => exact Or.inr (Or.inl hlook)
    | dropped hb _ _ hb'' =>
      rw [hb''] at hb'
      cases hb'
      exact hsame hb rfl rfl

theorem watched_run (hstart : start.Balanced) (hregular : start.Regular) (hnew : ∀ b, start.service.buffer? id ≠ some b)
    (events : List (Event α)) : Watched start events id := by
  induction events using List.reverseRecOn with
  | nil => exact fun b hb => absurd hb (hnew b)
  | append_singleton events e ih => exact ih.snoc (hregular.run events) (hstart.run events).orderly e

/-- Whenever a call has returned, a buffer with a watermark is below it, unless the last record that was stored in it
was stored while a drain of it was in flight: no record was stored in it and no drain of it was started since. -/
theorem run_drains_at_watermark (replies : List Reply) (haccepting : ∀ reply ∈ replies, reply.accepted = true)
    (events : List (Event α)) (hidle : ((ofReplies replies : Session α).run events).pending = none) (id : BufferId)
    (b : Buffer α) (hb : ((ofReplies replies : Session α).run events).service.buffer? id = some b)
    (hpositive : 0 < b.settings.watermark) :
    ((ofReplies replies : Session α).run events).service.pendingBytes id = .ok b.pending ∧
      (b.pending < b.settings.watermark ∨ Missed (ofReplies replies) events id b.current) := by
  refine ⟨by simp only [pendingBytes, configured_eq_ok.mpr hb, Except.map], ?_⟩
  have hwatched : Watched (ofReplies replies) events id :=
    watched_run (balanced_ofReplies haccepting) (regular_ofReplies replies) (fun b h => by cases h) events
  rcases hwatched b hb hpositive with hbelow | ⟨p, hp, -⟩ | hmissed
  · exact Or.inl hbelow
  · rw [hidle] at hp
    cases hp
  · exact Or.inr hmissed

/-- Two records are stored, the second one while the drain that the first one started is in flight; that drain ends. -/
def storedWhileDraining : List (Event Nat) :=
  [.begin .allocate, .advance, .begin (.configure 1 ⟨"", 0, 16, 8, .discard, 0⟩), .advance,
    .begin (.emplace 1 ⟨3, 5, ⟨"u64", 8, 8⟩, 1⟩), .advance, .advance, .advance, .enter 1,
    .begin (.emplace 1 ⟨3, 5, ⟨"u64", 8, 8⟩, 2⟩), .advance, .advance, .advance, .finish 1, .begin .allocate, .advance]

theorem storedWhileDraining_pending :
    ((ofReplies [] : Session Nat).run storedWhileDraining).pending = none :=
  Option.isNone_iff_eq_none.mp (by decide +kernel)

theorem storedWhileDraining_buffer :
    ∃ b, ((ofReplies [] : Session Nat).run storedWhileDraining).service.buffer? 1 = some b ∧
      b.settings.watermark = 8 ∧ b.isBusy = false ∧ b.pending = 8 := by
  have hfill : (((ofReplies [] : Session Nat).run storedWhileDraining).service.buffer? 1).map
      (fun b => (b.settings.watermark, b.isBusy, b.pending)) = some (8, false, 8) := by decide +kernel
  obtain ⟨b, hb, hat⟩ := Option.map_eq_some_iff.mp hfill
  simp only [Prod.mk.injEq] at hat
  exact ⟨b, hb, hat⟩

theorem missed_storedWhileDraining :
    (∀ reply ∈ ([] : List Reply), reply.accepted = true) ∧
      ((ofReplies [] : Session Nat).run storedWhileDraining).pending = none ∧
      ∃ b, ((ofReplies [] : Session Nat).run storedWhileDraining).service.buffer? 1 = some b ∧ 0 < b.settings.watermark ∧
        ((ofReplies [] : Session Nat).run storedWhileDraining).service.pendingBytes 1 = .ok b.pending ∧
        Missed (ofReplies []) storedWhileDraining 1 b.current := by
  obtain ⟨b, hb, hwatermark, -, hpending⟩ := storedWhileDraining_buffer
  have hnone : ∀ reply ∈ ([] : List Reply), reply.accepted = true := fun _ h => by cases h
  have hpositive : 0 < b.settings.watermark := by omega
  obtain ⟨hbytes, hcase⟩ := run_drains_at_watermark [] hnone storedWhileDraining
    storedWhileDraining_pending 1 b hb hpositive
  refine ⟨hnone, storedWhileDraining_pending, b, hb, hpositive, hbytes, hcase.resolve_left ?_⟩
  omega

/-- A buffer can be left at its watermark without a drain in flight. -/
theorem not_always_below_watermark :
    ¬∀ (replies : List Reply), (∀ reply ∈ replies, reply.accepted = true) → ∀ (events : List (Event Nat)) (id : BufferId)
        (b : Buffer Nat), ((ofReplies replies : Session Nat).run events).pending = none →
      ((ofReplies replies : Session Nat).run events).service.buffer? id = some b → 0 < b.settings.watermark →
      b.drain = none → b.pending < b.settings.watermark := by
  intro hclaim
  obtain ⟨b, hb, hwatermark, hbusy, hpending⟩ := storedWhileDraining_buffer
  have hbelow := hclaim [] (fun _ h => by cases h) storedWhileDraining 1 b storedWhileDraining_pending hb (by omega)
    (by simpa [Buffer.isBusy] using hbusy)
  omega

end Session

end PerfCounters
