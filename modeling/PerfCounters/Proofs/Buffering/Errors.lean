import PerfCounters.Proofs.Buffering.Calls
import PerfCounters.Proofs.Buffering.Events

/-! Calls that fail although the consumer does not. They are refused before anything was done: the buffers, the drains
    in flight and the telemetry stay as they are, also when the call comes while drains are in flight. -/

namespace PerfCounters

open Service

variable {α : Type}

/-- The consumer failed on a batch that the call waited for. -/
def BufferError.IsAborted (e : BufferError) : Prop := ∃ id, e = .flushAborted id

/-- A call, or a question about one buffer. -/
inductive Request (α : Type) where
  | call (call : Call α)
  | dropCount (id : BufferId)
  | bufferCount (id : BufferId)
  | pendingBytes (id : BufferId)
deriving DecidableEq, Repr

namespace Service

variable {s : Service α} {b : Buffer α} {id : BufferId} {e : BufferError}

/-- What the service answers to a request, and the service after it. -/
def ask (s : Service α) : Request α → Service α × Except BufferError (Answer ⊕ Nat)
  | .call call => ((s.perform call).1, (s.perform call).2.map .inl)
  | .dropCount id => (s, (s.dropCount id).map .inr)
  | .bufferCount id => (s, (s.bufferCount id).map .inr)
  | .pendingBytes id => (s, (s.pendingBytes id).map .inr)

theorem map_eq_error {β γ : Type} {f : β → γ} {x : Except BufferError β} (h : x.map f = .error e) : x = .error e := by
  cases x with
  | error e' => exact congrArg Except.error (Except.error.inj h)
  | ok a => cases h

/-! ### Calls at once -/

theorem configure_error {settings : Settings} (h : (s.configure id settings).2 = .error e) :
    (s.configure id settings).1 = s := by
  unfold configure at h ⊢
  cases hfault : settings.fault? with
  | some cause => rfl
  | none =>
    simp only [hfault] at h ⊢
    cases hlookup : s.lookup? id with
    | none => rfl
    | some entry =>
      cases entry with
      | some b => rfl
      | none =>
        simp only [hlookup] at h
        cases h

theorem kick_error (h : (s.flushBuffer b false).2 = .error e) : (s.flushBuffer b false).1 = s := by
  cases hbusy : b.isBusy with
  | true => simp only [flushBuffer, Bool.false_eq_true, if_false, hbusy, if_true]
  | false =>
    simp only [flushBuffer, Bool.false_eq_true, if_false, hbusy] at h
    cases h

theorem flush_error (hs : s.Sound) {wait : Bool} (h : (s.flush id wait).2 = .error e) :
    e.IsAborted ∨ (s.flush id wait).1 = s := by
  unfold flush at h ⊢
  cases hb : s.configured id with
  | error e' => exact Or.inr rfl
  | ok b =>
    simp only [hb] at h
    cases wait with
    | false => exact Or.inr (kick_error h)
    | true =>
      obtain ⟨_, -, -, -, -, -, -, -, ⟨hok, -⟩ | haborted⟩ := flushBuffer_waited hs (configured_eq_ok.mp hb)
      · rw [hok] at h
        cases h
      · rw [haborted] at h
        cases h
        exact Or.inl ⟨id, rfl⟩

theorem emplaceWithin_error {r : Record α} (attempts : Nat) (hs : s.Sound) (hb : s.buffer? id = some b)
    (h : (s.emplaceWithin attempts id r).2 = .error e) : e.IsAborted := by
  induction attempts generalizing s b with
  | zero =>
    cases h
    exact ⟨id, rfl⟩
  | succ attempts ih =>
    cases hpush : b.push r with
    | mk b' stored =>
      cases stored with
      | true =>
        rw [Session.emplaceWithin_stored hb hpush] at h
        cases h
      | false =>
        cases hpolicy : b.settings.policy with
        | discard =>
          rw [Session.emplaceWithin_dropped hb hpush hpolicy] at h
          cases h
        | lossless =>
          obtain ⟨b'', hrep, hsound, hid, -, -, -, -, hresult⟩ := flushBuffer_waited hs hb
          have hb'' := hrep.self
          rw [hid] at hb''
          cases hcall : s.flushBuffer b true with
          | mk s' outcome =>
            rw [hcall] at hrep hb'' hresult
            rcases hresult with ⟨rfl, -⟩ | rfl
            · rw [Session.emplaceWithin_again hb hpush hpolicy hcall] at h
              exact ih (hs.replaces hrep hsound) hb'' h
            · rw [Session.emplaceWithin_aborted hb hpush hpolicy hcall] at h
              cases h
              exact ⟨id, rfl⟩

theorem emplace_error {r : Record α} (hs : s.Sound) (h : (s.emplace id r).2 = .error e) :
    e.IsAborted ∨ (s.emplace id r).1 = s := by
  unfold emplace at h ⊢
  cases hb : s.configured id with
  | error e' => exact Or.inr rfl
  | ok b =>
    cases hcan : b.canHold r.type with
    | false => exact Or.inr (by simp only [hcan, Bool.false_eq_true, if_false])
    | true =>
      simp only [hb, hcan, if_true] at h
      exact Or.inl (emplaceWithin_error maxAttempts hs (configured_eq_ok.mp hb) h)

/-- Flushing one of all buffers leaves every buffer in its place, and it can fail by the consumer only. -/
theorem flushOne_spec (hs : s.Sound) (hb : s.buffer? id = some b) (wait : Bool) :
    (s.flushOne id wait).1.Sound ∧ (∀ j, ((s.flushOne id wait).1.buffer? j).isSome = (s.buffer? j).isSome) ∧
      ((s.flushOne id wait).2 = .ok () ∨ (s.flushOne id wait).2 = .error (.flushAborted id)) := by
  have hkeeps : ∀ {s' : Service α} {b' : Buffer α}, Replaces s s' b' → b'.id = id → ∀ j,
      (s'.buffer? j).isSome = (s.buffer? j).isSome := by
    intro s' b' hrep hid j
    rw [hrep, hid]
    split
    · rename_i heq
      rw [heq, hb]
      rfl
    · rfl
  cases wait with
  | true =>
    obtain ⟨b', hrep, hsound, hid, -, hresult⟩ := drainBoth_waited hs hb
    exact ⟨hs.replaces hrep hsound, hkeeps hrep hid, hresult⟩
  | false =>
    have hid : b.id = id := hs.named hb
    simp only [flushOne, Bool.false_eq_true, if_false, flush, configured_eq_ok.mpr hb, flushBuffer]
    cases hbusy : b.isBusy with
    | true => exact ⟨hs, fun _ => rfl, Or.inl rfl⟩
    | false =>
      have hrep : Replaces s (s.start b) b.startDrain := replaces_start (by rwa [hid])
      have hsound := Buffer.sound_startDrain (hs.sound hb) (by simpa [Buffer.isBusy] using hbusy)
      exact ⟨hs.replaces hrep hsound, hkeeps hrep hid, Or.inl rfl⟩

theorem flushEach_error (wait : Bool) (ids : List BufferId) (hs : s.Sound) (hids : ∀ id ∈ ids, (s.buffer? id).isSome)
    (h : (flushEach wait ids s).2 = .error e) : e.IsAborted := by
  induction ids generalizing s with
  | nil => cases h
  | cons id rest ih =>
    obtain ⟨b, hb⟩ := Option.isSome_iff_exists.mp (hids id List.mem_cons_self)
    obtain ⟨hsound, hkeeps, hresult⟩ := flushOne_spec hs hb wait
    unfold flushEach at h
    cases hone : s.flushOne id wait with
    | mk s' outcome =>
      rw [hone] at h hsound hkeeps hresult
      rcases hresult with rfl | rfl
      · exact ih hsound (fun j hj => by rw [hkeeps]; exact hids j (List.mem_cons_of_mem _ hj)) h
      · cases h
        exact ⟨id, rfl⟩

theorem destroy_error (hs : s.Sound) (h : (s.destroy id).2 = .error e) : e.IsAborted ∨ (s.destroy id).1 = s := by
  unfold destroy at h ⊢
  cases hlookup : s.lookup? id with
  | none => exact Or.inr rfl
  | some entry =>
    cases entry with
    | none =>
      simp only [hlookup] at h
      cases h
    | some b =>
      have hb : s.buffer? id = some b := by rw [buffer?, hlookup]; rfl
      obtain ⟨_, -, -, -, -, hresult⟩ := drainBoth_waited hs hb
      simp only [hlookup] at h
      cases hboth : s.drainBoth id with
      | mk s' outcome =>
        rw [hboth] at h hresult
        rcases hresult with rfl | rfl
        · cases h
        · cases h
          exact Or.inl ⟨id, rfl⟩

/-- A call that fails by itself leaves the service as it is. -/
theorem perform_error (hs : s.Sound) {call : Call α} (h : (s.perform call).2 = .error e) :
    e.IsAborted ∨ (s.perform call).1 = s := by
  cases call with
  | allocate => cases h
  | configure id settings => exact Or.inr (configure_error (map_eq_error h))
  | emplace id r => exact emplace_error hs (map_eq_error h)
  | flush id wait => exact flush_error hs (map_eq_error h)
  | flushAll order wait =>
    exact Or.inl (flushEach_error wait _ hs (fun id hid => (List.mem_filter.mp hid).2) (map_eq_error h))
  | destroy id => exact destroy_error hs (map_eq_error h)

theorem ask_error (hs : s.Sound) {request : Request α} (h : (s.ask request).2 = .error e) :
    e.IsAborted ∨ (s.ask request).1 = s := by
  cases request with
  | call call => exact perform_error hs (map_eq_error h)
  | dropCount | bufferCount | pendingBytes => exact Or.inr rfl

/-! ### Calls among drains -/

/-- A call that is refused is about to return, and nothing has been done. -/
theorem receive_error {call : Call α} (h : (s.receive call).2.result = .error e) :
    (s.receive call).1 = s ∧ (s.receive call).2.stage = .reach .answer := by
  cases call with
  | allocate => cases h
  | configure id settings => exact ⟨configure_error (map_eq_error h), rfl⟩
  | emplace id r =>
    simp only [receive] at h ⊢
    split
    · exact ⟨rfl, rfl⟩
    · rename_i b hb
      split
      · rename_i hcan
        rw [hb] at h
        simp only [hcan, if_true] at h
        cases h
      · exact ⟨rfl, rfl⟩
  | flush id wait =>
    cases wait with
    | true =>
      simp only [receive, if_true] at h ⊢
      split
      · exact ⟨rfl, rfl⟩
      · rename_i b hb
        rw [hb] at h
        cases h
    | false =>
      simp only [receive, Bool.false_eq_true, if_false] at h ⊢
      refine ⟨?_, trivial⟩
      unfold flush at h ⊢
      cases hb : s.configured id with
      | error e' => rfl
      | ok b =>
        rw [hb] at h
        exact kick_error (map_eq_error h)
  | flushAll order wait => cases wait <;> cases h
  | destroy id =>
    simp only [receive] at h ⊢
    split
    · exact ⟨rfl, rfl⟩
    · rename_i hb
      rw [hb] at h
      cases h
    · rename_i hb
      rw [hb] at h
      cases h

theorem Work.isSome {s' : Service α} (h : s.Work s') (hs : s.Sound) (hb : (s.buffer? id).isSome = true) :
    (s'.buffer? id).isSome = true := by
  rcases h.buffers hs id with hturned | hnew
  · rw [hturned.isSome, hb]
  · obtain ⟨settings, handles, -, hb', -⟩ := hnew.buffer
    rw [hb', Option.isSome_some]

end Service

namespace Event

/-- A drain goes on. -/
def isDrain : Event α → Bool
  | .enter _ | .finish _ => true
  | .begin _ | .advance => false

/-- The caller begins a call. -/
def isBegin : Event α → Bool
  | .begin _ => true
  | .advance | .enter _ | .finish _ => false

end Event

namespace Pending

/-- Only the consumer can make the call fail, and the buffer that it stores in is there. -/
structure Accepted (p : Pending α) (s : Service α) : Prop where
  result : ∀ {e}, p.result = .error e → e.IsAborted
  present : ∀ {id r}, p.stage.goal = .store id r → (s.buffer? id).isSome = true

variable {p : Pending α} {s : Service α}

theorem accepted_receive {call : Call α} (h : ∀ e, (s.receive call).2.result ≠ .error e) :
    (s.receive call).2.Accepted (s.receive call).1 := by
  refine ⟨fun herror => absurd herror (h _), fun {id r} hgoal => ?_⟩
  have hpursues := (receive_fresh s call).2.1
  rw [hgoal] at hpursues
  obtain rfl : call = .emplace id r := hpursues
  cases hb : s.configured id with
  | error e => exact absurd (by simp only [receive, hb]) (h e)
  | ok b =>
    have hsame : (s.receive (.emplace id r)).1 = s := by
      simp only [receive, hb]
      split <;> rfl
    rw [hsame, configured_eq_ok.mp hb, Option.isSome_some]

theorem Accepted.refused (h : p.Accepted s) (id : BufferId) : (p.refused id).Accepted s := by
  rcases p.refused_cases id with heq | ⟨rest, goal, hstage, heq⟩
  · rwa [heq]
  · rw [heq]
    refine ⟨fun {e} herror => ?_, fun {target r} hstore => ?_⟩
    · cases hresult : p.result with
      | error e' =>
        simp only [abort, hresult] at herror
        cases herror
        exact h.result hresult
      | ok answer =>
        simp only [abort, hresult] at herror
        cases herror
        exact ⟨id, rfl⟩
    · rcases p.abort_goal id rest goal with hanswer | ⟨hsame, hnot⟩
      · rw [hanswer] at hstore
        cases hstore
      · exact absurd (hsame.symm.trans hstore) (hnot target r)

theorem Accepted.work {s' : Service α} (h : p.Accepted s) (hs : s.Sound) (hwork : s.Work s') : p.Accepted s' :=
  ⟨h.result, fun hgoal => hwork.isSome hs (h.present hgoal)⟩

theorem Accepted.next (h : p.Accepted s) (hs : s.Sound) : (p.next s).2.Accepted (p.next s).1 := by
  have hadv := advance_next hs p
  generalize p.next s = next at hadv
  cases hadv with
  | work hwork _ hresult hgoal =>
    refine ⟨fun herror => h.result (hresult.symm.trans herror), fun hstore => ?_⟩
    rcases hgoal with hsame | hanswer
    · exact hwork.isSome hs (h.present (hsame.symm.trans hstore))
    · rw [hanswer] at hstore
      cases hstore
  | refused hstage hnone =>
    have hsome := h.present (by rw [hstage]; rfl)
    rw [hnone] at hsome
    cases hsome
  | forget => exact ⟨h.result, fun hstore => by cases hstore⟩
  | store | drop => exact ⟨fun herror => (by cases herror), fun hstore => (by cases hstore)⟩

end Pending

namespace Session

variable {s t : Session α} {history : List (Call α × Except BufferError Answer)} {events : List (Event α)}

/-- After this history one more call was accepted. It is under way, or it has returned. -/
inductive Accepted (history : List (Call α × Except BufferError Answer)) (s : Session α) : Prop where
  | underway {p : Pending α} (hp : s.pending = some p) (hhistory : s.history = history) (h : p.Accepted s.service)
  | returned {call : Call α} {result : Except BufferError Answer} (hp : s.pending = none)
      (hhistory : s.history = history ++ [(call, result)]) (h : ∀ {e}, result = .error e → e.IsAborted)

theorem Accepted.step (h : Accepted history s) (hregular : s.Regular) {e : Event α} (he : e.isBegin = false) :
    Accepted history (s.step e) := by
  cases e with
  | begin call => cases he
  | advance =>
    cases h with
    | returned hp hhistory h =>
      rw [show s.step .advance = s from advance_idle hp]
      exact .returned hp hhistory h
    | underway hp hhistory h =>
      rcases advance_cases hp with ⟨-, heq⟩ | heq
      · rw [show s.step .advance = _ from heq]
        exact .returned rfl (by rw [hhistory]) h.result
      · rw [show s.step .advance = _ from heq]
        exact .underway rfl hhistory (h.next hregular.sound)
  | enter id =>
    cases h with
    | returned hp hhistory h => exact .returned hp hhistory h
    | underway hp hhistory h => exact .underway hp hhistory (h.work hregular.sound (.enter id))
  | finish id =>
    cases h with
    | returned hp hhistory h =>
      rw [show s.step (.finish id) = _ from finish_idle hp id]
      exact .returned hp hhistory h
    | @underway p hp hhistory h =>
      rw [show s.step (.finish id) = _ from finish_under hp id]
      refine .underway rfl hhistory ?_
      split
      · exact h.work hregular.sound (.finish id)
      · exact (h.refused id).work hregular.sound (.finish id)

theorem Accepted.run (h : Accepted history s) (hregular : s.Regular) (hevents : ∀ e ∈ events, e.isBegin = false) :
    Accepted history (s.run events) := by
  induction events generalizing s with
  | nil => exact h
  | cons e events ih =>
    obtain ⟨he, hevents⟩ := List.forall_mem_cons.mp hevents
    exact ih (h.step hregular he) (hregular.step e) hevents

theorem Accepted.aborted (h : Accepted history s) {call : Call α} {e : BufferError}
    (hreturned : s.Returned call (.error e)) : e.IsAborted := by
  cases h with
  | underway hp =>
    rw [hreturned.1] at hp
    cases hp
  | returned hp hhistory h =>
    have hlast := hreturned.2
    rw [hhistory, List.getLast?_concat] at hlast
    exact h (Prod.mk.inj (Option.some.inj hlast)).2

/-- The call under way, if there is one, has nothing left to do. -/
def Answered (s : Session α) : Prop := ∀ p ∈ s.pending, p.stage = .reach .answer

/-- Of what happens to such a session, only drains change the service. -/
theorem Answered.step (h : s.Answered) (ht : t.pending = none) (hsame : s.service = t.service) {e : Event α}
    (he : e.isBegin = false) :
    (s.step e).Answered ∧ (t.run ([e].filter Event.isDrain)).pending = none ∧
      (s.step e).service = (t.run ([e].filter Event.isDrain)).service := by
  cases e with
  | begin call => cases he
  | advance =>
    cases hp : s.pending with
    | none =>
      rw [show s.step .advance = s from advance_idle hp]
      exact ⟨h, ht, hsame⟩
    | some p =>
      have hadvance : s.step .advance = { s with history := s.history ++ [(p.call, p.result)], pending := none } := by
        simp only [Session.step, advance, hp, h p hp]
      rw [hadvance]
      exact ⟨fun q hq => (by cases hq), ht, hsame⟩
  | enter id => exact ⟨h, ht, congrArg (Service.enter · id) hsame⟩
  | finish id =>
    have htstep : t.run ([.finish id].filter Event.isDrain) = { t with service := (t.service.finish id).1 } :=
      finish_idle ht id
    rw [htstep]
    cases hp : s.pending with
    | none =>
      rw [show s.step (.finish id) = _ from finish_idle hp id, hsame]
      exact ⟨h, ht, rfl⟩
    | some p =>
      have hrefused : p.refused id = p := by simp only [Pending.refused, h p hp]
      rw [show s.step (.finish id) = _ from finish_under hp id, hrefused, ite_self, hsame]
      exact ⟨fun q hq => (by cases hq; exact h p hp), ht, rfl⟩

theorem Answered.run (h : s.Answered) (ht : t.pending = none) (hsame : s.service = t.service)
    (hevents : ∀ e ∈ events, e.isBegin = false) :
    (s.run events).service = (t.run (events.filter Event.isDrain)).service := by
  induction events generalizing s t with
  | nil => exact hsame
  | cons e events ih =>
    obtain ⟨hanswered, ht', hservice⟩ := h.step ht hsame (hevents e List.mem_cons_self)
    have hrest := ih hanswered ht' hservice fun e he => hevents e (List.mem_cons_of_mem _ he)
    rw [run_cons, hrest, ← run_append, ← List.filter_append, List.singleton_append]

/-- A call that is refused leaves to the service what the drains do to it meanwhile. -/
theorem run_refused (hregular : s.Regular) (hidle : s.pending = none) {call : Call α} {e : BufferError}
    (hevents : ∀ event ∈ events, event.isBegin = false)
    (hreturned : (s.run (.begin call :: events)).Returned call (.error e)) (he : ¬e.IsAborted) :
    (s.run (.begin call :: events)).service = (s.run (events.filter Event.isDrain)).service := by
  have hbegin : s.step (.begin call) = s.under (s.service.receive call).1 (s.service.receive call).2 := by
    simp only [Session.step, begin, hidle, under]
  rw [run_cons, hbegin] at hreturned ⊢
  cases hresult : (s.service.receive call).2.result with
  | error e' =>
    obtain ⟨hsame, hstage⟩ := receive_error hresult
    exact Answered.run (fun p hp => (by cases hp; exact hstage)) hidle hsame hevents
  | ok answer =>
    have haccepted : Accepted s.history (s.under (s.service.receive call).1 (s.service.receive call).2) :=
      .underway rfl rfl (Pending.accepted_receive fun e' h => (by rw [hresult] at h; cases h))
    have hregular' := hregular.step (.begin call)
    rw [hbegin] at hregular'
    exact absurd ((haccepted.run hregular' hevents).aborted hreturned) he

/-- Whatever was called before, and whichever drains are in flight: a request that fails by itself leaves the service as
it is, buffers, drains and telemetry. When drains go on while the call is under way, the service is what these drains
alone would have made of it. -/
theorem run_refuses_without_trace (replies : List Reply) (before : List (Event α)) :
    let s := (ofReplies replies : Session α).run before
    (∀ request e, (s.service.ask request).2 = .error e → (∀ id, e ≠ .flushAborted id) →
        (s.service.ask request).1 = s.service) ∧
      ∀ call events e, s.pending = none → (∀ event ∈ events, event.isBegin = false) →
        (s.run (.begin call :: events)).Returned call (.error e) → (∀ id, e ≠ .flushAborted id) →
          (s.run (.begin call :: events)).service = (s.run (events.filter Event.isDrain)).service := by
  intro s
  have hregular : s.Regular := (regular_ofReplies replies).run before
  have hnot : ∀ {e : BufferError}, (∀ id, e ≠ .flushAborted id) → ¬e.IsAborted := fun h ⟨id, hid⟩ => h id hid
  exact ⟨fun request e h he => (ask_error hregular.sound h).resolve_left (hnot he),
    fun call events e hidle hevents hreturned he => run_refused hregular hidle hevents hreturned (hnot he)⟩

/-- A record is stored, and a drain for it is in flight. -/
def drainInFlight : List (Event Nat) :=
  [.begin .allocate, .advance, .begin (.configure 1 ⟨"", 0, 16, 0, .discard, 0⟩), .advance,
    .begin (.emplace 1 ⟨3, 5, ⟨"u64", 8, 8⟩, 1⟩), .advance, .advance, .advance, .begin (.flush 1 false), .advance]

theorem refuses_secondFlush :
    let s := (ofReplies [⟨false, 0⟩] : Session Nat).run drainInFlight
    let second := [.begin (.flush 1 false), .enter 1, .advance, .finish 1]
    (s.service.ask (.call (.flush 1 false))).2 = .error (.busy 1) ∧
      (s.run second).Returned (.flush 1 false) (.error (.busy 1)) ∧
      (s.service.ask (.call (.flush 1 false))).1 = s.service ∧
      (s.run second).service = (s.run [.enter 1, .finish 1]).service := by
  intro s second
  have hbusy : (s.service.ask (.call (.flush 1 false))).2 = .error (.busy 1) := by decide +kernel
  have hidle : s.pending = none := Option.isNone_iff_eq_none.mp (by decide +kernel)
  have hreturned : (s.run second).Returned (.flush 1 false) (.error (.busy 1)) :=
    ⟨Option.isNone_iff_eq_none.mp (by decide +kernel), by decide +kernel⟩
  obtain ⟨hask, hcall⟩ := run_refuses_without_trace [⟨false, 0⟩] drainInFlight
  refine ⟨hbusy, hreturned, hask _ _ hbusy fun _ h => (by cases h), ?_⟩
  exact hcall (.flush 1 false) [.enter 1, .advance, .finish 1] (.busy 1) hidle (by simp [Event.isBegin]) hreturned
    fun _ h => (by cases h)

end Session

end PerfCounters
