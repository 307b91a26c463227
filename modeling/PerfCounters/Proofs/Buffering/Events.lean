import PerfCounters.Proofs.Buffering.Steps

/-! What one event does to a session, whatever the consumer answers, and to each of its buffers. What was brought to a
    buffer and what was handed out of it tell its story: every buffer begins without one, since no number comes into
    use again. -/

namespace PerfCounters

open Service

namespace Pending

variable {α : Type} {p : Pending α}

/-- A call does what it is for, and does not answer for a record before it was stored or dropped; then it waits for no
drain. -/
structure Prompt (p : Pending α) : Prop where
  pursues : p.call.Pursues p.stage.goal
  stores : ∀ {id r}, p.stage.goal = .store id r → p.result = .ok .done
  settled : ∀ {outcome}, p.result = .ok (.emplaced outcome) → p.stage.goal = .answer ∧ p.stage.targets = []

theorem Prompt.emplaces (h : p.Prompt) {id : BufferId} {r : Record α} (hgoal : p.stage.goal = .store id r) :
    p.call = .emplace id r := by
  have hpursues := h.pursues
  rwa [hgoal] at hpursues

theorem Prompt.destroys (h : p.Prompt) {id : BufferId} (hgoal : p.stage.goal = .forget id) : p.call = .destroy id := by
  have hpursues := h.pursues
  rwa [hgoal] at hpursues

/-- A refused batch concerns the call that awaits this drain, which then fails. -/
theorem refused_cases (p : Pending α) (id : BufferId) :
    p.refused id = p ∨ ∃ rest goal, p.stage = .await id rest goal ∧ p.refused id = p.abort id rest goal := by
  unfold refused
  split
  · rename_i awaited rest goal hstage
    split
    · rename_i heq
      exact Or.inr ⟨rest, goal, by rw [hstage, heq], rfl⟩
    · exact Or.inl rfl
  · exact Or.inl rfl

theorem abort_result (p : Pending α) (id : BufferId) (rest : List BufferId) (goal : Goal α) :
    ∃ e, (p.abort id rest goal).result = .error e := by
  unfold abort
  cases p.result with
  | error e => exact ⟨e, rfl⟩
  | ok answer => exact ⟨_, rfl⟩

theorem abort_goal (p : Pending α) (id : BufferId) (rest : List BufferId) (goal : Goal α) :
    (p.abort id rest goal).stage.goal = .answer ∨
      (p.abort id rest goal).stage.goal = goal ∧ ∀ target r, goal ≠ .store target r := by
  simp only [abort, Stage.goal_drainEach]
  cases goal with
  | answer | store => exact Or.inl rfl
  | forget id => exact Or.inr ⟨rfl, fun _ _ h => by cases h⟩

@[simp] theorem refused_call (p : Pending α) (id : BufferId) : (p.refused id).call = p.call := by
  rcases p.refused_cases id with heq | ⟨rest, goal, -, heq⟩
  · rw [heq]
  · rw [heq]
    rfl

theorem Prompt.refused (h : p.Prompt) (id : BufferId) : (p.refused id).Prompt := by
  rcases p.refused_cases id with heq | ⟨rest, goal, hstage, heq⟩
  · rwa [heq]
  · obtain ⟨e, herror⟩ := p.abort_result id rest goal
    have hpursues := h.pursues
    rw [hstage] at hpursues
    rw [heq]
    refine ⟨?_, fun {target r} hstore => ?_, fun hresult => ?_⟩
    · rcases p.abort_goal id rest goal with hanswer | ⟨hsame, -⟩
      · rw [hanswer]
        trivial
      · rw [hsame]
        exact hpursues
    · rcases p.abort_goal id rest goal with hanswer | ⟨hsame, hnot⟩
      · rw [hanswer] at hstore
        cases hstore
      · exact absurd (hsame.symm.trans hstore) (hnot target r)
    · rw [herror] at hresult
      cases hresult

theorem prompt_receive (s : Service α) (call : Call α) : (s.receive call).2.Prompt := by
  obtain ⟨hcall, hpursues, hdone, hnot⟩ := receive_fresh s call
  refine ⟨by rwa [hcall], fun hgoal => hdone fun h => ?_, fun hresult => absurd hresult (hnot _)⟩
  rw [hgoal] at h
  cases h

theorem Prompt.next (h : p.Prompt) {s : Service α} (hs : s.Sound) : (p.next s).2.Prompt := by
  have hadv := advance_next hs p
  generalize p.next s = next at hadv
  cases hadv with
  | work _ hcall hresult hgoal hstill =>
    refine ⟨?_, fun hstore => ?_, fun hout => ?_⟩
    · rw [hcall]
      rcases hgoal with hsame | hanswer
      · rw [hsame]
        exact h.pursues
      · rw [hanswer]
        trivial
    · rw [hresult]
      rcases hgoal with hsame | hanswer
      · exact h.stores (hsame.symm.trans hstore)
      · rw [hanswer] at hstore
        cases hstore
    · obtain ⟨hanswer, htargets⟩ := h.settled (hresult.symm.trans hout)
      exact ⟨hgoal.elim (fun hsame => hsame.trans hanswer) fun h => h, hstill hanswer htargets⟩
  | refused | store | drop | forget => exact ⟨trivial, fun hstore => (by cases hstore), fun _ => ⟨rfl, rfl⟩⟩

end Pending

namespace Session

variable {α : Type} {s s' : Session α} {p p' : Pending α} {id : BufferId}

/-! ### What became of the records -/

/-- The record that a call brought to a buffer, and what became of it. -/
def emplacedBy? (id : BufferId) : Call α × Except BufferError Answer → Option (Record α × Outcome)
  | (.emplace target r, .ok (.emplaced outcome)) => if target = id then some (r, outcome) else none
  | _ => none

/-- The records that were brought to a buffer and what became of them, oldest first. -/
def emplaced (s : Session α) (id : BufferId) : List (Record α × Outcome) := s.outcomes.filterMap (emplacedBy? id)

/-- The record, if it was stored. -/
def kept? : Record α × Outcome → Option (Record α)
  | (r, .stored) => some r
  | (_, .dropped) => none

theorem stored_eq_kept (s : Session α) (id : BufferId) : s.stored id = (s.emplaced id).filterMap kept? := by
  unfold stored emplaced
  rw [List.filterMap_filterMap]
  congr 1
  funext x
  unfold storedBy? emplacedBy?
  split
  · rename_i target r
    by_cases hid : target = id <;> simp [hid, kept?]
  · rename_i hother
    split
    · rename_i target r outcome
      cases outcome with
      | stored => exact absurd rfl (hother target r)
      | dropped => split <;> rfl
    · rfl

theorem emplaced_eq (s : Session α) (id : BufferId) :
    s.emplaced id = s.history.filterMap (emplacedBy? id) ++
      (s.pending.bind fun p => emplacedBy? id (p.call, p.result)).toList := by
  unfold emplaced outcomes
  rw [List.filterMap_append]
  cases s.pending with
  | none => rfl
  | some p => cases h : emplacedBy? id (p.call, p.result) <;> simp [h]

theorem emplacedBy?_eq_none {call : Call α} {result : Except BufferError Answer}
    (h : ∀ outcome, result ≠ .ok (.emplaced outcome)) : emplacedBy? id (call, result) = none := by
  unfold emplacedBy?
  split
  · rename_i heq
    cases heq
    exact absurd rfl (h _)
  · rfl

/-! ### Events -/

/-- What every run keeps. -/
structure Regular (s : Session α) : Prop where
  sound : s.service.Sound
  numbered : s.service.Numbered
  prompt : ∀ p ∈ s.pending, p.Prompt

/-- What an event does: work on the service, or a buffer is forgotten, or a record is stored or dropped. -/
inductive Happens (s s' : Session α) : Prop where
  | work (h : s.service.Work s'.service) (hsame : ∀ id, s'.emplaced id = s.emplaced id)
  | forget {gone : BufferId} (telemetry : Telemetry Nat)
      (hstage : ∃ p, s.pending = some p ∧ p.stage = .reach (.forget gone))
      (hservice : s'.service = { s.service with telemetry }.unregister gone) (hsame : ∀ id, s'.emplaced id = s.emplaced id)
  | store {id : BufferId} {r : Record α} {b : Buffer α} (hb : s.service.buffer? id = some b) (hpush : (b.push r).2 = true)
      (hservice : s'.service = s.service.countStored (b.push r).1)
      (hlook : ∃ p, s'.pending = some p ∧ p.stage = .watermark id)
      (hmore : ∀ j, s'.emplaced j = s.emplaced j ++ if j = id then [(r, .stored)] else [])
  | drop {id : BufferId} {r : Record α} {b : Buffer α} (hb : s.service.buffer? id = some b)
      (hpush : (b.push r).2 = false) (hpolicy : b.settings.policy = .discard)
      (hservice : s'.service = s.service.afterDrop b)
      (hmore : ∀ j, s'.emplaced j = s.emplaced j ++ if j = id then [(r, .dropped)] else [])

theorem emplaced_congr {service : Service α} (hp : s.pending = some p) (hcall : p'.call = p.call)
    (hresult : p'.result = p.result) (id : BufferId) :
    ({ s with service, pending := some p' } : Session α).emplaced id = s.emplaced id := by
  rw [emplaced_eq, emplaced_eq, hp]
  simp only [Option.bind_some, hcall, hresult]

/-- A call that has not answered for its record, and does not now. -/
theorem emplaced_unanswered {service : Service α} (hp : ∀ q ∈ s.pending, ∀ outcome, q.result ≠ .ok (.emplaced outcome))
    (hresult : ∀ outcome, p'.result ≠ .ok (.emplaced outcome)) (id : BufferId) :
    ({ s with service, pending := some p' } : Session α).emplaced id = s.emplaced id := by
  rw [emplaced_eq, emplaced_eq]
  simp only [Option.bind_some, emplacedBy?_eq_none hresult]
  cases hq : s.pending with
  | none => rfl
  | some q => simp [emplacedBy?_eq_none (hp q hq)]

/-- The answer for the record of a call is added to what became of the records. -/
theorem emplaced_answer {service : Service α} {r : Record α} {outcome : Outcome} {stage : Stage α}
    (hp : s.pending = some p) (hcall : p.call = .emplace id r) (hresult : p.result = .ok .done) (j : BufferId) :
    ({ s with service, pending := some { p with stage, result := .ok (.emplaced outcome) } } : Session α).emplaced j =
      s.emplaced j ++ if j = id then [(r, outcome)] else [] := by
  rw [emplaced_eq, emplaced_eq, hp]
  simp only [Option.bind_some, hcall, hresult, emplacedBy?]
  by_cases hj : j = id
  · simp [hj]
  · have hne : id ≠ j := fun h => hj h.symm
    simp [hj, hne]

/-- A call that returns has answered before. -/
theorem emplaced_returned (hp : s.pending = some p) (id : BufferId) :
    ({ s with history := s.history ++ [(p.call, p.result)], pending := none } : Session α).emplaced id = s.emplaced id := by
  rw [emplaced_eq, emplaced_eq, hp]
  simp only [List.filterMap_append, Option.bind_none, Option.bind_some, Option.toList_none, List.append_nil]
  cases hby : emplacedBy? id (p.call, p.result) <;> simp [hby]

theorem advance_idle (hp : s.pending = none) : s.advance = s := by simp only [Session.advance, hp]

/-- The call under way returns, or takes its next step. -/
theorem advance_cases (hp : s.pending = some p) :
    (p.stage = .reach .answer ∧ s.advance = { s with history := s.history ++ [(p.call, p.result)], pending := none }) ∨
      s.advance = { s with service := (p.next s.service).1, pending := some (p.next s.service).2 } := by
  unfold Session.advance
  simp only [hp]
  split
  · rename_i hstage
    exact Or.inl ⟨hstage, rfl⟩
  · exact Or.inr rfl

theorem finish_idle (hp : s.pending = none) (id : BufferId) :
    s.finish id = { s with service := (s.service.finish id).1 } := by
  unfold Session.finish
  rw [hp]
  simp

theorem finish_under (hp : s.pending = some p) (id : BufferId) :
    s.finish id = { s with
      service := (s.service.finish id).1
      pending := some (if (s.service.finish id).2 then p else p.refused id) } := by
  unfold Session.finish
  simp only [hp, Option.map_some]
  congr 1
  split <;> rfl

theorem emplaced_begin (s : Session α) (call : Call α) (id : BufferId) : (s.begin call).emplaced id = s.emplaced id := by
  unfold Session.begin
  cases hp : s.pending with
  | some p => rfl
  | none => exact emplaced_unanswered (by simp [hp]) (receive_fresh s.service call).2.2.2 id

theorem happens_begin (h : s.Regular) (call : Call α) : Happens s (s.begin call) := by
  refine .work ?_ (emplaced_begin s call)
  unfold Session.begin
  cases s.pending with
  | some p => exact .rest
  | none => exact work_receive h.sound call

theorem happens_advance (h : s.Regular) : Happens s s.advance := by
  cases hp : s.pending with
  | none =>
    rw [advance_idle hp]
    exact .work .rest fun _ => rfl
  | some p =>
    rcases advance_cases hp with ⟨-, heq⟩ | heq
    · rw [heq]
      exact .work .rest (emplaced_returned hp)
    · rw [heq]
      have hadv := advance_next h.sound p
      generalize p.next s.service = next at hadv
      cases hadv with
      | work hwork hcall hresult => exact .work hwork (emplaced_congr hp hcall hresult)
      | forget telemetry hstage => exact .forget telemetry ⟨p, hp, hstage⟩ rfl (emplaced_congr hp rfl rfl)
      | refused hstage hnone =>
        have hresult := (h.prompt p hp).stores (by rw [hstage]; rfl)
        refine .work .rest (emplaced_unanswered (fun q hq => ?_) fun _ h => (by cases h))
        rw [hp] at hq
        cases hq
        rw [hresult]
        exact fun _ h => by cases h
      | store hstage hb hpush =>
        have hcall := (h.prompt p hp).emplaces (by rw [hstage]; rfl)
        have hresult := (h.prompt p hp).stores (by rw [hstage]; rfl)
        exact .store hb hpush rfl ⟨_, rfl, rfl⟩ (emplaced_answer hp hcall hresult)
      | drop hstage hb hpush hpolicy =>
        have hcall := (h.prompt p hp).emplaces (by rw [hstage]; rfl)
        have hresult := (h.prompt p hp).stores (by rw [hstage]; rfl)
        exact .drop hb hpush hpolicy rfl (emplaced_answer hp hcall hresult)

/-- The end of a drain decides about no record: a call that awaits it has none, or has not answered for it. -/
theorem emplaced_finish (h : s.Regular) (target id : BufferId) : (s.finish target).emplaced id = s.emplaced id := by
  cases hp : s.pending with
  | none =>
    rw [finish_idle hp]
    rfl
  | some p =>
    rw [finish_under hp]
    have hsame : ∀ {service}, ({ s with service, pending := some p } : Session α).emplaced id = s.emplaced id :=
      emplaced_congr hp rfl rfl id
    cases (s.service.finish target).2 with
    | true => exact hsame
    | false =>
      rcases p.refused_cases target with heq | ⟨rest, goal, hstage, heq⟩
      · rw [heq]
        exact hsame
      · obtain ⟨e, herror⟩ := p.abort_result target rest goal
        rw [heq]
        refine emplaced_unanswered (fun q hq outcome hresult => ?_) (fun outcome hresult => ?_) id
        · rw [hp] at hq
          cases hq
          have htargets := ((h.prompt p hp).settled hresult).2
          rw [hstage] at htargets
          cases htargets
        · simp only [Bool.false_eq_true, if_false, herror] at hresult
          cases hresult

theorem happens_finish (h : s.Regular) (id : BufferId) : Happens s (s.finish id) :=
  .work (.finish id) (emplaced_finish h id)

theorem Regular.happens (h : s.Regular) (e : Event α) : Happens s (s.step e) := by
  cases e with
  | begin call => exact happens_begin h call
  | advance => exact happens_advance h
  | enter id => exact .work (.enter id) fun _ => rfl
  | finish id => exact happens_finish h id

/-! ### Runs -/

/-- What an event does to one buffer, to what was handed out of it and to what was brought to it. -/
inductive Changes (s s' : Session α) (id : BufferId) : Prop where
  | turned (h : Turned s.service s'.service id) (hsame : s'.emplaced id = s.emplaced id)
  | configured (h : Configured s.service s'.service id) (hsame : s'.emplaced id = s.emplaced id)
  | forgotten (hstage : ∃ p, s.pending = some p ∧ p.stage = .reach (.forget id))
      (hgone : s'.service.buffer? id = none) (hunlisted : id ∉ s'.service.ids)
      (hsame : s'.emplaced id = s.emplaced id) (hlog : s'.service.handed id = s.service.handed id)
  | stored {r : Record α} {b : Buffer α} (hb : s.service.buffer? id = some b) (hpush : (b.push r).2 = true)
      (hb' : s'.service.buffer? id = some (b.push r).1) (hlook : ∃ p, s'.pending = some p ∧ p.stage = .watermark id)
      (hmore : s'.emplaced id = s.emplaced id ++ [(r, .stored)]) (hlog : s'.service.handed id = s.service.handed id)
  | dropped {r : Record α} {b : Buffer α} (hb : s.service.buffer? id = some b) (hpush : (b.push r).2 = false)
      (hpolicy : b.settings.policy = .discard) (hb' : s'.service.buffer? id = some { b with drops := b.drops + 1 })
      (hmore : s'.emplaced id = s.emplaced id ++ [(r, .dropped)]) (hlog : s'.service.handed id = s.service.handed id)

theorem Happens.changes (h : Happens s s') (hs : s.service.Sound) (id : BufferId) : Changes s s' id := by
  cases h with
  | work hwork hsame =>
    rcases hwork.buffers hs id with hturned | hnew
    · exact .turned hturned (hsame id)
    · exact .configured hnew (hsame id)
  | @forget gone telemetry hstage hservice hsame =>
    have hlog : s'.service.handed id = s.service.handed id := handed_congr (by rw [hservice]; rfl) id
    have hbuffer : s'.service.buffer? id = if id = gone then none else s.service.buffer? id := by
      rw [hservice, buffer?_unregister]
      rfl
    by_cases hid : id = gone
    · refine .forgotten (by rwa [hid]) (by rw [hbuffer, if_pos hid]) ?_ (hsame id) hlog
      rw [hservice, hid]
      simp [ids, unregister]
    · exact .turned (.of_eq (by rw [hbuffer, if_neg hid]) hlog) (hsame id)
  | @store target r b hb hpush hservice hlook hmore =>
    have hrep := replaces_countStored hs hb r
    have hname : (b.push r).1.id = target := (Buffer.push_id (hs.sound hb) r).trans (hs.named hb)
    rw [← hservice] at hrep
    have hlog : s'.service.handed id = s.service.handed id := handed_congr (by rw [hservice]; rfl) id
    by_cases hid : id = target
    · subst hid
      have hself := hrep.self
      rw [hname] at hself
      exact .stored hb hpush hself hlook (by rw [hmore, if_pos rfl]) hlog
    · exact .turned (.of_eq (hrep.other (by rwa [hname])) hlog) (by rw [hmore, if_neg hid, List.append_nil])
  | @drop target r b hb hpush hpolicy hservice hmore =>
    have hrep := replaces_afterDrop hs hb
    obtain rfl : b.id = target := hs.named hb
    rw [← hservice] at hrep
    have hlog : s'.service.handed id = s.service.handed id := handed_congr (by rw [hservice]; rfl) id
    by_cases hid : id = b.id
    · subst hid
      exact .dropped hb hpush hpolicy hrep.self (by rw [hmore, if_pos rfl]) hlog
    · exact .turned (.of_eq (hrep.other hid) hlog) (by rw [hmore, if_neg hid, List.append_nil])

theorem Changes.sound (h : ∀ id, Changes s s' id) (hs : s.service.Sound) : s'.service.Sound := by
  have hboth : ∀ {id b'}, s'.service.buffer? id = some b' → b'.id = id ∧ b'.Sound := by
    intro id b' hb'
    cases h id with
    | turned hturned =>
      cases hturned with
      | absent _ hnone => rw [hnone] at hb'; cases hb'
      | buffer hb hb'' hturns =>
        rw [hb''] at hb'
        cases hb'
        exact ⟨(hturns.id (hs.sound hb)).trans (hs.named hb), hturns.sound (hs.sound hb)⟩
    | configured hnew =>
      obtain ⟨settings, handles, -, hb'', -⟩ := hnew.buffer
      rw [hb''] at hb'
      cases hb'
      exact ⟨rfl, Buffer.sound_ofSettings _ _ _⟩
    | forgotten _ hgone => rw [hgone] at hb'; cases hb'
    | stored hb _ hb'' =>
      rw [hb''] at hb'
      cases hb'
      exact ⟨(Buffer.push_id (hs.sound hb) _).trans (hs.named hb), Buffer.sound_push (hs.sound hb) _⟩
    | dropped hb _ _ hb'' =>
      have hsound := hs.sound hb
      have hname := hs.named hb
      rw [hb''] at hb'
      cases hb'
      exact ⟨hname, hsound.current, hsound.retired, hsound.capacity, hsound.gate, hsound.draining⟩
  exact ⟨fun hb => (hboth hb).1, fun hb => (hboth hb).2⟩

theorem regular_ofReplies (replies : List Reply) : (ofReplies replies : Session α).Regular :=
  ⟨⟨fun h => (by cases h), fun h => (by cases h)⟩, numbered_ofReplies replies, fun _ h => (by cases h)⟩

theorem Regular.prompt_step (h : s.Regular) (e : Event α) : ∀ p ∈ (s.step e).pending, p.Prompt := by
  cases e with
  | begin call =>
    simp only [Session.step, Session.begin]
    split
    · exact h.prompt
    · intro p hp
      cases hp
      exact Pending.prompt_receive s.service call
  | advance =>
    simp only [Session.step]
    cases hp : s.pending with
    | none =>
      rw [advance_idle hp]
      exact h.prompt
    | some p =>
      rcases advance_cases hp with ⟨-, heq⟩ | heq
      · rw [heq]
        exact fun _ hp => by cases hp
      · rw [heq]
        intro p' hp'
        cases hp'
        exact (h.prompt p hp).next h.sound
  | enter id => exact h.prompt
  | finish id =>
    simp only [Session.step]
    cases hp : s.pending with
    | none =>
      rw [finish_idle hp]
      exact h.prompt
    | some p =>
      rw [finish_under hp]
      intro p' hp'
      cases hp'
      split
      · exact h.prompt p hp
      · exact (h.prompt p hp).refused id

theorem Regular.step (h : s.Regular) (e : Event α) : (s.step e).Regular :=
  ⟨Changes.sound ((h.happens e).changes h.sound) h.sound, numbered_step h.numbered e, h.prompt_step e⟩

theorem Regular.run (h : s.Regular) (events : List (Event α)) : (s.run events).Regular := run_keeps Regular.step h events

/-- What an event keeps of a session holds after every run. -/
theorem Regular.run_keeps {P : Session α → Prop} (hregular : s.Regular)
    (hstep : ∀ {s : Session α}, P s → s.Regular → ∀ e, P (s.step e)) (h : P s) (events : List (Event α)) :
    P (s.run events) :=
  (Session.run_keeps (P := fun s => s.Regular ∧ P s) (fun h e => ⟨h.1.step e, hstep h.2 h.1 e⟩) ⟨hregular, h⟩ events).2

/-- Nothing was brought to a number, or handed out under it, that has no buffer but can still get one. -/
def Untouched (s : Session α) : Prop :=
  ∀ id, s.service.buffer? id = none → id ∈ s.service.ids ∨ s.service.nextId ≤ id →
    s.emplaced id = [] ∧ s.service.handed id = []

/-- No number comes into use again. -/
theorem Happens.numbers (h : Happens s s') {id : BufferId}
    (hid : id ∈ s'.service.ids ∨ s'.service.nextId ≤ id) : id ∈ s.service.ids ∨ s.service.nextId ≤ id := by
  have hsame : SameNumbers s.service s'.service → id ∈ s.service.ids ∨ s.service.nextId ≤ id := fun h => by
    rwa [h.1, h.2] at hid
  cases h with
  | work hwork =>
    rcases hwork.numbers with hnumbers | heq
    · exact hsame hnumbers
    · rw [heq] at hid
      rcases hid with hid | hid
      · simp only [ids, Service.allocate, List.map_append, List.map_cons, List.map_nil, List.mem_append,
          List.mem_singleton] at hid
        exact hid.imp (fun h => h) fun h => Nat.le_of_eq h.symm
      · exact Or.inr (Nat.le_of_succ_le hid)
  | forget telemetry _ hservice =>
    rw [hservice] at hid
    exact hid.imp_left fun h => (List.filter_sublist.map Prod.fst).subset h
  | store hb hpush hservice => exact hsame (by rw [hservice]; exact ⟨ids_setBuffer _ _, rfl⟩)
  | drop hb hpush hpolicy hservice => exact hsame (by rw [hservice]; exact ⟨ids_setBuffer _ _, rfl⟩)

theorem Happens.nextId_le (h : Happens s s') : s.service.nextId ≤ s'.service.nextId := by
  cases h with
  | work hwork =>
    rcases hwork.numbers with hsame | heq
    · exact Nat.le_of_eq hsame.2.symm
    · rw [heq]
      exact Nat.le_succ _
  | forget telemetry _ hservice => rw [hservice]; exact Nat.le_refl _
  | store hb hpush hservice => rw [hservice]; exact Nat.le_refl _
  | drop hb hpush hpolicy hservice => rw [hservice]; exact Nat.le_refl _

/-- The number was given out, and is not in use any more. -/
def Gone (s : Session α) (id : BufferId) : Prop :=
  s.service.buffer? id = none ∧ id ∉ s.service.ids ∧ id < s.service.nextId

theorem Gone.step (h : s.Gone id) (hregular : s.Regular) (e : Event α) : (s.step e).Gone id := by
  have hhappens := hregular.happens e
  obtain ⟨-, hunlisted, hbelow⟩ := h
  have hstill : id ∉ (s.step e).service.ids := fun hid => by
    rcases hhappens.numbers (Or.inl hid) with hold | hle
    · exact hunlisted hold
    · exact absurd hbelow (Nat.not_lt.mpr hle)
  refine ⟨?_, hstill, Nat.lt_of_lt_of_le hbelow hhappens.nextId_le⟩
  cases hb : (s.step e).service.buffer? id with
  | none => rfl
  | some b => exact absurd (mem_ids hb) hstill

theorem Gone.run (h : s.Gone id) (hregular : s.Regular) (events : List (Event α)) : (s.run events).Gone id :=
  hregular.run_keeps Gone.step h events

/-- A buffer that is not there any more will never be again. -/
theorem gone_of_buffer? (hregular : s.Regular) {b : Buffer α} (hb : s.service.buffer? id = some b) {e : Event α}
    (hnone : (s.step e).service.buffer? id = none) : (s.step e).Gone id := by
  have hhappens := hregular.happens e
  have hbelow := Nat.lt_of_lt_of_le (hregular.numbered.below id (mem_ids hb)) hhappens.nextId_le
  cases hhappens.changes hregular.sound id with
  | forgotten _ _ hunlisted => exact ⟨hnone, hunlisted, hbelow⟩
  | turned hturned =>
    have hsome := hturned.isSome
    rw [hb, hnone] at hsome
    cases hsome
  | configured hnew =>
    obtain ⟨settings, handles, -, hb', -⟩ := hnew.buffer
    rw [hnone] at hb'
    cases hb'
  | stored _ _ hb' => rw [hnone] at hb'; cases hb'
  | dropped _ _ _ hb' => rw [hnone] at hb'; cases hb'

/-- The buffer under a number is of this kind, or there will never be one again. -/
def Stays (s : Session α) (id : BufferId) (P : Buffer α → Prop) : Prop :=
  (∃ b, s.service.buffer? id = some b ∧ P b) ∨ s.Gone id

section
variable {P : Buffer α → Prop}

theorem Stays.step (h : s.Stays id P) (hP : Buffer.Lasting P) (hregular : s.Regular) (e : Event α) :
    (s.step e).Stays id P := by
  rcases h with ⟨b, hb, hkind⟩ | hgone
  · have hsound := hregular.sound.sound hb
    cases (hregular.happens e).changes hregular.sound id with
    | turned hturned =>
      cases hturned with
      | absent hnone => rw [hnone] at hb; cases hb
      | buffer hb' hb'' hturns =>
        obtain rfl := Option.some.inj (hb.symm.trans hb')
        exact Or.inl ⟨_, hb'', hP.turns hkind hsound hturns⟩
    | configured hnew =>
      rw [buffer?, hnew.unset] at hb
      cases hb
    | forgotten _ hnone => exact Or.inr (gone_of_buffer? hregular hb hnone)
    | stored hb' _ hb'' =>
      obtain rfl := Option.some.inj (hb.symm.trans hb')
      exact Or.inl ⟨_, hb'', hP.push hkind hsound _⟩
    | dropped hb' _ _ hb'' =>
      obtain rfl := Option.some.inj (hb.symm.trans hb')
      exact Or.inl ⟨_, hb'', hP.drop hkind⟩
  · exact Or.inr (hgone.step hregular e)

theorem Stays.run (h : s.Stays id P) (hP : Buffer.Lasting P) (hregular : s.Regular) (events : List (Event α)) :
    (s.run events).Stays id P :=
  hregular.run_keeps (fun h => Stays.step h hP) h events

theorem Stays.holds (h : s.Stays id P) {b : Buffer α} (hb : s.service.buffer? id = some b) : P b := by
  rcases h with ⟨c, hc, hkind⟩ | ⟨hnone, -⟩
  · obtain rfl := Option.some.inj (hb.symm.trans hc)
    exact hkind
  · rw [hnone] at hb
    cases hb

end

theorem Untouched.step (h : s.Untouched) (hregular : s.Regular) (e : Event α) : (s.step e).Untouched := by
  have hhappens := hregular.happens e
  intro id hnone hid
  have hold := hhappens.numbers hid
  cases hhappens.changes hregular.sound id with
  | turned hturned hsame =>
    cases hturned with
    | absent hb _ hlog =>
      rw [hsame, hlog]
      exact h id hb hold
    | buffer _ hb' => rw [hb'] at hnone; cases hnone
  | configured hnew =>
    obtain ⟨settings, handles, -, hb', -⟩ := hnew.buffer
    rw [hb'] at hnone
    cases hnone
  | forgotten _ _ hunlisted hsame hlog =>
    rw [hsame, hlog]
    cases hb : s.service.buffer? id with
    | none => exact h id hb hold
    | some b =>
      -- A number that was given out is neither listed any more nor still to come.
      rcases hid with hid | hid
      · exact absurd hid hunlisted
      · exact absurd (hregular.numbered.below id (mem_ids hb)) (Nat.not_lt.mpr (Nat.le_trans hhappens.nextId_le hid))
  | stored _ _ hb' => rw [hb'] at hnone; cases hnone
  | dropped _ _ _ hb' => rw [hb'] at hnone; cases hnone

theorem Untouched.run (h : s.Untouched) (hregular : s.Regular) (events : List (Event α)) : (s.run events).Untouched :=
  hregular.run_keeps Untouched.step h events

theorem untouched_ofReplies (replies : List Reply) : (ofReplies replies : Session α).Untouched := fun _ _ _ => ⟨rfl, rfl⟩

theorem Untouched.configured (h : s.Untouched) (hnew : Configured s.service s'.service id) :
    s.emplaced id = [] ∧ s.service.handed id = [] :=
  h id (by rw [buffer?, hnew.unset]; rfl) (Or.inl (mem_ids_of_lookup? hnew.unset))

end Session

end PerfCounters
