import PerfCounters.Proofs.Buffering.Conservation
import PerfCounters.Proofs.Buffering.Numbers

/-! The calls of the service are runs of a session: what a call answers and leaves is what its caller
    gets when the drains that the call waits for go on at once and no other drain does. So what holds
    along every run holds of the calls. -/

namespace PerfCounters

variable {α : Type}

/-- What the service answers to a call, and the service after it. -/
def Service.perform (s : Service α) : Call α → Service α × Except BufferError Answer
  | .allocate => (s.allocate.1, .ok (.allocated s.allocate.2))
  | .configure id settings => ((s.configure id settings).1, (s.configure id settings).2.map fun () => .done)
  | .emplace id r => ((s.emplace id r).1, (s.emplace id r).2.map .emplaced)
  | .flush id wait => ((s.flush id wait).1, (s.flush id wait).2.map fun () => .done)
  | .flushAll _ wait => ((s.flushAll wait).1, (s.flushAll wait).2.map fun () => .done)
  | .destroy id => ((s.destroy id).1, (s.destroy id).2.map fun () => .done)

open Service

namespace Session

/-- Some run leads from one session to the other. -/
def Reaches (s t : Session α) : Prop := ∃ events, s.run events = t

theorem Reaches.refl (s : Session α) : s.Reaches s := ⟨[], rfl⟩

theorem Reaches.trans {s t u : Session α} (h : s.Reaches t) (h' : t.Reaches u) : s.Reaches u := by
  obtain ⟨first, rfl⟩ := h
  obtain ⟨second, rfl⟩ := h'
  exact ⟨first ++ second, run_append s first second⟩

theorem Reaches.of_step (s : Session α) (e : Event α) : s.Reaches (s.step e) := ⟨[e], rfl⟩

/-- The session in which a call is under way. -/
def under (s : Session α) (service : Service α) (p : Pending α) : Session α :=
  { s with service, pending := some p }

/-- The session after a call has returned. -/
def after (s : Session α) (service : Service α) (call : Call α) (result : Except BufferError Answer) : Session α :=
  { service, history := s.history ++ [(call, result)] }

variable {s : Session α} {service : Service α} {p : Pending α} {id : BufferId} {b : Buffer α}
  {rest : List BufferId} {goal : Goal α}

theorem reaches_next (s : Session α) (service : Service α) (h : p.stage ≠ .reach .answer) :
    (s.under service p).Reaches (s.under (p.next service).1 (p.next service).2) := by
  have hstep : (s.under service p).step .advance = s.under (p.next service).1 (p.next service).2 := by
    simp only [step, advance, under]
  rw [← hstep]
  exact Reaches.of_step _ _

theorem reaches_answer (s : Session α) (service : Service α) (h : p.stage = .reach .answer) :
    (s.under service p).Reaches (s.after service p.call p.result) := by
  have hstep : (s.under service p).step .advance = s.after service p.call p.result := by
    simp [step, advance, under, after, h]
  rw [← hstep]
  exact Reaches.of_step _ _

theorem reaches_finish (s : Session α) (service : Service α) (p : Pending α) (id : BufferId) :
    (s.under service p).Reaches
      (s.under (service.finish id).1 (if (service.finish id).2 then p else p.refused id)) := by
  have hstep : (s.under service p).step (.finish id) =
      s.under (service.finish id).1 (if (service.finish id).2 then p else p.refused id) := by
    by_cases hdelivered : (service.finish id).2 = true
    · simp [step, Session.finish, under, hdelivered]
    · simp [step, Session.finish, under, hdelivered]
  rw [← hstep]
  exact Reaches.of_step _ _

/-! ### Waiting for a drain -/

/-- How a call goes on when it has waited for a drain. -/
def goOn (p : Pending α) (id : BufferId) (rest : List BufferId) (goal : Goal α) : Except BufferError Unit → Pending α
  | .ok () => p.goto (.drainEach rest goal)
  | .error _ => p.abort id rest goal

theorem reaches_flushBuffer (hs : service.Sound) (hb : service.buffer? id = some b)
    (hstage : p.stage = .retire id rest goal) :
    (s.under service p).Reaches
      (s.under (service.flushBuffer b true).1 (goOn p id rest goal (service.flushBuffer b true).2)) := by
  obtain ⟨b₁, hrep₁, hsound₁, hkeeps₁, hnone₁, -⟩ := idled_spec hs hb
  have hid : b.id = id := hs.named hb
  have hid₁ : b₁.id = id := hkeeps₁.id.trans hid
  have hb₁ := hrep₁.self
  rw [hid₁] at hb₁
  have hnotReach : p.stage ≠ .reach .answer := by
    rw [hstage]
    exact fun h => by cases h
  -- The drain in flight ends; whether its batch is taken does not concern this call.
  have hfirst : (s.under service p).Reaches (s.under (service.idled b) p) := by
    unfold idled
    cases b.isBusy with
    | true =>
      have hrefused : p.refused b.id = p := by simp [Pending.refused, hstage]
      have hfinish := reaches_finish s service p b.id
      rw [hrefused, ite_self] at hfinish
      exact hfinish
    | false => exact Reaches.refl _
  have hsecond : (s.under (service.idled b) p).Reaches
      (s.under ((service.idled b).start b₁) (p.goto (.await id rest goal))) := by
    have hnext : p.next (service.idled b) = ((service.idled b).start b₁, p.goto (.await id rest goal)) := by
      simp [Pending.next, hstage, hb₁, Buffer.isBusy, hnone₁]
    have hadvance := reaches_next s (service.idled b) hnotReach
    rwa [hnext] at hadvance
  have hthird := reaches_finish s ((service.idled b).start b₁) (p.goto (.await id rest goal)) id
  refine (hfirst.trans hsecond).trans (hthird.trans ?_)
  obtain ⟨b₃, hrep₃, -, hid₃, -, -, hnone₃, -, -⟩ := flushBuffer_waited hs hb
  have hb₃ := hrep₃.self
  rw [flushBuffer_eq hid hid₁ hb₁] at hb₃ ⊢
  rw [hid₃] at hb₃
  cases (((service.idled b).start b₁).finish id).2 with
  | true =>
    have hnext : (p.goto (.await id rest goal)).next (((service.idled b).start b₁).finish id).1 =
        ((((service.idled b).start b₁).finish id).1, p.goto (.drainEach rest goal)) := by
      simp only at hb₃
      simp [Pending.next, Pending.goto, hb₃, Buffer.isBusy, hnone₃]
    have hnotReach' : (p.goto (.await id rest goal)).stage ≠ .reach .answer := fun h => by cases h
    have hadvance := reaches_next s (((service.idled b).start b₁).finish id).1 hnotReach'
    rw [hnext] at hadvance
    exact hadvance
  | false =>
    have hrefused : (p.goto (.await id rest goal)).refused id = p.abort id rest goal := by
      simp [Pending.refused, Pending.goto, Pending.abort]
    simp only [Bool.false_eq_true, if_false, hrefused]
    exact Reaches.refl _

/-! ### Storing -/

/-- So many tries are enough for a record that the buffer can hold: each waited drain brings the retired
    side up and leaves the other one bare. -/
def Enough : Nat → Buffer α → Prop
  | 0, _ => False
  | 1, b => b.current.Bare
  | 2, b => b.drain = none ∧ b.retired.Bare
  | _ + 3, _ => True

/-- After a drain that was waited for, one try less is enough. -/
theorem enough_waited {b' : Buffer α} {attempts : Nat} (h : Enough (attempts + 2) b) (hnone : b'.drain = none)
    (hcurrent : b.drain = none → b'.current = b.retired) (hbare : b'.retired.Bare) : Enough (attempts + 1) b' := by
  match attempts with
  | 0 =>
    show b'.current.Bare
    rw [hcurrent h.1]
    exact h.2
  | 1 => exact ⟨hnone, hbare⟩
  | _ + 2 => trivial

theorem reaches_watermark {r : Record α} (hs : service.Sound) (hb : service.buffer? id = some b) :
    (s.under (service.countStored (b.push r).1)
        { p with stage := .watermark id, result := .ok (.emplaced .stored) }).Reaches
      (s.under (service.afterStore (b.push r).1) (p.answering (.ok (.emplaced .stored)))) := by
  have hid : (b.push r).1.id = id := (Buffer.push_id (hs.sound hb) r).trans (hs.named hb)
  have hfind : (service.countStored (b.push r).1).buffer? id = some (b.push r).1 := by
    have hlookup : (service.lookup? (b.push r).1.id).isSome = true := by
      rw [hid]
      exact isSome_lookup? hb
    have hself := (replaces_setBuffer hlookup).self
    rwa [hid] at hself
  have hnotReach : ({ p with stage := .watermark id, result := .ok (.emplaced .stored) } : Pending α).stage ≠
      .reach .answer := fun h => by cases h
  have hadvance := reaches_next s (service.countStored (b.push r).1) hnotReach
  simp only [Pending.next, hfind] at hadvance
  exact hadvance

theorem emplaceWithin_stored {r : Record α} {b' : Buffer α} (hb : service.buffer? id = some b)
    (hpush : b.push r = (b', true)) (attempts : Nat) :
    service.emplaceWithin (attempts + 1) id r = (service.afterStore b', .ok .stored) := by
  simp [emplaceWithin, configured_eq_ok.mpr hb, hpush]

theorem emplaceWithin_dropped {r : Record α} {b' : Buffer α} (hb : service.buffer? id = some b)
    (hpush : b.push r = (b', false)) (hpolicy : b.settings.policy = .discard) (attempts : Nat) :
    service.emplaceWithin (attempts + 1) id r = (service.afterDrop b, .ok .dropped) := by
  simp [emplaceWithin, configured_eq_ok.mpr hb, hpush, hpolicy]

theorem emplaceWithin_again {r : Record α} {b' : Buffer α} {service' : Service α} (hb : service.buffer? id = some b)
    (hpush : b.push r = (b', false)) (hpolicy : b.settings.policy = .lossless)
    (hcall : service.flushBuffer b true = (service', .ok ())) (attempts : Nat) :
    service.emplaceWithin (attempts + 1) id r = service'.emplaceWithin attempts id r := by
  rw [emplaceWithin]
  simp [configured_eq_ok.mpr hb, hpush, hpolicy, hcall]

theorem emplaceWithin_aborted {r : Record α} {b' : Buffer α} {service' : Service α} {e : BufferError}
    (hb : service.buffer? id = some b) (hpush : b.push r = (b', false)) (hpolicy : b.settings.policy = .lossless)
    (hcall : service.flushBuffer b true = (service', .error e)) (attempts : Nat) :
    service.emplaceWithin (attempts + 1) id r = (service', .error e) := by
  rw [emplaceWithin]
  simp [configured_eq_ok.mpr hb, hpush, hpolicy, hcall]

/-- A call that stores goes on with the record, or gives up, when the drain that makes room for it has ended. -/
theorem reaches_waited {r : Record α} (hs : service.Sound) (hb : service.buffer? id = some b)
    (hgoal : p.stage = .reach (.store id r)) (hresult : p.result = .ok .done)
    (hstore : p.store service id r = (service, p.goto (.retire id [] (.store id r)))) :
    (s.under service p).Reaches (s.under (service.flushBuffer b true).1
      (match (service.flushBuffer b true).2 with
        | .ok () => p
        | .error _ => p.answering (.error (.flushAborted id)))) := by
  have hnotReach : p.stage ≠ .reach .answer := by
    rw [hgoal]
    exact fun h => by cases h
  have hadvance := reaches_next s service hnotReach
  have hnext : p.next service = p.store service id r := by simp [Pending.next, hgoal]
  rw [hnext, hstore] at hadvance
  have hflush := reaches_flushBuffer (s := s) (p := p.goto (.retire id [] (.store id r))) hs hb rfl
  refine hadvance.trans ?_
  cases hcall : service.flushBuffer b true with
  | mk service' outcome =>
    rw [hcall] at hflush
    cases outcome with
    | ok _ =>
      have hretry : goOn (p.goto (.retire id [] (.store id r))) id [] (.store id r) (.ok ()) = p := by
        cases p
        cases hgoal
        rfl
      rw [hretry] at hflush
      exact hflush
    | error e =>
      have habort : goOn (p.goto (.retire id [] (.store id r))) id [] (.store id r) (.error e) =
          p.answering (.error (.flushAborted id)) := by
        simp [goOn, Pending.abort, Pending.goto, Pending.answering, hresult, Stage.drainEach]
      rw [habort] at hflush
      exact hflush

theorem reaches_emplaceWithin {r : Record α} (halign : r.type.align ∈ alignments) (hgoal : p.stage = .reach (.store id r))
    (attempts : Nat) (hs : service.Sound) (hb : service.buffer? id = some b) (hcan : b.current.canHold r.type = true)
    (henough : Enough attempts b) (hresult : p.result = .ok .done) :
    (s.under service p).Reaches (s.under (service.emplaceWithin attempts id r).1
      (p.answering ((service.emplaceWithin attempts id r).2.map .emplaced))) := by
  induction attempts generalizing service b with
  | zero => exact False.elim henough
  | succ attempts ih =>
    have hnotReach : p.stage ≠ .reach .answer := by
      rw [hgoal]
      exact fun h => by cases h
    have hadvance := reaches_next s service hnotReach
    have hnext : p.next service = p.store service id r := by simp [Pending.next, hgoal]
    rw [hnext] at hadvance
    obtain ⟨c, hc, hcases⟩ := (p.store_cases service id r).resolve_left fun h => by
      obtain ⟨e, he, -⟩ := h
      rw [configured_eq_ok.mpr hb] at he
      cases he
    rw [hb] at hc
    cases hc
    cases hpush : b.push r with
    | mk b' stored =>
      rw [hpush] at hcases
      rcases hcases with ⟨rfl, hstore⟩ | ⟨rfl, hpolicy, hstore⟩ | ⟨rfl, hpolicy, hstore⟩
      · have hwatermark := reaches_watermark (s := s) (p := p) (r := r) hs hb
        rw [hpush] at hwatermark
        rw [hstore] at hadvance
        rw [emplaceWithin_stored hb hpush]
        exact hadvance.trans hwatermark
      · rw [hstore] at hadvance
        rw [emplaceWithin_dropped hb hpush hpolicy]
        exact hadvance
      · cases attempts with
        | zero =>
          -- Nothing is refused on the last try, when the side is bare.
          have hstored := Buffer.push_of_bare (hs.sound hb) henough hcan halign
          rw [hpush] at hstored
          cases hstored
        | succ attempts =>
          have hwaited := reaches_waited (s := s) hs hb hgoal hresult hstore
          obtain ⟨b'', hrep, hsound, hid, -, hcapacity, hnone, hcurrent, hok⟩ := flushBuffer_waited hs hb
          have hb'' := hrep.self
          rw [hid] at hb''
          cases hcall : service.flushBuffer b true with
          | mk service' outcome =>
            rw [hcall] at hrep hb'' hok hwaited
            rcases hok with ⟨rfl, hbare⟩ | rfl
            · have hcan' : b''.current.canHold r.type = true := by
                rwa [RecordBuffer.canHold, hcapacity, ← RecordBuffer.canHold]
              rw [emplaceWithin_again hb hpush hpolicy hcall]
              exact hwaited.trans (ih (hs.replaces hrep hsound) hb'' hcan' (enough_waited henough hnone hcurrent hbare))
            · rw [emplaceWithin_aborted hb hpush hpolicy hcall]
              exact hwaited

/-! ### Draining both sides -/

theorem reaches_drainBoth (hs : service.Sound) (hb : service.buffer? id = some b)
    (hstage : p.stage = .retire id (id :: rest) goal) :
    (s.under service p).Reaches (s.under (service.drainBoth id).1 (goOn p id rest goal (service.drainBoth id).2)) := by
  obtain ⟨b₁, hrep₁, hsound₁, hid₁, -, -, -, -, hresult₁⟩ := flushBuffer_waited hs hb
  have hfirst := reaches_flushBuffer (s := s) hs hb hstage
  have hflush : service.flush id true = service.flushBuffer b true := by simp only [flush, configured_eq_ok.mpr hb]
  unfold drainBoth
  rw [hflush]
  cases hcall : service.flushBuffer b true with
  | mk service₁ outcome =>
    rw [hcall] at hrep₁ hresult₁ hfirst
    rcases hresult₁ with ⟨rfl, -⟩ | rfl
    · have hb₁ := hrep₁.self
      rw [hid₁] at hb₁
      have hflush₁ : service₁.flush id true = service₁.flushBuffer b₁ true := by
        simp only [flush, configured_eq_ok.mpr hb₁]
      have hsecond := reaches_flushBuffer (s := s) (p := p.goto (.retire id rest goal)) (hs.replaces hrep₁ hsound₁) hb₁ rfl
      have hgoOn : ∀ outcome, goOn (p.goto (.retire id rest goal)) id rest goal outcome = goOn p id rest goal outcome := by
        intro outcome
        cases outcome <;> rfl
      rw [hgoOn] at hsecond
      simp only [hflush₁]
      exact hfirst.trans hsecond
    · have habort : p.abort id (id :: rest) goal = p.abort id rest goal := by simp [Pending.abort]
      simp only [goOn, habort] at hfirst
      exact hfirst

/-- The result of a call that goes on after a failure is the first failure. -/
def firstFailure (result : Except BufferError Answer) (outcome : Except BufferError Unit) : Except BufferError Answer :=
  match result, outcome with
  | .error e, _ => .error e
  | .ok _, .error e => .error e
  | .ok answer, .ok () => .ok answer

theorem dropWhile_twice {ids : List BufferId} (h : id ∉ ids) :
    (ids.flatMap fun id => [id, id]).dropWhile (fun next => next == id) = ids.flatMap fun id => [id, id] := by
  cases ids with
  | nil => rfl
  | cons first rest =>
    have hne : first ≠ id := fun heq => h (heq ▸ List.mem_cons_self)
    simp [hne]

theorem reaches_flushEach_waiting (ids : List BufferId) (hs : service.Sound) (hnodup : ids.Nodup)
    (hids : ∀ id ∈ ids, (service.buffer? id).isSome = true)
    (hstage : p.stage = .drainEach (ids.flatMap fun id => [id, id]) .answer) :
    (s.under service p).Reaches (s.under (flushEach true ids service).1
      (p.answering (firstFailure p.result (flushEach true ids service).2))) := by
  induction ids generalizing service p with
  | nil =>
    have hsame : p.answering (firstFailure p.result (.ok ())) = p := by
      obtain ⟨call, stage, result⟩ := p
      cases hstage
      cases result <;> rfl
    simp only [flushEach, hsame]
    exact Reaches.refl _
  | cons id rest ih =>
    rw [List.nodup_cons] at hnodup
    obtain ⟨b, hb⟩ := Option.isSome_iff_exists.mp (hids id List.mem_cons_self)
    obtain ⟨b', hrep, hsound, hid, -, hresult⟩ := drainBoth_waited hs hb
    have hfirst := reaches_drainBoth (s := s) (p := p) hs hb hstage
    have hs' := hs.replaces hrep hsound
    have hids' : ∀ j ∈ rest, ((service.drainBoth id).1.buffer? j).isSome = true := by
      intro j hj
      rw [hrep j]
      split
      · rfl
      · exact hids j (List.mem_cons_of_mem _ hj)
    refine hfirst.trans ?_
    simp only [flushEach, flushOne, if_true]
    cases hcall : service.drainBoth id with
    | mk service' outcome =>
      rw [hcall] at hs' hids' hresult
      rcases hresult with rfl | rfl
      · exact ih hs' hnodup.2 hids' rfl
      · have habort := ih (p := p.abort id (rest.flatMap fun id => [id, id]) .answer) hs' hnodup.2 hids'
          (by simp only [Pending.abort, dropWhile_twice hnodup.1])
        have hresult : (p.abort id (rest.flatMap fun id => [id, id]) .answer).answering
            (firstFailure (p.abort id (rest.flatMap fun id => [id, id]) .answer).result (flushEach true rest service').2) =
            p.answering (firstFailure p.result (.error (.flushAborted id))) := by
          simp only [Pending.abort, Pending.answering, firstFailure]
          cases p.result <;> rfl
        rw [hresult] at habort
        exact habort

theorem reaches_flushEach_kicking (ids : List BufferId) (hs : service.Sound)
    (hids : ∀ id ∈ ids, (service.buffer? id).isSome = true) (hstage : p.stage = .kick ids) :
    (flushEach false ids service).2 = .ok () ∧
      (s.under service p).Reaches (s.under (flushEach false ids service).1 (p.goto (.reach .answer))) := by
  have hnotReach : p.stage ≠ .reach .answer := by
    rw [hstage]
    exact fun h => by cases h
  have hadvance := reaches_next s service hnotReach
  induction ids generalizing service p with
  | nil =>
    have hnext : p.next service = (service, p.goto (.reach .answer)) := by simp [Pending.next, hstage]
    rw [hnext] at hadvance
    exact ⟨rfl, hadvance⟩
  | cons id rest ih =>
    obtain ⟨b, hb⟩ := Option.isSome_iff_exists.mp (hids id List.mem_cons_self)
    have hnext : p.next service = ((service.flushBuffer b false).1, p.goto (.kick rest)) := by
      simp [Pending.next, hstage, hb]
    have hone : service.flushOne id false = ((service.flushBuffer b false).1, .ok ()) := by
      simp only [flushOne, flush, configured_eq_ok.mpr hb, flushBuffer, Bool.false_eq_true, if_false]
      cases b.isBusy <;> rfl
    have hkick : (service.flushBuffer b false).1.Sound ∧
        ∀ j ∈ rest, ((service.flushBuffer b false).1.buffer? j).isSome = true := by
      have hrest : ∀ j ∈ rest, (service.buffer? j).isSome = true := fun j hj => hids j (List.mem_cons_of_mem _ hj)
      simp only [flushBuffer, Bool.false_eq_true, if_false]
      cases hbusy : b.isBusy with
      | true => exact ⟨hs, hrest⟩
      | false =>
        have hrep := replaces_start (s := service) (b := b) (by rwa [hs.named hb])
        refine ⟨hs.replaces hrep (Buffer.sound_startDrain (hs.sound hb) (by simpa [Buffer.isBusy] using hbusy)),
          fun j hj => ?_⟩
        rw [if_neg (by simp), hrep j]
        split
        · rfl
        · exact hrest j hj
    rw [hnext] at hadvance
    have hnotReach' : (p.goto (.kick rest)).stage ≠ .reach .answer := fun h => by cases h
    obtain ⟨hok, hrun⟩ := ih (p := p.goto (.kick rest)) hkick.1 hkick.2 rfl hnotReach'
      (reaches_next s (service.flushBuffer b false).1 hnotReach')
    simp only [flushEach, hone]
    exact ⟨hok, hadvance.trans hrun⟩

/-! ### Whole calls -/

/-- The calls as the program makes them: the alignment of a record is one that a slot can have, and the
    buffers are visited as they are registered. -/
def Plain : Call α → Prop
  | .emplace _ r => r.type.align ∈ alignments
  | .flushAll order _ => order = []
  | .allocate | .configure _ _ | .flush _ _ | .destroy _ => True

theorem reaches_begin (h : s.pending = none) (call : Call α) :
    s.Reaches (s.under (s.service.receive call).1 (s.service.receive call).2) := by
  have hstep : s.step (.begin call) = s.under (s.service.receive call).1 (s.service.receive call).2 := by
    simp only [step, Session.begin, h, under]
  rw [← hstep]
  exact Reaches.of_step _ _

/-- A call that ends with its first step. -/
theorem reaches_answered (h : s.pending = none) {call : Call α} {result : Except BufferError Answer}
    (hreceive : s.service.receive call = (service, { call, stage := .reach .answer, result })) :
    s.Reaches (s.after service call result) := by
  have hbegin := reaches_begin h call
  rw [hreceive] at hbegin
  exact hbegin.trans (reaches_answer s service rfl)

theorem reaches_forget (s : Session α) (service : Service α) (h : p.stage = .reach (.forget id)) :
    (s.under service p).Reaches (s.after ({ service with telemetry := match service.buffer? id, p.result with
      | some b, .ok _ => service.telemetry.removeBuffer b.label
      | _, _ => service.telemetry }.unregister id) p.call p.result) := by
  have hnotReach : p.stage ≠ .reach .answer := by
    rw [h]
    exact fun h => by cases h
  have hadvance := reaches_next s service hnotReach
  have hnext : p.next service = p.forget service id := by simp [Pending.next, h]
  rw [hnext] at hadvance
  exact hadvance.trans (reaches_answer s _ rfl)

theorem reaches_emplace (hidle : s.pending = none) (hs : s.service.Sound) (id : BufferId) {r : Record α}
    (halign : r.type.align ∈ alignments) :
    s.Reaches (s.after (s.service.perform (.emplace id r)).1 (.emplace id r) (s.service.perform (.emplace id r)).2) := by
  cases hb : s.service.configured id with
  | error e =>
    have hreceive : s.service.receive (.emplace id r) =
        (s.service, { call := .emplace id r, stage := .reach .answer, result := .error e }) := by simp [receive, hb]
    have hperform : s.service.perform (.emplace id r) = (s.service, .error e) := by
      simp [perform, Service.emplace, hb, Except.map]
    rw [hperform]
    exact reaches_answered hidle hreceive
  | ok b =>
    have hfind := configured_eq_ok.mp hb
    by_cases hcan : b.canHold r.type = true
    · have hreceive : s.service.receive (.emplace id r) =
          (s.service, { call := .emplace id r, stage := .reach (.store id r) }) := by simp [receive, hb, hcan]
      have hbegin := reaches_begin hidle (.emplace id r)
      rw [hreceive] at hbegin
      have hcan' := (Buffer.canHold_current (hs.sound hfind) r.type).symm.trans hcan
      have hstore := reaches_emplaceWithin (s := s) (p := { call := .emplace id r, stage := .reach (.store id r) })
        halign rfl maxAttempts hs hfind hcan' trivial rfl
      have hperform : s.service.perform (.emplace id r) = ((s.service.emplaceWithin maxAttempts id r).1,
          (s.service.emplaceWithin maxAttempts id r).2.map .emplaced) := by
        simp [perform, Service.emplace, hb, hcan]
      rw [hperform]
      exact (hbegin.trans hstore).trans (reaches_answer s _ rfl)
    · have hreceive : s.service.receive (.emplace id r) = (s.service,
          ⟨.emplace id r, .reach .answer, .error (.recordTooLarge id r.type.size b.settings.size)⟩) := by
        simp [receive, hb, hcan]
      have hperform : s.service.perform (.emplace id r) =
          (s.service, .error (.recordTooLarge id r.type.size b.settings.size)) := by
        simp [perform, Service.emplace, hb, hcan, Except.map]
      rw [hperform]
      exact reaches_answered hidle hreceive

theorem reaches_flush (hidle : s.pending = none) (hs : s.service.Sound) (id : BufferId) (wait : Bool) :
    s.Reaches (s.after (s.service.perform (.flush id wait)).1 (.flush id wait) (s.service.perform (.flush id wait)).2) := by
  cases wait with
  | false => exact reaches_answered hidle rfl
  | true =>
    cases hb : s.service.configured id with
    | error e =>
      have hreceive : s.service.receive (.flush id true) =
          (s.service, { call := .flush id true, stage := .reach .answer, result := .error e }) := by simp [receive, hb]
      have hperform : s.service.perform (.flush id true) = (s.service, .error e) := by
        simp [perform, Service.flush, hb, Except.map]
      rw [hperform]
      exact reaches_answered hidle hreceive
    | ok b =>
      have hfind := configured_eq_ok.mp hb
      have hreceive : s.service.receive (.flush id true) =
          (s.service, { call := .flush id true, stage := .retire id [] .answer }) := by simp [receive, hb]
      have hbegin := reaches_begin hidle (.flush id true)
      rw [hreceive] at hbegin
      have hflush := reaches_flushBuffer (s := s) (p := { call := .flush id true, stage := .retire id [] .answer })
        hs hfind rfl
      obtain ⟨_, _, _, _, _, _, _, _, hresult⟩ := flushBuffer_waited hs hfind
      have hperform : s.service.perform (.flush id true) =
          ((s.service.flushBuffer b true).1, (s.service.flushBuffer b true).2.map fun () => .done) := by
        simp [perform, Service.flush, hb]
      rw [hperform]
      refine (hbegin.trans hflush).trans ?_
      rcases hresult with ⟨hok, -⟩ | herror
      · rw [hok]
        exact reaches_answer s _ rfl
      · rw [herror]
        exact reaches_answer s _ rfl

theorem reaches_flushAll (hidle : s.pending = none) (hs : s.service.Sound) (hnumbered : s.service.Numbered) (wait : Bool) :
    s.Reaches (s.after (s.service.perform (.flushAll [] wait)).1 (.flushAll [] wait)
      (s.service.perform (.flushAll [] wait)).2) := by
  have hvisited : s.service.visited [] = s.service.ids.filter fun id => (s.service.buffer? id).isSome := by
    simp [visited]
  have hids : ∀ id ∈ s.service.visited [], (s.service.buffer? id).isSome = true := fun id hid => mem_visited.mp hid
  have hbegin := reaches_begin hidle (.flushAll [] wait)
  cases wait with
  | true =>
    have hnodup : (s.service.visited []).Nodup := by
      rw [hvisited]
      exact hnumbered.nodup.sublist List.filter_sublist
    have heach := reaches_flushEach_waiting (s := s) (p := ⟨.flushAll [] true,
      .drainEach ((s.service.visited []).flatMap fun id => [id, id]) .answer, .ok .done⟩) _ hs hnodup hids rfl
    have hperform : s.service.perform (.flushAll [] true) = ((flushEach true (s.service.visited []) s.service).1,
        firstFailure (.ok .done) (flushEach true (s.service.visited []) s.service).2) := by
      simp only [perform, Service.flushAll, hvisited]
      cases (flushEach true (s.service.ids.filter fun id => (s.service.buffer? id).isSome) s.service).2 <;> rfl
    rw [hperform]
    exact (hbegin.trans heach).trans (reaches_answer s _ rfl)
  | false =>
    obtain ⟨hok, heach⟩ := reaches_flushEach_kicking (s := s) (p := ⟨.flushAll [] false,
      .kick (s.service.visited []), .ok .done⟩) _ hs hids rfl
    have hperform : s.service.perform (.flushAll [] false) =
        ((flushEach false (s.service.visited []) s.service).1, .ok .done) := by
      simp only [perform, Service.flushAll, ← hvisited, hok, Except.map]
    rw [hperform]
    exact (hbegin.trans heach).trans (reaches_answer s _ rfl)

theorem reaches_destroy_configured (hidle : s.pending = none) (hs : s.service.Sound)
    (hlookup : s.service.lookup? id = some (some b)) :
    s.Reaches (s.after (s.service.perform (.destroy id)).1 (.destroy id) (s.service.perform (.destroy id)).2) := by
  have hfind : s.service.buffer? id = some b := by rw [buffer?, hlookup]; rfl
  have hreceive : s.service.receive (.destroy id) =
      (s.service, { call := .destroy id, stage := .retire id [id] (.forget id) }) := by simp [receive, hlookup]
  have hbegin := reaches_begin hidle (.destroy id)
  rw [hreceive] at hbegin
  have hdrain := reaches_drainBoth (s := s) (p := { call := .destroy id, stage := .retire id [id] (.forget id) })
    hs hfind rfl
  obtain ⟨b', hrep, hsound, hid, hsettings, hresult⟩ := drainBoth_waited hs hfind
  have hb' := hrep.self
  rw [hid] at hb'
  have hlabel : b'.label = b.label := by rw [Buffer.label, Buffer.label, hid, hsettings, hs.named hfind]
  refine (hbegin.trans hdrain).trans ?_
  cases hcall : s.service.drainBoth id with
  | mk service outcome =>
    rw [hcall] at hb' hresult
    rcases hresult with rfl | rfl
    · have hperform : s.service.perform (.destroy id) =
          ({ service with telemetry := service.telemetry.removeBuffer b.label }.unregister id, .ok .done) := by
        simp [perform, Service.destroy, hlookup, hcall, Except.map]
      have hforget := reaches_forget s service (p := { call := .destroy id, stage := .reach (.forget id) }) rfl
      rw [show service.buffer? id = some b' from hb'] at hforget
      simp only [hlabel] at hforget
      rw [hperform]
      exact hforget
    · have hperform : s.service.perform (.destroy id) = (service.unregister id, .error (.flushAborted id)) := by
        simp [perform, Service.destroy, hlookup, hcall, Except.map]
      have hforget := reaches_forget s service
        (p := { call := .destroy id, stage := .reach (.forget id), result := .error (.flushAborted id) }) rfl
      rw [show service.buffer? id = some b' from hb'] at hforget
      have habort : goOn (⟨.destroy id, .retire id [id] (.forget id), .ok .done⟩ : Pending α) id [] (.forget id)
          (.error (.flushAborted id)) = ⟨.destroy id, .reach (.forget id), .error (.flushAborted id)⟩ := rfl
      rw [hperform]
      simp only [habort]
      exact hforget

theorem reaches_destroy (hidle : s.pending = none) (hs : s.service.Sound) (id : BufferId) :
    s.Reaches (s.after (s.service.perform (.destroy id)).1 (.destroy id) (s.service.perform (.destroy id)).2) := by
  cases hlookup : s.service.lookup? id with
  | none =>
    have hreceive : s.service.receive (.destroy id) =
        (s.service, { call := .destroy id, stage := .reach .answer, result := .error (.unknownBuffer id) }) := by
      simp [receive, hlookup]
    have hperform : s.service.perform (.destroy id) = (s.service, .error (.unknownBuffer id)) := by
      simp [perform, Service.destroy, hlookup, Except.map]
    rw [hperform]
    exact reaches_answered hidle hreceive
  | some entry =>
    cases entry with
    | none =>
      have hreceive : s.service.receive (.destroy id) =
          (s.service, { call := .destroy id, stage := .reach (.forget id) }) := by simp [receive, hlookup]
      have hnone : s.service.buffer? id = none := by rw [buffer?, hlookup]; rfl
      have hperform : s.service.perform (.destroy id) = (s.service.unregister id, .ok .done) := by
        simp [perform, Service.destroy, hlookup, Except.map]
      have hbegin := reaches_begin hidle (.destroy id)
      rw [hreceive] at hbegin
      have hforget := reaches_forget s s.service (p := { call := .destroy id, stage := .reach (.forget id) }) rfl
      rw [hnone] at hforget
      rw [hperform]
      exact hbegin.trans hforget
    | some b => exact reaches_destroy_configured hidle hs hlookup

/-- The service answers a call as a run does that lets the drains it waits for go on. -/
theorem reaches_perform (hidle : s.pending = none) (hs : s.service.Sound) (hnumbered : s.service.Numbered)
    (call : Call α) (hplain : Plain call) :
    s.Reaches (s.after (s.service.perform call).1 call (s.service.perform call).2) := by
  cases call with
  | allocate => exact reaches_answered hidle rfl
  | configure id settings => exact reaches_answered hidle rfl
  | emplace id r => exact reaches_emplace hidle hs id hplain
  | flush id wait => exact reaches_flush hidle hs id wait
  | flushAll order wait =>
    obtain rfl : order = [] := hplain
    exact reaches_flushAll hidle hs hnumbered wait
  | destroy id => exact reaches_destroy hidle hs id

/-- A call of the service itself keeps what every event of a run keeps. -/
theorem Balanced.perform {replies : List Reply} (haccepting : ∀ reply ∈ replies, reply.accepted = true)
    (events : List (Event α)) (hidle : ((ofReplies replies : Session α).run events).pending = none) (call : Call α)
    (hplain : Plain call) :
    let s := (ofReplies replies : Session α).run events
    (s.after (s.service.perform call).1 call (s.service.perform call).2).Balanced := by
  have hbalanced := (balanced_ofReplies (α := α) haccepting).run events
  have hnumbered := numbered_run (numbered_ofReplies (α := α) replies) events
  obtain ⟨more, hmore⟩ := reaches_perform hidle hbalanced.orderly.toSound hnumbered call hplain
  simp only
  rw [← hmore]
  exact hbalanced.run more

end Session

end PerfCounters
