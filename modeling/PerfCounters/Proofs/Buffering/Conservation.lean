import PerfCounters.Proofs.Buffering.Session

/-! Nothing is lost, repeated or reordered. While the consumer fails on no batch, what was delivered of a
    buffer and then what it holds is at every point of a run the list of the records that were stored
    in it; and a call that waited for its drains leaves nothing undelivered. -/

namespace PerfCounters

open Service

variable {α : Type}

/-- The buffers that a call drains before it returns. -/
def Call.Drains : Call α → BufferId → Prop
  | .flush target wait, id => wait = true ∧ target = id
  | .flushAll _ wait, _ => wait = true
  | .destroy target, id => target = id
  | .allocate, _ | .configure _ _, _ | .emplace _ _, _ => False

/-- How the stage of a call fits the service. While a drain is awaited, the side that its start has
    brought up is empty: so nothing is held once it ends. -/
structure Pending.Ready (p : Pending α) (s : Service α) : Prop where
  stores : ∀ {id r}, p.stage.goal = .store id r → p.call = .emplace id r ∧ p.result = .ok .done
  forgets : ∀ {id}, p.stage.goal = .forget id → p.call = .destroy id
  awaits : ∀ {id rest goal}, p.stage = .await id rest goal → ∀ b, s.buffer? id = some b → b.current.records = []
  drains : ∀ {id}, p.call.Drains id → id ∈ p.stage.targets ∨ s.held id = []

namespace Pending

variable {s s' : Service α} {p : Pending α}

/-- A stage at which nothing is stored or forgotten any more, and for which nothing is waited. -/
theorem ready_of_answer {stage : Stage α} {result : Except BufferError Answer} {call : Call α}
    (hgoal : stage.goal = .answer) (hawait : ∀ {id rest goal}, stage ≠ .await id rest goal)
    (hdrains : ∀ {id}, call.Drains id → id ∈ stage.targets ∨ s.held id = []) :
    Pending.Ready { call, stage, result } s :=
  ⟨fun h => by simp [hgoal] at h, fun h => by simp [hgoal] at h, fun h => absurd h hawait, hdrains⟩

/-- Drains that go on keep the stage fitting. -/
theorem Ready.kept (h : p.Ready s) (hs : Kept s s')
    (hcurrent : ∀ j c, s'.buffer? j = some c → ∃ b, s.buffer? j = some b ∧ c.current = b.current) : p.Ready s' := by
  refine ⟨h.stores, h.forgets, fun hst b hb => ?_, fun hd => ?_⟩
  · obtain ⟨b', hb', heq⟩ := hcurrent _ b hb
    rw [heq]
    exact h.awaits hst b' hb'
  · rcases h.drains hd with hmem | hnil
    · exact Or.inl hmem
    · exact Or.inr (hs.drained _ hnil)

end Pending

open Session (storedBy?)

/-- What one step of a call does: it keeps the ledger, or stores the record it answers for. -/
structure Advanced (s : Service α) (p : Pending α) (s' : Service α) (p' : Pending α) : Prop where
  orderly : s'.Orderly
  ready : p'.Ready s'
  ledger : ∀ id, ∃ more, s'.ledger id = s.ledger id ++ more ∧
    (storedBy? id (p'.call, p'.result)).toList = (storedBy? id (p.call, p.result)).toList ++ more

namespace Advanced

variable {s s' : Service α} {p p' : Pending α} {id : BufferId} {rest : List BufferId} {goal : Goal α}

theorem of_kept (hs : Kept s s') (hp : p'.Ready s') (hcall : p'.call = p.call) (hresult : p'.result = p.result) :
    Advanced s p s' p' :=
  ⟨hs.orderly, hp, fun id => ⟨[], by rw [hs.conserved, List.append_nil], by rw [hcall, hresult, List.append_nil]⟩⟩

/-- A step that a drain in flight holds up. -/
theorem blocked (hs : s.Orderly) (hp : p.Ready s) : Advanced s p s p := of_kept (Kept.refl hs) hp rfl rfl

theorem store {r : Record α} (hs : s.Orderly) (hp : p.Ready s) (hstage : p.stage = .reach (.store id r)) :
    Advanced s p (p.store s id r).1 (p.store s id r).2 := by
  obtain ⟨hcall, hresult⟩ := hp.stores (by rw [hstage]; rfl)
  have hdrains : ∀ {j}, ¬ p.call.Drains j := fun h => by rw [hcall] at h; exact h
  have hbefore : ∀ j, (storedBy? j (p.call, p.result)).toList = [] := fun j => by rw [hcall, hresult]; rfl
  have hover : ∀ result, (p.answering result).Ready s := fun result =>
    Pending.ready_of_answer rfl (fun h => by cases h) fun h => absurd h hdrains
  rcases p.store_cases s id r with ⟨e, -, heq⟩ | ⟨b, hb, ⟨hpush, heq⟩ | ⟨-, -, heq⟩ | ⟨-, -, heq⟩⟩
  · rw [heq]
    refine ⟨hs, hover _, fun j => ⟨[], (List.append_nil _).symm, ?_⟩⟩
    rw [hbefore]
    simp only [Pending.answering, hcall]
    rfl
  · have hname := hs.named hb
    obtain ⟨horderly, hledger⟩ := ledger_countStored hs (by rwa [hname]) hpush
    rw [heq]
    refine ⟨horderly, Pending.ready_of_answer rfl (fun h => by cases h) fun h => absurd h hdrains, fun j =>
      ⟨_, hledger j, ?_⟩⟩
    rw [hbefore]
    simp only [hcall, hname]
    by_cases hj : j = id
    · simp [storedBy?, hj]
    · have hne : id ≠ j := fun h => hj h.symm
      simp [storedBy?, hj, hne]
  · have hkept := kept_afterDrop hs (b := b) (by rwa [hs.named hb])
    rw [heq]
    refine ⟨hkept.orderly, Pending.ready_of_answer rfl (fun h => by cases h) fun h => absurd h hdrains,
      fun j => ⟨[], by rw [hkept.conserved, List.append_nil], ?_⟩⟩
    rw [hbefore]
    simp only [Pending.answering, hcall]
    rfl
  · rw [heq]
    refine of_kept (Kept.refl hs) ⟨fun h => ?_, fun h => (by cases h), fun h => (by cases h),
      fun h => absurd h hdrains⟩ rfl rfl
    cases h
    exact ⟨hcall, hresult⟩

theorem forget (hs : s.Orderly) (hp : p.Ready s) (hstage : p.stage = .reach (.forget id)) :
    Advanced s p (p.forget s id).1 (p.forget s id).2 := by
  have hcall : p.call = .destroy id := hp.forgets (by rw [hstage]; rfl)
  have hdrains : p.call.Drains id := by rw [hcall]; rfl
  have hnil : s.held id = [] := by
    rcases hp.drains hdrains with hmem | hnil
    · rw [hstage] at hmem
      cases hmem
    · exact hnil
  have hkept : Kept s (p.forget s id).1 := kept_unregister hs _ hnil
  refine of_kept hkept (Pending.ready_of_answer rfl (fun h => by cases h) fun {j} h => Or.inr ?_) rfl rfl
  have hj : id = j := by rw [hcall] at h; exact h
  rw [← hj]
  exact hkept.drained id hnil

theorem watermark (hs : s.Orderly) (hp : p.Ready s) (hstage : p.stage = .watermark id) :
    Advanced s p (p.next s).1 (p.next s).2 := by
  have hdrains : ∀ {j}, p.call.Drains j → s.held j = [] := fun h => by
    rcases hp.drains h with hmem | hnil
    · rw [hstage] at hmem
      cases hmem
    · exact hnil
  simp only [Pending.next, hstage]
  cases hb : s.buffer? id with
  | none => exact of_kept (Kept.refl hs) (Pending.ready_of_answer rfl (fun h => by cases h)
      fun h => Or.inr (hdrains h)) rfl rfl
  | some b =>
    have hkept := kept_checkWatermark hs (b := b) (by rwa [hs.named hb])
    exact of_kept hkept
      (Pending.ready_of_answer rfl (fun h => by cases h) fun h => Or.inr (hkept.drained _ (hdrains h))) rfl rfl

theorem kick {ids : List BufferId} (hs : s.Orderly) (hp : p.Ready s) (hstage : p.stage = .kick ids) :
    Advanced s p (p.next s).1 (p.next s).2 := by
  have hdrains : ∀ {j}, p.call.Drains j → s.held j = [] := fun h => by
    rcases hp.drains h with hmem | hnil
    · rw [hstage] at hmem
      cases hmem
    · exact hnil
  cases ids with
  | nil =>
    simp only [Pending.next, hstage]
    exact of_kept (Kept.refl hs) (Pending.ready_of_answer rfl (fun h => by cases h) fun h => Or.inr (hdrains h)) rfl rfl
  | cons id rest =>
    simp only [Pending.next, hstage]
    cases hb : s.buffer? id with
    | none => exact of_kept (Kept.refl hs) (Pending.ready_of_answer rfl (fun h => by cases h)
        fun h => Or.inr (hdrains h)) rfl rfl
    | some b =>
      have hkept := kept_kick hs (b := b) (by rwa [hs.named hb])
      exact of_kept hkept
        (Pending.ready_of_answer rfl (fun h => by cases h) fun h => Or.inr (hkept.drained _ (hdrains h))) rfl rfl

theorem retire (hs : s.Orderly) (hp : p.Ready s) (hstage : p.stage = .retire id rest goal) :
    Advanced s p (p.next s).1 (p.next s).2 := by
  have hgoal : p.stage.goal = goal := by rw [hstage]; rfl
  have htargets : p.stage.targets = id :: rest := by rw [hstage]; rfl
  cases hb : s.buffer? id with
  | none =>
    have hnext : p.next s = (s, p.goto (.await id rest goal)) := by simp [Pending.next, hstage, hb]
    rw [hnext]
    refine of_kept (Kept.refl hs) ⟨fun h => hp.stores (hgoal.trans h), fun h => hp.forgets (hgoal.trans h),
      fun h b' hb' => ?_, fun h => ?_⟩ rfl rfl
    · cases h
      rw [hb] at hb'
      cases hb'
    · have hleft := hp.drains h
      rwa [htargets] at hleft
  | some b =>
    cases hbusy : b.isBusy with
    | true =>
      have hnext : p.next s = (s, p) := by simp [Pending.next, hstage, hb, hbusy]
      rw [hnext]
      exact blocked hs hp
    | false =>
      have hnext : p.next s = (s.start b, p.goto (.await id rest goal)) := by
        simp [Pending.next, hstage, hb, hbusy]
      have hself : s.buffer? b.id = some b := by rwa [hs.named hb]
      have hkept := kept_start hs hself hbusy
      have hrep := replaces_start hself
      rw [hnext]
      refine of_kept hkept ⟨fun h => hp.stores (hgoal.trans h), fun h => hp.forgets (hgoal.trans h),
        fun h b' hb' => ?_, fun h => ?_⟩ rfl rfl
      · cases h
        -- The side that comes up was the retired one of a buffer without a drain in flight.
        have hnew : (s.start b).buffer? id = some b.startDrain := by
          rw [← hs.named hb]
          exact hrep.self
        rw [hnew] at hb'
        cases hb'
        rw [Buffer.current_startDrain]
        exact (hs.cleared hb (by simpa [Buffer.isBusy] using hbusy)).records
      · rcases hp.drains h with hmem | hnil
        · rw [htargets] at hmem
          exact Or.inl hmem
        · exact Or.inr (hkept.drained _ hnil)

theorem await (hs : s.Orderly) (hp : p.Ready s) (hstage : p.stage = .await id rest goal) :
    Advanced s p (p.next s).1 (p.next s).2 := by
  have hgoal : p.stage.goal = goal := by rw [hstage]; rfl
  have htargets : p.stage.targets = id :: rest := by rw [hstage]; rfl
  -- Once the awaited drain is over nothing is held, so one target less is to be waited for.
  have hready : s.held id = [] → (p.goto (.drainEach rest goal)).Ready s := by
    intro hnil
    refine ⟨fun h => hp.stores ?_, fun h => hp.forgets ?_, fun h => ?_, fun {j} h => ?_⟩
    · rw [hgoal, ← h]
      exact (Stage.goal_drainEach rest goal).symm
    · rw [hgoal, ← h]
      exact (Stage.goal_drainEach rest goal).symm
    · cases rest <;> cases h
    · have htargets' : (p.goto (.drainEach rest goal)).stage.targets = rest := Stage.targets_drainEach rest goal
      rw [htargets']
      rcases hp.drains h with hmem | hj
      · rw [htargets, List.mem_cons] at hmem
        rcases hmem with rfl | hmem
        · exact Or.inr hnil
        · exact Or.inl hmem
      · exact Or.inr hj
  cases hb : s.buffer? id with
  | none =>
    have hnext : p.next s = (s, p.goto (.drainEach rest goal)) := by simp [Pending.next, hstage, hb]
    rw [hnext]
    exact of_kept (Kept.refl hs) (hready (held_of_none hb)) rfl rfl
  | some b =>
    cases hbusy : b.isBusy with
    | true =>
      have hnext : p.next s = (s, p) := by simp [Pending.next, hstage, hb, hbusy]
      rw [hnext]
      exact blocked hs hp
    | false =>
      have hnext : p.next s = (s, p.goto (.drainEach rest goal)) := by simp [Pending.next, hstage, hb, hbusy]
      have hnil : s.held id = [] := by
        rw [held_of_buffer? hb, Buffer.held_of_idle (by simpa [Buffer.isBusy] using hbusy)]
        exact hp.awaits hstage b hb
      rw [hnext]
      exact of_kept (Kept.refl hs) (hready hnil) rfl rfl

theorem next (hs : s.Orderly) (hp : p.Ready s) : Advanced s p (p.next s).1 (p.next s).2 := by
  cases hstage : p.stage with
  | reach goal =>
    cases goal with
    | answer =>
      simp only [Pending.next, hstage]
      exact blocked hs hp
    | store id r =>
      simp only [Pending.next, hstage]
      exact store hs hp hstage
    | forget id =>
      simp only [Pending.next, hstage]
      exact forget hs hp hstage
  | watermark id => exact watermark hs hp hstage
  | kick ids => exact kick hs hp hstage
  | retire id rest goal => exact retire hs hp hstage
  | await id rest goal => exact await hs hp hstage

end Advanced

/-! ### The first step of a call -/

theorem mem_visited {s : Service α} {order : List BufferId} {id : BufferId} :
    id ∈ s.visited order ↔ (s.buffer? id).isSome = true := by
  unfold visited
  rw [List.mem_filter, List.mem_append, List.mem_eraseDups, List.mem_filter]
  constructor
  · exact fun h => h.2
  · intro h
    obtain ⟨b, hb⟩ := Option.isSome_iff_exists.mp h
    by_cases hmem : id ∈ order
    · exact ⟨Or.inl hmem, h⟩
    · exact ⟨Or.inr ⟨mem_ids hb, by simpa using hmem⟩, h⟩

/-- What the first step of a call keeps: nothing is stored yet, and every buffer that it drains is
    still waited for or holds nothing. -/
structure Received (s : Service α) (call : Call α) (s' : Service α) (p : Pending α) : Prop where
  kept : Kept s s'
  ready : p.Ready s'
  call : p.call = call
  stored : ∀ id, storedBy? id (p.call, p.result) = none

namespace Received

variable {s s' : Service α} {call : Call α} {id : BufferId}

/-- A call that needs no drains answers at once. -/
theorem answering {result : Except BufferError Answer} (hs : Kept s s') (hdrains : ∀ {id}, call.Drains id → s.held id = [])
    (hstored : ∀ id, storedBy? id (call, result) = none) :
    Received s call s' { call, stage := .reach .answer, result } :=
  ⟨hs, Pending.ready_of_answer rfl (fun h => by cases h) fun h => Or.inr (hs.drained _ (hdrains h)), rfl, hstored⟩

theorem emplace (hs : s.Orderly) (id : BufferId) (r : Record α) :
    Received s (.emplace id r) (s.receive (.emplace id r)).1 (s.receive (.emplace id r)).2 := by
  have hnot : ∀ {P : Prop} {j}, (Call.emplace id r).Drains j → P := fun h => False.elim h
  cases hb : s.configured id with
  | error e =>
    have hreceive : s.receive (.emplace id r) =
        (s, { call := .emplace id r, stage := .reach .answer, result := .error e }) := by simp [Service.receive, hb]
    rw [hreceive]
    exact answering (Kept.refl hs) hnot fun _ => rfl
  | ok b =>
    by_cases hcan : b.canHold r.type = true
    · have hreceive : s.receive (.emplace id r) =
          (s, { call := .emplace id r, stage := .reach (.store id r) }) := by simp [Service.receive, hb, hcan]
      rw [hreceive]
      refine ⟨Kept.refl hs, ⟨fun h => ?_, fun h => (by cases h), fun h => (by cases h), hnot⟩, rfl, fun _ => rfl⟩
      cases h
      exact ⟨rfl, rfl⟩
    · have hreceive : s.receive (.emplace id r) =
          (s, { call := .emplace id r, stage := .reach .answer,
                result := .error (.recordTooLarge id r.type.size b.settings.size) }) := by
        simp [Service.receive, hb, hcan]
      rw [hreceive]
      exact answering (Kept.refl hs) hnot fun _ => rfl

theorem flush (hs : s.Orderly) (id : BufferId) (wait : Bool) :
    Received s (.flush id wait) (s.receive (.flush id wait)).1 (s.receive (.flush id wait)).2 := by
  cases wait with
  | true =>
    cases hb : s.configured id with
    | error e =>
      have hreceive : s.receive (.flush id true) =
          (s, { call := .flush id true, stage := .reach .answer, result := .error e }) := by
        simp [Service.receive, hb]
      rw [hreceive]
      refine answering (Kept.refl hs) (fun h => ?_) fun _ => rfl
      rw [← h.2]
      exact held_of_none (buffer?_of_configured_error hb)
    | ok b =>
      have hreceive : s.receive (.flush id true) = (s, { call := .flush id true, stage := .retire id [] .answer }) := by
        simp [Service.receive, hb]
      rw [hreceive]
      refine ⟨Kept.refl hs, ⟨fun h => (by cases h), fun h => (by cases h), fun h => (by cases h), fun h => Or.inl ?_⟩,
        rfl, fun _ => rfl⟩
      rw [← h.2]
      exact List.mem_cons_self
  | false =>
    refine answering ?_ (fun h => Bool.noConfusion h.1) fun _ => ?_
    · show Kept s (s.flush id false).1
      unfold Service.flush
      cases hb : s.configured id with
      | error e => exact Kept.refl hs
      | ok b => exact kept_kick hs (by rw [hs.named (configured_eq_ok.mp hb), configured_eq_ok.mp hb])
    · cases (s.flush id false).2 <;> rfl

theorem flushAll (hs : s.Orderly) (order : List BufferId) (wait : Bool) :
    Received s (.flushAll order wait) (s.receive (.flushAll order wait)).1 (s.receive (.flushAll order wait)).2 := by
  cases wait with
  | true =>
    have htwice : ∀ j, s.held j = [] ∨ j ∈ (s.visited order).flatMap fun id => [id, id] := fun j => by
      cases hb : s.buffer? j with
      | none => exact Or.inl (held_of_none hb)
      | some b => exact Or.inr (List.mem_flatMap.mpr ⟨j, mem_visited.mpr (by rw [hb]; rfl), List.mem_cons_self⟩)
    have hreceive : s.receive (.flushAll order true) =
        (s, ⟨.flushAll order true, .drainEach ((s.visited order).flatMap fun id => [id, id]) .answer, .ok .done⟩) := by
      simp [Service.receive]
    rw [hreceive]
    generalize (s.visited order).flatMap (fun id => [id, id]) = ids at htwice
    refine ⟨Kept.refl hs, ⟨fun h => ?_, fun h => ?_, fun h => ?_, fun {j} _ => ?_⟩, rfl, fun _ => rfl⟩
    · rw [Stage.goal_drainEach] at h
      cases h
    · rw [Stage.goal_drainEach] at h
      cases h
    · cases ids <;> cases h
    · rw [Stage.targets_drainEach]
      exact (htwice j).symm
  | false =>
    have hreceive : s.receive (.flushAll order false) =
        (s, { call := .flushAll order false, stage := .kick (s.visited order) }) := by simp [Service.receive]
    rw [hreceive]
    exact ⟨Kept.refl hs, ⟨fun h => (by cases h), fun h => (by cases h), fun h => (by cases h),
      fun h => Bool.noConfusion h⟩, rfl, fun _ => rfl⟩

theorem destroy (hs : s.Orderly) (id : BufferId) :
    Received s (.destroy id) (s.receive (.destroy id)).1 (s.receive (.destroy id)).2 := by
  have hunset : s.buffer? id = none → ∀ {j}, (Call.destroy id : Call α).Drains j → s.held j = [] := fun hb j h => by
    rw [← show id = j from h]
    exact held_of_none hb
  cases hlookup : s.lookup? id with
  | none =>
    have hreceive : s.receive (.destroy id) =
        (s, { call := .destroy id, stage := .reach .answer, result := .error (.unknownBuffer id) }) := by
      simp [Service.receive, hlookup]
    rw [hreceive]
    exact answering (Kept.refl hs) (hunset (by rw [buffer?, hlookup]; rfl)) fun _ => rfl
  | some entry =>
    cases entry with
    | none =>
      have hreceive : s.receive (.destroy id) = (s, { call := .destroy id, stage := .reach (.forget id) }) := by
        simp [Service.receive, hlookup]
      rw [hreceive]
      refine ⟨Kept.refl hs, ⟨fun h => (by cases h), fun h => ?_, fun h => (by cases h), fun h => Or.inr ?_⟩,
        rfl, fun _ => rfl⟩
      · cases h
        rfl
      · exact hunset (by rw [buffer?, hlookup]; rfl) h
    | some b =>
      have hreceive : s.receive (.destroy id) = (s, { call := .destroy id, stage := .retire id [id] (.forget id) }) := by
        simp [Service.receive, hlookup]
      rw [hreceive]
      refine ⟨Kept.refl hs, ⟨fun h => (by cases h), fun h => ?_, fun h => (by cases h), fun {j} h => Or.inl ?_⟩,
        rfl, fun _ => rfl⟩
      · cases h
        rfl
      · rw [← show id = j from h]
        exact List.mem_cons_self

theorem receive (hs : s.Orderly) (call : Call α) : Received s call (s.receive call).1 (s.receive call).2 := by
  cases call with
  | allocate => exact answering (kept_allocate hs) (fun h => False.elim h) fun _ => rfl
  | configure id settings =>
    refine answering (kept_configure hs id settings) (fun h => False.elim h) fun _ => ?_
    cases (s.configure id settings).2 <;> rfl
  | emplace id r => exact emplace hs id r
  | flush id wait => exact flush hs id wait
  | flushAll order wait => exact flushAll hs order wait
  | destroy id => exact destroy hs id

end Received

/-! ### Runs -/

namespace Session

/-- What every event keeps. -/
structure Balanced (s : Session α) : Prop where
  orderly : s.service.Orderly
  ledger : ∀ id, s.service.ledger id = s.stored id
  ready : ∀ {p}, s.pending = some p → p.Ready s.service
  returned : ∀ {call result id}, s.Returned call result → call.Drains id → s.service.held id = []

theorem stored_eq (s : Session α) (id : BufferId) :
    s.stored id = s.history.filterMap (storedBy? id) ++
      (s.pending.toList.map fun p => (p.call, p.result)).filterMap (storedBy? id) := List.filterMap_append ..

theorem balanced_ofReplies {replies : List Reply} (h : ∀ reply ∈ replies, reply.accepted = true) :
    (ofReplies replies : Session α).Balanced :=
  ⟨⟨⟨fun h => (by cases h), fun h => (by cases h)⟩, fun h => (by cases h), h⟩, fun _ => rfl, fun h => (by cases h),
    fun h => (by cases h.2)⟩

variable {s : Session α}

theorem Balanced.begin (h : s.Balanced) (call : Call α) : (s.begin call).Balanced := by
  unfold Session.begin
  cases hp : s.pending with
  | some p => exact h
  | none =>
    obtain ⟨hkept, hready, -, hstored⟩ := Received.receive h.orderly call
    refine ⟨hkept.orderly, fun id => ?_, fun heq => ?_, fun hret => ?_⟩
    · rw [hkept.conserved, h.ledger, stored_eq, stored_eq, hp]
      simp [hstored]
    · cases heq
      exact hready
    · cases hret.1

/-- The call under way becomes `p'` while the service becomes `service`. -/
theorem Balanced.advanced (h : s.Balanced) {p p' : Pending α} {service : Service α} (hp : s.pending = some p)
    (hadv : Advanced s.service p service p') : ({ s with service, pending := some p' } : Session α).Balanced := by
  refine ⟨hadv.orderly, fun id => ?_, fun heq => ?_, fun hret => ?_⟩
  · obtain ⟨more, hledger, hstored⟩ := hadv.ledger id
    have hone : ∀ p : Pending α, [(p.call, p.result)].filterMap (storedBy? id) =
        (storedBy? id (p.call, p.result)).toList := by
      intro p
      cases hs : storedBy? id (p.call, p.result) <;> simp [hs]
    have hbefore := h.ledger id
    rw [stored_eq, hp] at hbefore
    rw [stored_eq]
    simp only [Option.toList_some, List.map_cons, List.map_nil, hone] at hbefore ⊢
    rw [hledger, hbefore, hstored, List.append_assoc]
  · cases heq
    exact hadv.ready
  · cases hret.1

theorem Balanced.advance (h : s.Balanced) : s.advance.Balanced := by
  unfold Session.advance
  cases hp : s.pending with
  | none => exact h
  | some p =>
    simp only
    split
    · rename_i hstage
      refine ⟨h.orderly, fun id => ?_, fun heq => (by cases heq), fun {call result id} hret hdrains => ?_⟩
      · rw [h.ledger, stored_eq, stored_eq, hp]
        simp
      · -- The call that returns waits for nothing any more.
        obtain ⟨-, hlast⟩ := hret
        simp only [List.getLast?_append, List.getLast?_singleton, Option.some_or, Option.some.injEq, Prod.mk.injEq] at hlast
        obtain ⟨rfl, -⟩ := hlast
        rcases (h.ready hp).drains hdrains with hmem | hnil
        · rw [hstage] at hmem
          cases hmem
        · exact hnil
    · exact h.advanced hp (Advanced.next h.orderly (h.ready hp))

/-- A step of a drain, which touches neither the calls nor their results. -/
theorem Balanced.drain (h : s.Balanced) {service : Service α} (hkept : Kept s.service service)
    (hcurrent : ∀ j c, service.buffer? j = some c → ∃ b, s.service.buffer? j = some b ∧ c.current = b.current) :
    ({ s with service } : Session α).Balanced :=
  ⟨hkept.orderly, fun id => (hkept.conserved id).trans (h.ledger id), fun hp => (h.ready hp).kept hkept hcurrent,
    fun hret hdrains => hkept.drained _ (h.returned hret hdrains)⟩

theorem Balanced.step (h : s.Balanced) (e : Event α) : (s.step e).Balanced := by
  cases e with
  | begin call => exact h.begin call
  | advance => exact h.advance
  | enter id => exact h.drain (kept_enter h.orderly id) fun _ _ hc => current_enter h.orderly.toSound id hc
  | finish id =>
    obtain ⟨hkept, htrue⟩ := kept_finish h.orderly id
    simp only [Session.step, Session.finish, htrue, if_true]
    exact h.drain hkept fun _ _ hc => current_finish h.orderly.toSound id hc

theorem Balanced.run (h : s.Balanced) (events : List (Event α)) : (s.run events).Balanced :=
  run_keeps Balanced.step h events

/-- At every point of a run with a consumer that fails on nothing, the records that a buffer has
    delivered and then those that it holds are the records stored in it, in the order of the calls. When
    a call that drains a buffer has returned without an error, all of them are delivered. -/
theorem run_conserves_records (replies : List Reply) (haccepting : ∀ reply ∈ replies, reply.accepted = true)
    (events : List (Event α)) :
    let s := (ofReplies replies : Session α).run events
    (∀ id b, s.service.buffer? id = some b → s.service.delivered id ++ b.held = s.stored id) ∧
      ∀ call id, s.Returned call (.ok .done) → call.Drains id → s.service.delivered id = s.stored id := by
  have h : ((ofReplies replies : Session α).run events).Balanced := (balanced_ofReplies haccepting).run events
  refine ⟨fun id b hb => ?_, fun call id hret hdrains => ?_⟩
  · rw [← h.ledger id, Service.ledger, held_of_buffer? hb]
  · rw [← h.ledger id, Service.ledger, h.returned hret hdrains, List.append_nil]

/-- A record that brings its buffer to the watermark is drained in the background; a flush that waits
    finds it delivered. -/
theorem run_conserves_flushed_record :
    let r : Record Nat := ⟨3, 5, ⟨"u64", 8, 8⟩, 42⟩
    let events : List (Event Nat) := [.begin .allocate, .advance, .begin (.configure 1 ⟨"", 0, 16, 8, .lossless, 0⟩),
      .advance, .begin (.emplace 1 r), .advance, .advance, .enter 1, .advance, .begin (.flush 1 true), .finish 1,
      .advance, .finish 1, .advance, .advance]
    let s := (ofReplies [{}] : Session Nat).run events
    (∀ reply ∈ [({} : Reply)], reply.accepted = true) ∧ s.Returned (.flush 1 true) (.ok .done) ∧
      s.service.delivered 1 = [r] := by
  intro r events s
  have haccepting : ∀ reply ∈ [({} : Reply)], reply.accepted = true := by simp
  have hidle : s.pending = none := Option.isNone_iff_eq_none.mp (by decide +kernel)
  have hreturned : s.Returned (.flush 1 true) (.ok .done) := ⟨hidle, by decide +kernel⟩
  have hstored : s.stored 1 = [r] := by decide +kernel
  have hdrained := (run_conserves_records [{}] haccepting events).2 _ 1 hreturned ⟨rfl, rfl⟩
  exact ⟨haccepting, hreturned, hdrained.trans hstored⟩

end Session

end PerfCounters
