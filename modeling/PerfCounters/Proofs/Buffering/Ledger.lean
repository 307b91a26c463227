import PerfCounters.Proofs.Buffering.Drains

/-! The ledger of a service: under each number, the records that were delivered and then those that are
    held. As long as the consumer fails on no batch, only storing a record changes it. -/

namespace PerfCounters

namespace Service

variable {α : Type} {s s' : Service α} {b : Buffer α} {id : BufferId}

/-- A service whose consumer has failed on no batch and will fail on none. -/
structure Orderly (s : Service α) : Prop extends Sound s where
  cleared : ∀ {id b}, s.buffer? id = some b → b.Cleared
  accepting : ∀ reply ∈ s.replies, reply.accepted = true

/-- What a step that stores no record keeps. -/
structure Kept (s s' : Service α) : Prop where
  orderly : s'.Orderly
  conserved : ∀ id, s'.ledger id = s.ledger id
  drained : ∀ id, s.held id = [] → s'.held id = []

theorem Kept.refl (hs : s.Orderly) : Kept s s := ⟨hs, fun _ => rfl, fun _ h => h⟩

theorem Kept.trans {t : Service α} (h : Kept s s') (h' : Kept s' t) : Kept s t :=
  ⟨h'.orderly, fun id => (h'.conserved id).trans (h.conserved id), fun id hid => h'.drained id (h.drained id hid)⟩

/-- The ledger is kept when what the new buffer no longer holds, `out`, was delivered. -/
theorem Kept.of_replaces (hs : s.Orderly) (h : Replaces s s' b) (hsound : b.Sound) (hcleared : b.Cleared)
    (haccepting : ∀ reply ∈ s'.replies, reply.accepted = true) (out : List (Record α))
    (hdelivered : ∀ id, s'.delivered id = s.delivered id ++ if id = b.id then out else [])
    (hheld : s.held b.id = out ++ b.held) : Kept s s' := by
  refine ⟨⟨hs.toSound.replaces h hsound, fun hc => h.cases (P := fun _ c => c.Cleared) hcleared hs.cleared hc,
    haccepting⟩, fun id => ?_, fun id hid => ?_⟩
  · by_cases heq : id = b.id
    · subst heq
      rw [ledger, ledger, hdelivered, if_pos rfl, held_of_buffer? h.self, hheld, List.append_assoc]
    · rw [ledger, ledger, hdelivered, if_neg heq, List.append_nil, held_congr (h.other heq)]
  · by_cases heq : id = b.id
    · subst heq
      rw [hheld, List.append_eq_nil_iff] at hid
      rw [held_of_buffer? h.self, hid.2]
    · rwa [held_congr (h.other heq)]

/-- A step that delivers nothing and leaves what is held. -/
theorem Kept.of_same_held (hs : s.Orderly) (h : Replaces s s' b) (hsound : b.Sound) (hcleared : b.Cleared)
    (hreplies : s'.replies = s.replies) (hlog : s'.log = s.log) (hheld : b.held = s.held b.id) : Kept s s' := by
  refine Kept.of_replaces hs h hsound hcleared ?_ [] (fun id => ?_) ?_
  · rw [hreplies]
    exact hs.accepting
  · rw [ite_self, List.append_nil, delivered, delivered, hlog]
  · rw [hheld, List.nil_append]

/-! ### Steps that store and deliver nothing -/

theorem kept_allocate (hs : s.Orderly) : Kept s s.allocate.1 := by
  refine ⟨⟨⟨fun h => ?_, fun h => ?_⟩, fun h => ?_, hs.accepting⟩, fun id => ?_, fun id hid => ?_⟩
  · exact hs.named ((buffer?_allocate s _).symm.trans h)
  · exact hs.sound ((buffer?_allocate s _).symm.trans h)
  · exact hs.cleared ((buffer?_allocate s _).symm.trans h)
  · rw [ledger, ledger, held_congr (buffer?_allocate s id)]
    rfl
  · rwa [held_congr (buffer?_allocate s id)]

theorem kept_configure (hs : s.Orderly) (id : BufferId) (settings : Settings) :
    Kept s (s.configure id settings).1 := by
  unfold configure
  split
  · exact Kept.refl hs
  · split
    · exact Kept.refl hs
    · exact Kept.refl hs
    · rename_i hlookup
      have hsome : (s.lookup? id).isSome = true := by rw [hlookup]; rfl
      have hnone : s.buffer? id = none := by rw [buffer?, hlookup]; rfl
      refine Kept.of_same_held hs (b := Buffer.ofSettings id settings _) (replaces_setBuffer hsome)
        (Buffer.sound_ofSettings ..) (Buffer.cleared_ofSettings _ _ _) rfl rfl ?_
      rw [Buffer.held_ofSettings]
      exact (held_of_none hnone).symm

/-- A drain of an idle buffer begins: the current side is retired, and the bare one takes its place. -/
theorem kept_start (hs : s.Orderly) (hb : s.buffer? b.id = some b) (hidle : b.isBusy = false) :
    Kept s (s.start b) := by
  have hd : b.drain = none := by simpa [Buffer.isBusy] using hidle
  refine Kept.of_same_held hs (b := b.startDrain) (replaces_setBuffer (isSome_lookup? hb))
    (Buffer.sound_startDrain (hs.sound hb) hd) (Buffer.cleared_startDrain b) rfl rfl ?_
  rw [Buffer.held_startDrain (hs.sound hb) (hs.cleared hb) hd]
  exact (held_of_buffer? hb).symm

theorem kept_kick (hs : s.Orderly) (hb : s.buffer? b.id = some b) : Kept s (s.flushBuffer b false).1 := by
  simp only [flushBuffer, Bool.false_eq_true, if_false]
  cases hbusy : b.isBusy with
  | true => exact Kept.refl hs
  | false => exact kept_start hs hb hbusy

theorem kept_checkWatermark (hs : s.Orderly) (hb : s.buffer? b.id = some b) : Kept s (s.checkWatermark b) := by
  unfold checkWatermark
  split
  · exact kept_kick hs hb
  · exact Kept.refl hs

theorem kept_afterDrop (hs : s.Orderly) (hb : s.buffer? b.id = some b) : Kept s (s.afterDrop b) := by
  have hsound := hs.sound hb
  have hcleared : b.Cleared := hs.cleared hb
  refine Kept.of_same_held hs (b := { b with drops := b.drops + 1 }) (replaces_setBuffer (isSome_lookup? hb))
    ⟨hsound.current, hsound.retired, hsound.capacity, hsound.gate, hsound.draining⟩ hcleared rfl rfl ?_
  exact (held_of_buffer? hb).symm

/-- A number can be forgotten when nothing is held under it. -/
theorem kept_unregister (hs : s.Orderly) (telemetry : Telemetry Nat) (h : s.held id = []) :
    Kept s ({ s with telemetry }.unregister id) := by
  have hbuf : ∀ j, ({ s with telemetry }.unregister id).buffer? j = if j = id then none else s.buffer? j :=
    fun j => buffer?_unregister _ _ _
  have hold : ∀ {j c}, ({ s with telemetry }.unregister id).buffer? j = some c → s.buffer? j = some c := by
    intro j c hc
    rw [hbuf] at hc
    split at hc
    · cases hc
    · exact hc
  have hheld : ∀ j, ({ s with telemetry }.unregister id).held j = s.held j := by
    intro j
    by_cases heq : j = id
    · rw [held_of_none (by rw [hbuf, if_pos heq]), heq, h]
    · exact held_congr (by rw [hbuf, if_neg heq])
  refine ⟨⟨⟨fun hc => hs.named (hold hc), fun hc => hs.sound (hold hc)⟩, fun hc => hs.cleared (hold hc),
    hs.accepting⟩, fun j => ?_, fun j hj => ?_⟩
  · rw [ledger, ledger, hheld]
    rfl
  · rwa [hheld]

/-! ### Drains that go on -/

/-- Entering moves nothing. -/
theorem kept_enter (hs : s.Orderly) (id : BufferId) : Kept s (s.enter id) := by
  cases hb : s.buffer? id with
  | none =>
    have heq : s.enter id = s := by simp only [enter, hb]
    rw [heq]
    exact Kept.refl hs
  | some b =>
    obtain ⟨hsound, hkeeps, hheld, -⟩ := Buffer.enterDrain_kept (hs.sound hb)
    have hrep := replaces_enter hs.toSound hb
    have hname := hs.named hb
    have hlog : (s.enter id).log = s.log ∧ (s.enter id).replies = s.replies := by
      rw [enter_of_buffer? hb]
      exact ⟨rfl, rfl⟩
    refine Kept.of_same_held hs hrep hsound ?_ hlog.2 hlog.1 ?_
    · intro hnone
      rcases Buffer.enterDrain_cases (hs.sound hb) with ⟨heq, -⟩ | ⟨-, heq⟩
      · rw [heq] at hnone ⊢
        exact hs.cleared hb hnone
      · rw [heq] at hnone
        cases hnone
    · rw [hheld, hkeeps.id, hname]
      exact (held_of_buffer? hb).symm

/-- A consumer that fails on nothing takes the batch: it is logged, unless it is empty. -/
theorem answer_accepts (haccepting : ∀ reply ∈ s.replies, reply.accepted = true) (batch : Batch α) :
    (s.answer batch).2.accepted = true ∧ (∀ reply ∈ (s.answer batch).1.replies, reply.accepted = true) ∧
      ∀ id, (s.answer batch).1.delivered id = s.delivered id ++ if id = batch.buffer then batch.records else [] := by
  unfold answer
  split
  · rename_i hempty
    have hnil : batch.records = [] := List.isEmpty_iff.mp hempty
    exact ⟨rfl, haccepting, fun id => by simp [hnil]⟩
  · have hreply : (s.replies.headD {}).accepted = true := by
      cases hr : s.replies with
      | nil => rfl
      | cons reply rest => exact haccepting reply (by simp [hr])
    refine ⟨hreply, fun reply hr => haccepting reply (List.mem_of_mem_tail hr), fun id => ?_⟩
    by_cases heq : batch.buffer = id
    · simp only [delivered, List.filter_append, List.flatMap_append, hreply]
      simp [heq]
    · have hne : id ≠ batch.buffer := fun h => heq h.symm
      simp [delivered, heq, hne]

/-- The end of a drain moves its batch from what is held to what was delivered. -/
theorem kept_leave (hs : s.Orderly) (hb : s.buffer? b.id = some b) {batch : Batch α}
    (hd : b.drain = some { side := b.side.other, batch := some batch }) :
    Kept s (s.leave b batch).1 ∧ (s.leave b batch).2 = true := by
  obtain ⟨hreply, hreplies, hdelivered⟩ := answer_accepts hs.accepting batch
  have htrue : (s.leave b batch).2 = true := hreply
  have hrep := replaces_leave hs.toSound hb hd
  rw [htrue] at hrep
  obtain ⟨hsound, hkeeps, -, hbare, hbatch, hheld⟩ := Buffer.endDrain_kept (hs.sound hb) hd true
  refine ⟨Kept.of_replaces hs hrep hsound (fun _ => hbare rfl) hreplies batch.records (fun j => ?_) ?_, htrue⟩
  · rw [hkeeps.id, ← hbatch]
    exact hdelivered j
  · rw [hkeeps.id, held_of_buffer? hb, hheld]

/-- What the end of a drain keeps, and that its batch was delivered. -/
theorem kept_finish (hs : s.Orderly) (id : BufferId) : Kept s (s.finish id).1 ∧ (s.finish id).2 = true := by
  have henter := kept_enter hs id
  by_cases hbusy : ∃ b, s.buffer? id = some b ∧ b.isBusy = true
  · obtain ⟨b, hb, hbusy⟩ := hbusy
    obtain ⟨batch, hd, heq⟩ := finish_busy hs.toSound hb hbusy
    obtain ⟨hkept, htrue⟩ := kept_leave henter.orderly (replaces_enter hs.toSound hb).self hd
    rw [heq]
    exact ⟨henter.trans hkept, htrue⟩
  · rw [finish_idle hs.toSound fun b hb => Bool.eq_false_iff.mpr fun h => hbusy ⟨b, hb, h⟩]
    exact ⟨henter, rfl⟩

/-! ### Storing -/

/-- A stored record goes to the end of the ledger of its buffer. -/
theorem ledger_countStored (hs : s.Orderly) (hb : s.buffer? b.id = some b) {r : Record α}
    (hr : (b.push r).2 = true) :
    (s.countStored (b.push r).1).Orderly ∧
      ∀ id, (s.countStored (b.push r).1).ledger id = s.ledger id ++ if id = b.id then [r] else [] := by
  have hsound := hs.sound hb
  have hid : (b.push r).1.id = b.id := Buffer.push_id hsound r
  have hrep : Replaces s (s.countStored (b.push r).1) (b.push r).1 := by
    apply replaces_setBuffer
    show (s.lookup? (b.push r).1.id).isSome = true
    rw [hid]
    exact isSome_lookup? hb
  refine ⟨⟨hs.toSound.replaces hrep (Buffer.sound_push hsound r), fun hc => ?_, hs.accepting⟩, fun id => ?_⟩
  · exact hrep.cases (P := fun _ c => c.Cleared) (Buffer.cleared_push hsound (hs.cleared hb) r) hs.cleared hc
  · have hdelivered : (s.countStored (b.push r).1).delivered id = s.delivered id := rfl
    by_cases heq : id = b.id
    · subst heq
      have hself := hrep.self
      rw [hid] at hself
      rw [ledger, ledger, hdelivered, if_pos rfl, held_of_buffer? hself, Buffer.held_push hsound hr,
        held_of_buffer? hb, List.append_assoc]
    · rw [ledger, ledger, hdelivered, if_neg heq, List.append_nil, held_congr (hrep.other (by rwa [hid]))]

end Service

end PerfCounters
