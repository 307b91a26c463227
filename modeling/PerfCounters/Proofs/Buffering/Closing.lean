import PerfCounters.Proofs.Buffering.Refusals

/-! Calls that forget a buffer. Such a call drains both sides and gives up when the consumer fails on one of them. It has
    handed out everything even then: the side that it did not drain is bare, or holds only what was refused before. -/

namespace PerfCounters

variable {α : Type}

namespace Pending

variable {s s' : Service α} {stored : List (Record α)} {id : BufferId} {stage : Stage α}
  {result : Except BufferError Answer}

/-- How far a call has come that drains both sides of a buffer and forgets it, and what is left there: `rest` is `[id]`
for the first drain and empty for the second. -/
inductive Clears (s : Service α) (stored : List (Record α)) (id : BufferId) :
    Stage α → Except BufferError Answer → Prop where
  | retire {rest : List BufferId} (hid : id ∈ s.ids) (hrest : rest = [id] ∨ rest = [])
      (h : ∀ b, s.buffer? id = some b → rest = [] → b.drain = none ∧ b.retired.records = []) :
      Clears s stored id (.retire id rest (.forget id)) (.ok .done)
  | await {rest : List BufferId} (hid : id ∈ s.ids) (hrest : rest = [id] ∨ rest = [])
      (h : ∀ b, s.buffer? id = some b → ↑b.current.records ≤ s.refused id ∧ (rest = [] → b.current.records = []) ∧
        (b.drain = none → b.retired.records = [])) :
      Clears s stored id (.await id rest (.forget id)) (.ok .done)
  | emptied (hid : id ∈ s.ids) (h : ∀ b, s.buffer? id = some b → b.drain = none ∧ b.content = 0) :
      Clears s stored id (.reach (.forget id)) (.ok .done)
  | aborted (hid : id ∈ s.ids) (h : ∀ b, s.buffer? id = some b → b.drain = none ∧ b.content ≤ s.refused id) :
      Clears s stored id (.reach (.forget id)) (.error (.flushAborted id))
  | gone {result : Except BufferError Answer} (hgone : s.buffer? id = none)
      (hall : result = .ok .done → (stored : Multiset (Record α)) = s.delivered id) :
      Clears s stored id (.reach .answer) result

/-- Drains that go on and are not refused keep what is left in line with the stage. -/
theorem Clears.goes_on (h : Clears s stored id stage result) (hturned : Service.Turned s s' id) (hids : s'.ids = s.ids)
    (hrests : ∀ b b', s.buffer? id = some b → s'.buffer? id = some b' → b.Rests b') :
    Clears s' stored id stage result := by
  have hback : ∀ {b'}, s'.buffer? id = some b' → ∃ b, s.buffer? id = some b ∧ b.Rests b' := fun {b'} hb' => by
    cases hturned with
    | absent _ hnone => rw [hnone] at hb'; cases hb'
    | buffer hb => exact ⟨_, hb, hrests _ _ hb hb'⟩
  have hrefused : s.refused id ≤ s'.refused id := by
    unfold Service.refused
    cases hturned with
    | absent _ _ hlog => rw [hlog]
    | buffer _ _ _ hlog =>
      rw [hlog, Delivery.recordsOf_append]
      exact Multiset.le_add_right _ _
  cases h with
  | retire hid hrest h =>
    refine .retire (by rwa [hids]) hrest fun b' hb' hlast => ?_
    obtain ⟨b, hb, hcalm⟩ := hback hb'
    obtain rfl := hcalm.idle (h b hb hlast).1
    exact h b' hb hlast
  | await hid hrest h =>
    refine .await (by rwa [hids]) hrest fun b' hb' => ?_
    obtain ⟨b, hb, hcalm⟩ := hback hb'
    obtain ⟨hcurrent, hempty, hretired⟩ := h b hb
    rw [hcalm.current]
    refine ⟨le_trans hcurrent hrefused, hempty, fun hidle => ?_⟩
    rcases hcalm.ended hidle with rfl | hnil
    · exact hretired hidle
    · exact hnil
  | emptied hid h =>
    refine .emptied (by rwa [hids]) fun b' hb' => ?_
    obtain ⟨b, hb, hcalm⟩ := hback hb'
    obtain rfl := hcalm.idle (h b hb).1
    exact h b' hb
  | aborted hid h =>
    refine .aborted (by rwa [hids]) fun b' hb' => ?_
    obtain ⟨b, hb, hcalm⟩ := hback hb'
    obtain rfl := hcalm.idle (h b hb).1
    exact ⟨(h b' hb).1, le_trans (h b' hb).2 hrefused⟩
  | gone hgone hall =>
    cases hturned with
    | absent _ hnone hlog =>
      refine .gone hnone fun hok => ?_
      rw [hall hok, Service.delivered_eq, Service.delivered_eq, hlog]
    | buffer hb => rw [hgone] at hb; cases hb

theorem clears_receive (s : Service α) (stored : List (Record α)) (id : BufferId) :
    Clears (s.receive (.destroy id)).1 stored id (s.receive (.destroy id)).2.stage (s.receive (.destroy id)).2.result := by
  cases hlookup : s.lookup? id with
  | none =>
    simp only [Service.receive, hlookup]
    exact .gone (by rw [Service.buffer?, hlookup]; rfl) fun h => by cases h
  | some entry =>
    cases entry with
    | none =>
      simp only [Service.receive, hlookup]
      refine .emptied (Service.mem_ids_of_lookup? hlookup) fun b hb => ?_
      rw [Service.buffer?, hlookup] at hb
      cases hb
    | some b =>
      simp only [Service.receive, hlookup]
      exact .retire (Service.mem_ids_of_lookup? hlookup) (Or.inl rfl) fun _ _ h => by cases h

/-- The next step of a call that drains both sides. -/
theorem Clears.next {p : Pending α} (h : Clears s stored id p.stage p.result) (hs : s.Sound)
    (hheld : ∀ b, s.buffer? id = some b → (stored : Multiset (Record α)) = s.delivered id + b.content)
    (hseen : ∀ b, s.buffer? id = some b → b.drain = none → ↑b.retired.records ≤ s.refused id)
    (hunset : s.buffer? id = none → id ∈ s.ids → (stored : Multiset (Record α)) = s.delivered id) :
    Clears (p.next s).1 stored id (p.next s).2.stage (p.next s).2.result := by
  obtain ⟨call, stage, result⟩ := p
  have hkeep := h
  cases h with
  | @retire rest hid hrest h =>
    simp only [Pending.next]
    cases hb : s.buffer? id with
    | none => exact .await hid hrest fun b hb' => by rw [hb] at hb'; cases hb'
    | some b =>
      cases hbusy : b.isBusy with
      | true => simpa [hbusy] using hkeep
      | false =>
        have hidle : b.drain = none := by simpa [Buffer.isBusy] using hbusy
        obtain rfl := hs.named hb
        simp only [hbusy, Bool.false_eq_true, if_false]
        refine .await (by rwa [(Service.sameNumbers_start s b).1]) hrest fun b' hb' => ?_
        obtain rfl := Option.some.inj (hb'.symm.trans (Service.replaces_start hb).self)
        exact ⟨hseen b hb hidle, fun hlast => (h b hb hlast).2, fun h => by cases h⟩
  | @await rest hid hrest h =>
    simp only [Pending.next]
    -- The awaited drain is over: the second one is next, or both sides are empty.
    have hover : (∀ b, s.buffer? id = some b → b.drain = none) →
        Clears s stored id (Stage.drainEach rest (.forget id)) (.ok .done) := fun hidle => by
      rcases hrest with rfl | rfl
      · exact .retire hid (Or.inr rfl) fun b hb _ => ⟨hidle b hb, (h b hb).2.2 (hidle b hb)⟩
      · refine .emptied hid fun b hb => ⟨hidle b hb, ?_⟩
        obtain ⟨-, hcurrent, hretired⟩ := h b hb
        rw [b.content_eq, hcurrent rfl, hretired (hidle b hb)]
        rfl
    cases hb : s.buffer? id with
    | none => exact hover fun b hb' => by rw [hb] at hb'; cases hb'
    | some b =>
      cases hbusy : b.isBusy with
      | true => simpa [hbusy] using hkeep
      | false =>
        simp only [hbusy, Bool.false_eq_true, if_false]
        refine hover fun b' hb' => ?_
        obtain rfl := Option.some.inj (hb.symm.trans hb')
        simpa [Buffer.isBusy] using hbusy
  | emptied hid h =>
    simp only [Pending.next, Pending.forget]
    refine .gone (by rw [Service.buffer?_unregister, if_pos rfl]) fun _ => ?_
    show (stored : Multiset (Record α)) = s.delivered id
    cases hb : s.buffer? id with
    | none => exact hunset hb hid
    | some b => rw [hheld b hb, (h b hb).2, add_zero]
  | aborted hid h =>
    simp only [Pending.next, Pending.forget]
    exact .gone (by rw [Service.buffer?_unregister, if_pos rfl]) fun h => by cases h
  | gone => exact hkeep

/-- The drain in flight of the buffer ends with a refusal. If it was awaited the draining is over, and what is still held
was refused. -/
theorem Clears.refused {p : Pending α} {b : Buffer α} {batch : Batch α} (h : Clears s stored id p.stage p.result)
    (hs : s.Sound) (hfinishes : s.Finishes id b batch) (hrefused : (s.finish id).2 = false) :
    Clears (s.finish id).1 stored id (p.refused id).stage (p.refused id).result := by
  obtain ⟨call, stage, result⟩ := p
  have hids : (s.finish id).1.ids = s.ids := (Service.sameNumbers_finish s id).1
  have hb := hfinishes.buffer
  have hbusy : b.drain ≠ none := fun hidle => by
    have hentered := hfinishes.entered
    rw [Buffer.enterDrain_idle hidle, hidle] at hentered
    cases hentered
  cases h with
  | retire hid hrest h => exact .retire (by rwa [hids]) hrest fun _ _ hlast => absurd (h b hb hlast).1 hbusy
  | @await rest hid hrest h =>
    obtain ⟨hsound, hkeeps, -, -⟩ := Buffer.enterDrain_kept (hs.sound hb)
    obtain ⟨hbatch, hretired⟩ := Buffer.retired_endDrain hsound hfinishes.entered false
    obtain ⟨-, hkeeps', hidle, -⟩ := Buffer.endDrain_kept hsound hfinishes.entered false
    have hreach : (⟨call, .await id rest (.forget id), .ok .done⟩ : Pending α).refused id =
        ⟨call, .reach (.forget id), .error (.flushAborted id)⟩ := by
      rcases hrest with rfl | rfl <;> simp [Pending.refused, abort, Stage.drainEach]
    rw [hreach]
    refine .aborted (by rwa [hids]) fun b' hb' => ?_
    have hself := hfinishes.replaces.self
    rw [hrefused, hfinishes.named hs] at hself
    obtain rfl := Option.some.inj (hb'.symm.trans hself)
    refine ⟨hidle, ?_⟩
    have hhanded := hfinishes.handed id
    rw [hrefused, if_pos rfl] at hhanded
    rw [Buffer.content_eq, hretired, hkeeps'.current, hkeeps.current, Service.refused, hhanded,
      Delivery.recordsOf_append, Buffer.recordsOf_batch, hbatch, add_comm]
    exact add_le_add_left (h b hb).1 _
  | emptied _ h => exact absurd (h b hb).1 hbusy
  | aborted _ h => exact absurd (h b hb).1 hbusy
  | gone hgone => rw [hgone] at hb; cases hb

theorem rests_enter (hs : s.Sound) (target id : BufferId) (b b' : Buffer α) (hb : s.buffer? id = some b)
    (hb' : (s.enter target).buffer? id = some b') : b.Rests b' := by
  by_cases hid : id = target
  · rw [← hid, Service.buffer?_enter hs hb] at hb'
    cases hb'
    exact Buffer.rests_enterDrain (hs.sound hb)
  · rw [Service.buffer?_enter_of_ne hs hid, hb] at hb'
    cases hb'
    exact .refl b

/-- A drain of another buffer ends, or one of this buffer with a batch that is accepted. -/
theorem rests_finish (hs : s.Sound) {target id : BufferId} (h : id = target → (s.finish target).2 = true) (b b' : Buffer α)
    (hb : s.buffer? id = some b) (hb' : (s.finish target).1.buffer? id = some b') : b.Rests b' := by
  by_cases hid : id = target
  · subst hid
    rcases Service.finish_cases hs id with ⟨heq, -⟩ | ⟨c, batch, hfinishes⟩
    · rw [heq] at hb'
      exact rests_enter hs id id b b' hb hb'
    · obtain rfl := Option.some.inj (hb.symm.trans hfinishes.buffer)
      have hself := hfinishes.replaces.self
      rw [h rfl, hfinishes.named hs, hb'] at hself
      cases hself
      exact Buffer.rests_endDrain (hs.sound hb) hfinishes.entered
  · rw [Service.buffer?_finish_of_ne hs hid, hb] at hb'
    cases hb'
    exact .refl b

/-- A drain ends, and the call goes on as it has to. -/
theorem Clears.finish {p : Pending α} (h : Clears s stored id p.stage p.result) (hs : s.Sound) (target : BufferId) :
    Clears (s.finish target).1 stored id (if (s.finish target).2 then p else p.refused target).stage
      (if (s.finish target).2 then p else p.refused target).result := by
  have hgoes_on : (id = target → (s.finish target).2 = true) → Clears (s.finish target).1 stored id p.stage p.result :=
    fun hnot => h.goes_on (.finish hs target id) (Service.sameNumbers_finish s target).1 (rests_finish hs hnot)
  cases hdelivered : (s.finish target).2 with
  | true => exact hgoes_on fun _ => hdelivered
  | false =>
    simp only [Bool.false_eq_true, if_false]
    by_cases hid : id = target
    · subst hid
      rcases Service.finish_cases hs id with ⟨heq, -⟩ | ⟨b, batch, hfinishes⟩
      · rw [heq] at hdelivered
        cases hdelivered
      · exact h.refused hs hfinishes hdelivered
    · have hsame : p.refused target = p := by
        rcases p.refused_cases target with heq | ⟨rest, goal, hstage, -⟩
        · exact heq
        · rw [hstage] at h
          generalize p.result = result at h
          cases h
          exact absurd rfl hid
      rw [hsame]
      exact hgoes_on fun heq => absurd heq hid

theorem next_call (hs : s.Sound) (p : Pending α) : (p.next s).2.call = p.call := by
  have hadv := Service.advance_next hs p
  generalize p.next s = next at hadv
  cases hadv with
  | work _ hcall => exact hcall
  | refused | forget | store | drop => rfl

end Pending

namespace Session

variable {s s' : Session α} {p p' : Pending α} {id : BufferId}

/-- What every event keeps of the buffers that are gone, and of the call that forgets one. -/
structure Closing (s : Session α) : Prop where
  gone : ∀ id, s.service.buffer? id = none → (s.stored id : Multiset (Record α)) ≤ s.service.passed id
  clears : ∀ {p id}, s.pending = some p → p.call = .destroy id → Pending.Clears s.service (s.stored id) id p.stage p.result
  returned : ∀ {id result}, s.Returned (.destroy id) result → s.service.buffer? id = none ∧
    (result = .ok .done → (s.stored id : Multiset (Record α)) = s.service.delivered id)

theorem Closing.gone_step (h : s.Closing) (haccounted : s.Accounted) (hregular : s.Regular) (e : Event α) :
    (s.step e).service.buffer? id = none → ((s.step e).stored id : Multiset (Record α)) ≤ (s.step e).service.passed id := by
  intro hnone
  cases (hregular.happens e).changes hregular.sound id with
  | turned hturned hsame =>
    cases hturned with
    | absent hb _ hlog =>
      rw [stored_congr hsame, Service.passed, hlog]
      exact h.gone id hb
    | buffer _ hb' => rw [hb'] at hnone; cases hnone
  | configured hnew =>
    obtain ⟨settings, handles, -, hb', -⟩ := hnew.buffer
    rw [hb'] at hnone
    cases hnone
  | forgotten hstage _ _ hsame hlog =>
    obtain ⟨p, hp, hstage⟩ := hstage
    rw [stored_congr hsame, Service.passed, hlog]
    cases hb : s.service.buffer? id with
    | none => exact h.gone id hb
    | some b =>
      -- What the forgotten buffer still held was refused.
      have hcall := (hregular.prompt p hp).destroys (by rw [hstage]; rfl)
      have hle : b.content ≤ s.service.refused id := by
        have hclears := h.clears hp hcall
        rw [hstage] at hclears
        generalize p.result = result at hclears
        cases hclears with
        | emptied _ h =>
          rw [(h b hb).2]
          exact Multiset.zero_le _
        | aborted _ h => exact (h b hb).2
      show (s.stored id : Multiset (Record α)) ≤ s.service.passed id
      rw [Service.passed_eq, haccounted.held hb]
      exact add_le_add_right hle _
  | stored _ _ hb' => rw [hb'] at hnone; cases hnone
  | dropped _ _ _ hb' => rw [hb'] at hnone; cases hnone

/-- A call that forgets a buffer stores no record. -/
theorem stored_destroying {service : Service α} {target : BufferId} (hp : ∀ q ∈ s.pending, q.call = .destroy target)
    (hp' : p'.call = .destroy target) (id : BufferId) :
    ({ s with service, pending := some p' } : Session α).stored id = s.stored id := by
  refine stored_congr ?_
  rw [emplaced_eq, emplaced_eq]
  simp only [Option.bind_some, hp', emplacedBy?]
  cases hq : s.pending with
  | none => rfl
  | some q => simp [hp q hq, emplacedBy?]

theorem Closing.advance (h : s.Closing) (haccounted : s.Accounted) (hregular : s.Regular) (huntouched : s.Untouched)
    (hp : s.pending = some p) (hcall : p.call = .destroy id) :
    Pending.Clears (p.next s.service).1 (s.stored id) id (p.next s.service).2.stage (p.next s.service).2.result := by
  refine (h.clears hp hcall).next hregular.sound (fun b hb => haccounted.held hb) (fun b hb => haccounted.seen hb)
    fun hb hid => ?_
  obtain ⟨hnothing, hunhanded⟩ := huntouched id hb (Or.inl hid)
  rw [stored_eq_kept, hnothing, Service.delivered_eq, hunhanded]
  rfl

theorem Closing.clears_step (h : s.Closing) (haccounted : s.Accounted) (hregular : s.Regular) (huntouched : s.Untouched)
    (e : Event α) (hp' : (s.step e).pending = some p') (hcall : p'.call = .destroy id) :
    Pending.Clears (s.step e).service ((s.step e).stored id) id p'.stage p'.result := by
  cases e with
  | begin call =>
    simp only [Session.step, Session.begin] at hp' ⊢
    cases hp : s.pending with
    | some p =>
      simp only [hp] at hp' ⊢
      exact h.clears (hp.trans hp') hcall
    | none =>
      simp only [hp, Option.some.injEq] at hp' ⊢
      subst hp'
      have hcall' : call = .destroy id := (Service.receive_fresh s.service call).1.symm.trans hcall
      subst hcall'
      rw [stored_destroying (by simp [hp]) hcall]
      exact Pending.clears_receive s.service _ id
  | advance =>
    simp only [Session.step] at hp' ⊢
    cases hp : s.pending with
    | none =>
      rw [advance_idle hp, hp] at hp'
      cases hp'
    | some p =>
      rcases advance_cases hp with ⟨-, heq⟩ | heq
      · rw [heq] at hp'
        cases hp'
      · rw [heq] at hp' ⊢
        cases hp'
        have hcall' : p.call = .destroy id := (Pending.next_call hregular.sound p).symm.trans hcall
        have hold : ∀ q ∈ s.pending, q.call = .destroy id := fun q hq => by rw [hp] at hq; cases hq; exact hcall'
        rw [stored_destroying hold hcall]
        exact h.advance haccounted hregular huntouched hp hcall'
  | enter target =>
    exact (h.clears hp' hcall).goes_on (.enter hregular.sound target id) (Service.sameNumbers_enter s.service target).1
      (Pending.rests_enter hregular.sound target id)
  | finish target =>
    simp only [Session.step] at hp' ⊢
    cases hp : s.pending with
    | none =>
      rw [finish_idle hp] at hp'
      rw [hp] at hp'
      cases hp'
    | some p =>
      rw [finish_under hp] at hp' ⊢
      cases hp'
      have hcall' : p.call = .destroy id := by
        rw [← hcall]
        split <;> simp
      have hold : ∀ q ∈ s.pending, q.call = .destroy id := fun q hq => by rw [hp] at hq; cases hq; exact hcall'
      rw [stored_destroying hold hcall]
      exact (h.clears hp hcall').finish hregular.sound target

theorem stored_returned {history : List (Call α × Except BufferError Answer)} (hp : s.pending = some p)
    (hhistory : history = s.history ++ [(p.call, p.result)]) (id : BufferId) :
    ({ s with history, pending := none } : Session α).stored id = s.stored id := by
  unfold stored outcomes
  rw [hp, hhistory]
  simp

/-- A number without a buffer is left as it is by drains that go on. -/
theorem Closing.returned_turned (h : s.Closing) {service : Service α} (hturned : Service.Turned s.service service id)
    {result : Except BufferError Answer} (hreturned : s.Returned (.destroy id) result) : service.buffer? id = none ∧
      (result = .ok .done → (s.stored id : Multiset (Record α)) = service.delivered id) := by
  obtain ⟨hgone, hall⟩ := h.returned hreturned
  cases hturned with
  | absent _ hnone hlog =>
    refine ⟨hnone, fun hok => ?_⟩
    rw [hall hok, Service.delivered_eq, Service.delivered_eq, hlog]
  | buffer hb => rw [hgone] at hb; cases hb

theorem Closing.returned_step (h : s.Closing) (hregular : s.Regular) (e : Event α) {result : Except BufferError Answer}
    (hreturned : (s.step e).Returned (.destroy id) result) : (s.step e).service.buffer? id = none ∧
      (result = .ok .done → ((s.step e).stored id : Multiset (Record α)) = (s.step e).service.delivered id) := by
  cases e with
  | begin call =>
    simp only [Session.step, Session.begin] at hreturned ⊢
    cases hp : s.pending with
    | some p =>
      simp only [hp] at hreturned ⊢
      exact h.returned hreturned
    | none =>
      simp only [hp] at hreturned
      cases hreturned.1
  | advance =>
    simp only [Session.step] at hreturned ⊢
    cases hp : s.pending with
    | none =>
      rw [advance_idle hp] at hreturned ⊢
      exact h.returned hreturned
    | some p =>
      rcases advance_cases hp with ⟨hstage, heq⟩ | heq
      · rw [heq] at hreturned ⊢
        have hlast := hreturned.2
        simp only [List.getLast?_append, List.getLast?_singleton, Option.some_or, Option.some.injEq,
          Prod.mk.injEq] at hlast
        obtain ⟨hcall, rfl⟩ := hlast
        have hclears := h.clears hp hcall
        rw [hstage] at hclears
        rw [stored_returned hp rfl]
        cases hclears with
        | gone hgone hall => exact ⟨hgone, hall⟩
      · rw [heq] at hreturned
        cases hreturned.1
  | enter target => exact h.returned_turned (.enter hregular.sound target id) hreturned
  | finish target =>
    simp only [Session.step] at hreturned ⊢
    cases hp : s.pending with
    | none =>
      rw [finish_idle hp] at hreturned ⊢
      exact h.returned_turned (.finish hregular.sound target id) hreturned
    | some p =>
      rw [finish_under hp] at hreturned
      cases hreturned.1

/-! ### Runs -/

/-- All that a run keeps. -/
structure Kept (s : Session α) : Prop where
  regular : s.Regular
  untouched : s.Untouched
  accounted : s.Accounted
  closing : s.Closing

theorem kept_ofReplies (replies : List Reply) : (ofReplies replies : Session α).Kept :=
  ⟨regular_ofReplies replies, untouched_ofReplies replies, ⟨fun h => (by cases h), fun h => (by cases h)⟩,
    ⟨fun _ _ => Multiset.zero_le _, fun h => (by cases h), fun h => (by cases h.2)⟩⟩

theorem Kept.step (h : s.Kept) (e : Event α) : (s.step e).Kept :=
  ⟨h.regular.step e, h.untouched.step h.regular e, h.accounted.step h.regular h.untouched e,
    ⟨fun _ => h.closing.gone_step h.accounted h.regular e, h.closing.clears_step h.accounted h.regular h.untouched e,
      h.closing.returned_step h.regular e⟩⟩

theorem Kept.run (h : s.Kept) (events : List (Event α)) : (s.run events).Kept := run_keeps Kept.step h events

/-- Whatever the consumer answers, nothing is lost or repeated: while no drain of a buffer is in flight, what was stored
in it is what was delivered and what its sides hold. A call that forgets it returns when each record has been handed
out, and when each has been delivered if it returns without an error. -/
theorem run_accounts_for_records (replies : List Reply) (events : List (Event α)) :
    let s := (ofReplies replies : Session α).run events
    (∀ id b, s.service.buffer? id = some b → b.drain = none →
        (s.stored id : Multiset (Record α)) = s.service.delivered id + (b.left.records + b.right.records)) ∧
      (∀ id, s.Returned (.destroy id) (.ok .done) ∨ s.Returned (.destroy id) (.error (.flushAborted id)) →
        (s.stored id : Multiset (Record α)) ≤ s.service.passed id) ∧
      ∀ id, s.Returned (.destroy id) (.ok .done) → (s.stored id : Multiset (Record α)) = s.service.delivered id := by
  have h : ((ofReplies replies : Session α).run events).Kept := (kept_ofReplies replies).run events
  refine ⟨fun id b hb _ => h.accounted.held hb, fun id hreturned => ?_, fun id hreturned =>
    (h.closing.returned hreturned).2 rfl⟩
  rcases hreturned with hreturned | hreturned
  · exact h.closing.gone id (h.closing.returned hreturned).1
  · exact h.closing.gone id (h.closing.returned hreturned).1

/-- Two records are stored, before and after a flush on whose batch the consumer fails. -/
def storedAroundFailure : List (Event Nat) :=
  [.begin .allocate, .advance, .begin (.configure 1 ⟨"", 0, 16, 0, .lossless, 0⟩), .advance,
    .begin (.emplace 1 ⟨3, 5, ⟨"u64", 8, 8⟩, 1⟩), .advance, .advance, .advance, .begin (.flush 1 true), .advance, .enter 1,
    .finish 1, .advance, .begin (.emplace 1 ⟨3, 5, ⟨"u64", 8, 8⟩, 2⟩), .advance, .advance, .advance]

/-- The buffer is destroyed, for which both of its sides are drained. -/
def destroyedAfterFailure : List (Event Nat) :=
  storedAroundFailure ++ [.begin (.destroy 1), .advance, .finish 1, .advance, .advance, .finish 1, .advance, .advance,
    .advance]

theorem accounts_for_destroyedAfterFailure :
    let r : Nat → Record Nat := fun n => ⟨3, 5, ⟨"u64", 8, 8⟩, n⟩
    let before := (ofReplies [⟨false, 0⟩] : Session Nat).run storedAroundFailure
    let after := (ofReplies [⟨false, 0⟩] : Session Nat).run destroyedAfterFailure
    let aborted := (ofReplies [⟨false, 0⟩, ⟨false, 0⟩] : Session Nat).run destroyedAfterFailure
    (∃ b, before.service.buffer? 1 = some b ∧ b.drain = none ∧
        (↑[r 1, r 2] : Multiset (Record Nat)) = before.service.delivered 1 + (b.left.records + b.right.records)) ∧
      (after.Returned (.destroy 1) (.ok .done) ∧ (↑[r 1, r 2] : Multiset (Record Nat)) = after.service.delivered 1) ∧
      aborted.Returned (.destroy 1) (.error (.flushAborted 1)) ∧
        (↑[r 1, r 2] : Multiset (Record Nat)) ≤ aborted.service.passed 1 := by
  intro r before after aborted
  have hidle : (before.service.buffer? 1).map Buffer.isBusy = some false := by decide +kernel
  obtain ⟨b, hb, hbusy⟩ := Option.map_eq_some_iff.mp hidle
  have hd : b.drain = none := by simpa [Buffer.isBusy] using hbusy
  have hafter : after.Returned (.destroy 1) (.ok .done) :=
    ⟨Option.isNone_iff_eq_none.mp (by decide +kernel), by decide +kernel⟩
  have haborted : aborted.Returned (.destroy 1) (.error (.flushAborted 1)) :=
    ⟨Option.isNone_iff_eq_none.mp (by decide +kernel), by decide +kernel⟩
  have hbefore := (run_accounts_for_records [⟨false, 0⟩] storedAroundFailure).1 1 b hb hd
  have hall := (run_accounts_for_records [⟨false, 0⟩] destroyedAfterFailure).2.2 1 hafter
  have hpassed := (run_accounts_for_records [⟨false, 0⟩, ⟨false, 0⟩] destroyedAfterFailure).2.1 1 (Or.inr haborted)
  rw [show before.stored 1 = [r 1, r 2] by decide +kernel] at hbefore
  rw [show after.stored 1 = [r 1, r 2] by decide +kernel] at hall
  rw [show aborted.stored 1 = [r 1, r 2] by decide +kernel] at hpassed
  exact ⟨⟨b, hb, hd, hbefore⟩, ⟨hafter, hall⟩, haborted, hpassed⟩

end Session

end PerfCounters
