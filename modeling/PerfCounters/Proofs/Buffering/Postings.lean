import PerfCounters.Proofs.Buffering.Outcomes
import PerfCounters.Proofs.Telemetry.Postings

/-! What a session posts to telemetry, event by event: a buffer that is made takes its series, a record that is stored
    or dropped and a drain that is delivered are tallied in the series of their buffer, and a buffer that is forgotten
    removes its label if all of it was delivered. Nothing else touches telemetry. -/

namespace PerfCounters

open Service

variable {α : Type}

namespace Buffer

variable {b b' : Buffer α}

@[simp] theorem modifyStore_handles (b : Buffer α) (side : Side) (f : RecordBuffer α → RecordBuffer α) :
    (b.modifyStore side f).handles = b.handles := by
  cases side <;> rfl

theorem handles_enterDrain (b : Buffer α) : b.enterDrain.handles = b.handles := by
  unfold enterDrain
  split
  · exact modifyStore_handles _ _ _
  · rfl

theorem handles_endDrain (b : Buffer α) (delivered : Bool) : (b.endDrain delivered).handles = b.handles := by
  unfold endDrain
  split
  · rfl
  · exact modifyStore_handles _ _ _

@[simp] theorem push_handles (b : Buffer α) (r : Record α) : (b.push r).1.handles = b.handles := modifyStore_handles _ _ _

theorem Turns.handles {ds : List (Delivery α)} (h : b.Turns b' ds) : b'.handles = b.handles := by
  cases h with
  | rest | start => rfl
  | enter => exact handles_enterDrain b
  | finish accepted hd => rw [handles_endDrain, handles_enterDrain]

/-- The buffers count in the same series, under the same label. -/
structure CountsAs (b b' : Buffer α) : Prop where
  label : b'.label = b.label
  handles : b'.handles = b.handles

theorem CountsAs.trans {b'' : Buffer α} (h : b.CountsAs b') (h' : b'.CountsAs b'') : b.CountsAs b'' :=
  ⟨h'.label.trans h.label, h'.handles.trans h.handles⟩

theorem lasting_countsAs (b : Buffer α) : Lasting b.CountsAs where
  turns h hs hturns :=
    ⟨by rw [Buffer.label, hturns.id hs, hturns.settings hs]; exact h.label, hturns.handles.trans h.handles⟩
  push h hs r :=
    ⟨by rw [Buffer.label, push_id hs r, push_settings hs r]; exact h.label, (push_handles _ r).trans h.handles⟩
  drop h := ⟨h.label, h.handles⟩

/-- What is tallied when a record comes to the buffer; nothing when it has to wait for room. -/
def tallyOf? (b : Buffer α) (r : Record α) : Option Tally :=
  match (b.push r).2, b.settings.policy with
  | true, _ => some .stored
  | false, .discard => some .dropped
  | false, .lossless => none

end Buffer

namespace Pending

/-- What the next step of a call posts. -/
def posting? (p : Pending α) (s : Service α) : Option Posting :=
  match p.stage with
  | .reach (.store id r) => (s.buffer? id).bind fun b => (b.tallyOf? r).map (.tallied id b.handles)
  | .reach (.forget id) =>
    match s.buffer? id, p.result with
    | some b, .ok _ => some (.removed b.label)
    | _, _ => none
  | _ => none

end Pending

namespace Service

/-- What the end of a drain posts, which is nothing if its batch was refused. -/
def drained? (s : Service α) (id : BufferId) : Option Posting := do
  let b ← s.buffer? id
  let batch ← b.enterDrain.delivering?
  let reply := ((s.enter id).answer batch).2
  if reply.accepted then some (.tallied id b.handles (.drained batch.records.length reply.seconds)) else none

end Service

/-- The sizes of the batches of a buffer that the consumer took, oldest first. -/
def Service.taken (s : Service α) (id : BufferId) : List Nat :=
  ((s.handed id).filter Delivery.accepted).map fun d => d.batch.records.length

/-- The size of the batch that a drain delivered; a drain without records hands none to the consumer. -/
def Tally.size? : Tally → Option Nat
  | .drained size _ => if size = 0 then none else some size
  | .stored | .dropped => none

/-- What became of the record that is tallied. -/
def Tally.outcome? : Tally → Option Outcome
  | .stored => some .stored
  | .dropped => some .dropped
  | .drained _ _ => none

/-- The tally, if it comes from this buffer. -/
def Posting.tallyBy? (id : BufferId) : Posting → Option Tally
  | .tallied target _ n => if target = id then some n else none
  | .made _ | .removed _ => none

namespace Session

/-- What an event posts. -/
def posting? (s : Session α) : Event α → Option Posting
  | .begin (.configure id settings) =>
    match s.pending, (s.service.configure id settings).2 with
    | none, .ok () => some (.made (settings.label id))
    | _, _ => none
  | .begin _ | .enter _ => none
  | .advance => s.pending.bind fun p => p.posting? s.service
  | .finish id => s.service.drained? id

/-- What is posted in a run, the first posting first. -/
def postings (s : Session α) : List (Event α) → List Posting
  | [] => []
  | e :: events => (s.posting? e).toList ++ (s.step e).postings events

end Session

/-! ### Steps that post nothing -/

namespace Service

variable {s s' : Service α} {b : Buffer α} {id : BufferId}

/-- Nothing is posted, and the consumer is handed nothing. -/
structure Silent (s s' : Service α) : Prop where
  telemetry : s'.telemetry = s.telemetry
  log : s'.log = s.log

theorem Silent.refl (s : Service α) : s.Silent s := ⟨rfl, rfl⟩

@[simp] theorem telemetry_setBuffer (s : Service α) (b : Buffer α) : (s.setBuffer b).telemetry = s.telemetry := rfl

theorem silent_kick (s : Service α) (b : Buffer α) : s.Silent (s.flushBuffer b false).1 := by
  simp only [flushBuffer, Bool.false_eq_true, if_false]
  split <;> exact ⟨rfl, rfl⟩

theorem silent_checkWatermark (s : Service α) (b : Buffer α) : s.Silent (s.checkWatermark b) := by
  unfold checkWatermark
  split
  · exact silent_kick s b
  · exact .refl s

theorem silent_enter (s : Service α) (id : BufferId) : s.Silent (s.enter id) := by
  unfold enter
  split <;> exact ⟨rfl, rfl⟩

theorem silent_receive (s : Service α) {call : Call α} (h : ∀ id settings, call ≠ .configure id settings) :
    s.Silent (s.receive call).1 := by
  cases call with
  | allocate => exact ⟨rfl, rfl⟩
  | configure id settings => exact absurd rfl (h id settings)
  | emplace id r =>
    simp only [receive]
    split
    · exact .refl s
    · split <;> exact .refl s
  | flush id wait =>
    cases wait with
    | true =>
      simp only [receive, if_true]
      split <;> exact .refl s
    | false =>
      simp only [receive, Bool.false_eq_true, if_false, flush]
      split
      · exact .refl s
      · exact silent_kick s _
  | flushAll order wait => cases wait <;> exact .refl s
  | destroy id =>
    simp only [receive]
    split <;> exact .refl s

theorem silent_next (s : Service α) {p : Pending α} (h : ∀ goal, p.stage = .reach goal → goal = .answer) :
    s.Silent (p.next s).1 := by
  unfold Pending.next
  split
  · exact .refl s
  · rename_i hstage
    cases h _ hstage
  · rename_i hstage
    cases h _ hstage
  · split
    · exact .refl s
    · exact silent_checkWatermark s _
  · exact .refl s
  · split
    · exact .refl s
    · exact silent_kick s _
  · split
    · exact .refl s
    · split
      · exact .refl s
      · exact ⟨rfl, rfl⟩
  · split
    · exact .refl s
    · split <;> exact .refl s

/-! ### What is posted -/

/-- Making a buffer posts that its series were made. -/
theorem configure_posts (s : Service α) (id : BufferId) (settings : Settings) :
    (s.configure id settings).1.log = s.log ∧
      ((s.configure id settings).2 = .ok () ∧
          (s.configure id settings).1.telemetry = s.telemetry.post (.made (settings.label id)) ∨
        (∃ e, (s.configure id settings).2 = .error e) ∧ (s.configure id settings).1.telemetry = s.telemetry) := by
  unfold configure
  split
  · exact ⟨rfl, Or.inr ⟨⟨_, rfl⟩, rfl⟩⟩
  · split
    · exact ⟨rfl, Or.inr ⟨⟨_, rfl⟩, rfl⟩⟩
    · exact ⟨rfl, Or.inr ⟨⟨_, rfl⟩, rfl⟩⟩
    · exact ⟨rfl, Or.inl ⟨rfl, rfl⟩⟩

@[simp] theorem telemetry_answer (s : Service α) (batch : Batch α) : (s.answer batch).1.telemetry = s.telemetry := by
  unfold answer
  split <;> rfl

theorem Finishes.eq_leave {batch : Batch α} (h : s.Finishes id b batch) (hs : s.Sound) :
    s.finish id = (s.enter id).leave b.enterDrain batch := by
  simp only [finish, buffer?_enter hs h.buffer, Buffer.delivering?, h.entered, Option.bind_some]

theorem Finishes.taken {batch : Batch α} (h : s.Finishes id b batch) (j : BufferId) :
    (s.finish id).1.taken j = s.taken j ++ if j = id then
      (if batch.records.isEmpty then [] else if (s.finish id).2 then [batch.records.length] else []) else [] := by
  rw [Service.taken, h.handed, List.filter_append, List.map_append, ← Service.taken]
  congr 1
  split
  · split
    · rfl
    · cases (s.finish id).2 <;> rfl
  · rfl

/-- The consumer's answer to the batch decides what is posted. -/
theorem Finishes.posts {batch : Batch α} (h : s.Finishes id b batch) (hs : s.Sound) :
    ∃ seconds, s.drained? id =
        (if (s.finish id).2 then some (.tallied id b.handles (.drained batch.records.length seconds)) else none) ∧
      (s.finish id).1.telemetry =
        if (s.finish id).2 then s.telemetry.tally b.handles (.drained batch.records.length seconds) else s.telemetry := by
  have hdelivering : b.enterDrain.delivering? = some batch := by
    simp only [Buffer.delivering?, h.entered, Option.bind_some]
  have htelemetry := (silent_enter s id).telemetry
  rw [h.eq_leave hs]
  refine ⟨((s.enter id).answer batch).2.seconds, ?_, ?_⟩
  · simp only [drained?, h.buffer, hdelivering, Option.bind_eq_bind, Option.bind_some]
    rfl
  · simp only [leave, telemetry_setBuffer, telemetry_answer, htelemetry, Buffer.handles_enterDrain]
    rfl

/-- What the end of a drain posts is that its batch was taken; nothing is posted where no drain is in flight. -/
theorem drained?_cases (hs : s.Sound) (id : BufferId) :
    (s.drained? id = none ∧ (s.finish id).1.telemetry = s.telemetry ∧ ∀ j, (s.finish id).1.taken j = s.taken j) ∨
      ∃ b n seconds, s.buffer? id = some b ∧ s.drained? id = some (.tallied id b.handles (.drained n seconds)) ∧
        (s.finish id).1.telemetry = s.telemetry.tally b.handles (.drained n seconds) ∧
        ∀ j, (s.finish id).1.taken j = s.taken j ++ if j = id then (Tally.drained n seconds).size?.toList else [] := by
  rcases finish_cases hs id with ⟨heq, hidle⟩ | ⟨b, batch, h⟩
  · refine Or.inl ⟨?_, by rw [heq]; exact (silent_enter s id).telemetry, fun j => by rw [heq, taken, taken, handed_enter]⟩
    unfold drained?
    cases hb : s.buffer? id with
    | none => rfl
    | some b =>
      have hnone : b.enterDrain.delivering? = none := by
        simp only [Buffer.delivering?, Buffer.enterDrain, hidle b hb, Option.bind_none]
      simp only [Option.bind_eq_bind, Option.bind_some, hnone, Option.bind_none]
  · obtain ⟨seconds, hdrained, htelemetry⟩ := h.posts hs
    have htaken := h.taken
    cases haccepted : (s.finish id).2 with
    | false =>
      rw [haccepted] at hdrained htelemetry htaken
      exact Or.inl ⟨hdrained, htelemetry, fun j => by rw [htaken]; simp⟩
    | true =>
      rw [haccepted] at hdrained htelemetry htaken
      refine Or.inr ⟨b, batch.records.length, seconds, h.buffer, hdrained, htelemetry, fun j => ?_⟩
      rw [htaken]
      cases batch.records <;> simp [Tally.size?]

end Service

/-! ### What an event posts -/

namespace Pending

/-- Only storing its record changes what a call will return. -/
theorem next_result (p : Pending α) (s : Service α) (h : ∀ id r, p.stage ≠ .reach (.store id r)) :
    (p.next s).2.call = p.call ∧ (p.next s).2.result = p.result := by
  unfold Pending.next
  split
  · exact ⟨rfl, rfl⟩
  · rename_i hstage
    exact absurd hstage (h _ _)
  · exact ⟨rfl, rfl⟩
  · split <;> exact ⟨rfl, rfl⟩
  · exact ⟨rfl, rfl⟩
  · split <;> exact ⟨rfl, rfl⟩
  · split
    · exact ⟨rfl, rfl⟩
    · split <;> exact ⟨rfl, rfl⟩
  · split
    · exact ⟨rfl, rfl⟩
    · split <;> exact ⟨rfl, rfl⟩

end Pending

namespace Session

variable {s s' s'' : Session α} {p : Pending α} {id : BufferId} {xs ys : List Posting}

/-- From one state to the other this was posted, and nothing else: every record that was stored or dropped, and every
batch that was taken, is tallied once. -/
structure Posts (s s' : Session α) (xs : List Posting) : Prop where
  telemetry : s'.service.telemetry = s.service.telemetry.postAll xs
  outcomes : ∀ id, (s'.emplaced id).map Prod.snd =
    (s.emplaced id).map Prod.snd ++ xs.filterMap fun x => (x.tallyBy? id).bind Tally.outcome?
  taken : ∀ id, s'.service.taken id = s.service.taken id ++ xs.filterMap fun x => (x.tallyBy? id).bind Tally.size?

/-- Nothing is tallied, and no record or batch has gone anywhere. -/
theorem Posts.of_untallied (htelemetry : s'.service.telemetry = s.service.telemetry.postAll xs)
    (hxs : ∀ x ∈ xs, ∀ id, x.tallyBy? id = none) (hsame : ∀ id, s'.emplaced id = s.emplaced id)
    (hlog : s'.service.log = s.service.log) : s.Posts s' xs := by
  have hnone : ∀ {β : Type} (f : Tally → Option β) id, xs.filterMap (fun x => (x.tallyBy? id).bind f) = [] :=
    fun f id => List.filterMap_eq_nil_iff.mpr fun x hx => by rw [hxs x hx id, Option.bind_none]
  exact ⟨htelemetry, fun id => by rw [hsame, hnone, List.append_nil],
    fun id => by rw [Service.taken, handed_congr hlog, hnone, List.append_nil, Service.taken]⟩

theorem filterMap_tallied {β : Type} (f : Tally → Option β) (handles : SeriesHandles) (n : Tally) (j : BufferId) :
    [Posting.tallied id handles n].filterMap (fun x => (x.tallyBy? j).bind f) = if j = id then (f n).toList else [] := by
  by_cases hj : j = id
  · cases hf : f n <;> simp [Posting.tallyBy?, hj, hf]
  · simp [Posting.tallyBy?, hj, Ne.symm hj]

/-- One buffer tallied what has become of a record or a batch of its own. -/
theorem Posts.of_tallied {handles : SeriesHandles} {n : Tally}
    (htelemetry : s'.service.telemetry = s.service.telemetry.tally handles n)
    (houtcomes : ∀ j, (s'.emplaced j).map Prod.snd =
      (s.emplaced j).map Prod.snd ++ if j = id then n.outcome?.toList else [])
    (htaken : ∀ j, s'.service.taken j = s.service.taken j ++ if j = id then n.size?.toList else []) :
    s.Posts s' [.tallied id handles n] :=
  ⟨htelemetry, fun j => by rw [filterMap_tallied, houtcomes], fun j => by rw [filterMap_tallied, htaken]⟩

theorem Posts.of_silent (h : s.service.Silent s'.service) (hsame : ∀ id, s'.emplaced id = s.emplaced id) :
    s.Posts s' [] :=
  .of_untallied h.telemetry (fun _ h => by cases h) hsame h.log

theorem Posts.trans (h : s.Posts s' xs) (h' : s'.Posts s'' ys) : s.Posts s'' (xs ++ ys) where
  telemetry := by rw [h'.telemetry, h.telemetry, Telemetry.postAll_append]
  outcomes id := by rw [h'.outcomes, h.outcomes, List.filterMap_append, List.append_assoc]
  taken id := by rw [h'.taken, h.taken, List.filterMap_append, List.append_assoc]

theorem posts_begin (s : Session α) (call : Call α) : s.Posts (s.begin call) (s.posting? (.begin call)).toList := by
  cases hp : s.pending with
  | some p =>
    have hnone : s.posting? (.begin call) = none := by cases call <;> simp [posting?, hp]
    have heq : s.begin call = s := by simp only [Session.begin, hp]
    rw [hnone, heq]
    exact .of_silent (.refl _) fun _ => rfl
  | none =>
    have hservice : (s.begin call).service = (s.service.receive call).1 := by simp only [Session.begin, hp]
    cases call with
    | configure target settings =>
      obtain ⟨hlog, hposts⟩ := configure_posts s.service target settings
      have hsame := emplaced_begin s (.configure target settings)
      rcases hposts with ⟨hok, htelemetry⟩ | ⟨⟨e, herror⟩, htelemetry⟩
      · have hposting : s.posting? (.begin (.configure target settings)) = some (.made (settings.label target)) := by
          simp [posting?, hp, hok]
        rw [hposting]
        refine .of_untallied (by rw [hservice]; exact htelemetry) (fun x hx id => ?_) hsame (by rw [hservice]; exact hlog)
        cases Option.mem_toList.mp hx
        rfl
      · have hnone : s.posting? (.begin (.configure target settings)) = none := by simp [posting?, hp, herror]
        rw [hnone]
        exact .of_silent (by rw [hservice]; exact ⟨htelemetry, hlog⟩) hsame
    | allocate | emplace | flush | flushAll | destroy =>
      exact .of_silent (by rw [hservice]; exact silent_receive _ fun _ _ h => by cases h) (emplaced_begin s _)

theorem posts_store (hp : s.pending = some p) (hprompt : p.Prompt) {r : Record α}
    (hstage : p.stage = .reach (.store id r)) :
    s.Posts { s with service := (p.store s.service id r).1, pending := some (p.store s.service id r).2 }
      (p.posting? s.service).toList := by
  have hcall := hprompt.emplaces (by rw [hstage]; rfl)
  have hresult := hprompt.stores (by rw [hstage]; rfl)
  have hunanswered : ∀ q ∈ s.pending, ∀ outcome, q.result ≠ .ok (.emplaced outcome) := fun q hq => by
    rw [hp] at hq
    cases hq
    rw [hresult]
    exact fun _ h => by cases h
  have hanswer : ∀ service stage outcome j,
      (({ s with service, pending := some { p with stage, result := .ok (.emplaced outcome) } } : Session α).emplaced j).map
        Prod.snd = (s.emplaced j).map Prod.snd ++ if j = id then [outcome] else [] := fun service stage outcome j => by
    rw [emplaced_answer hp hcall hresult, List.map_append]
    congr 1
    split <;> rfl
  have hnothing : ∀ j, s.service.taken j = s.service.taken j ++ if j = id then [] else [] := fun j => by
    rw [ite_self, List.append_nil]
  have hposting : p.posting? s.service = (s.service.buffer? id).bind fun b =>
      (b.tallyOf? r).map (.tallied id b.handles) := by
    simp only [Pending.posting?, hstage]
  rw [hposting]
  rcases p.store_cases s.service id r with
    ⟨e, he, heq⟩ | ⟨b, hb, ⟨hpush, heq⟩ | ⟨hpush, hpolicy, heq⟩ | ⟨hpush, hpolicy, heq⟩⟩
  · rw [heq, buffer?_of_configured_error he]
    exact .of_silent (.refl _) (emplaced_unanswered hunanswered fun _ h => by cases h)
  · have htally : b.tallyOf? r = some .stored := by simp only [Buffer.tallyOf?, hpush]
    rw [heq, hb, Option.bind_some, htally]
    refine .of_tallied ?_ (hanswer _ _ _) hnothing
    show s.service.telemetry.addEmplaced (b.push r).1.handles.emplaced 1 = _
    rw [Buffer.push_handles]
    rfl
  · have htally : b.tallyOf? r = some .dropped := by simp only [Buffer.tallyOf?, hpush, hpolicy]
    rw [heq, hb, Option.bind_some, htally]
    exact .of_tallied rfl (hanswer _ _ _) hnothing
  · -- There is no room: the record comes again after a drain, and is tallied then.
    have htally : b.tallyOf? r = none := by simp only [Buffer.tallyOf?, hpush, hpolicy]
    rw [heq, hb, Option.bind_some, htally]
    exact .of_silent (.refl _) (emplaced_congr hp rfl rfl)

theorem posts_forget (hp : s.pending = some p) (hstage : p.stage = .reach (.forget id)) :
    s.Posts { s with service := (p.forget s.service id).1, pending := some (p.forget s.service id).2 }
      (p.posting? s.service).toList := by
  have hposting : (p.posting? s.service).toList = [] ∧ (p.forget s.service id).1.telemetry = s.service.telemetry ∨
      ∃ label, (p.posting? s.service).toList = [.removed label] ∧
        (p.forget s.service id).1.telemetry = s.service.telemetry.removeBuffer label := by
    simp only [Pending.forget, Pending.posting?, hstage, unregister]
    cases s.service.buffer? id with
    | none => exact Or.inl ⟨rfl, rfl⟩
    | some b =>
      cases p.result with
      | error e => exact Or.inl ⟨rfl, rfl⟩
      | ok answer => exact Or.inr ⟨b.label, rfl, rfl⟩
  have hsame : ∀ j, ({ s with service := (p.forget s.service id).1, pending := some (p.forget s.service id).2 } :
      Session α).emplaced j = s.emplaced j := emplaced_congr hp rfl rfl
  rcases hposting with ⟨heq, htelemetry⟩ | ⟨label, heq, htelemetry⟩
  · rw [heq]
    exact .of_silent ⟨htelemetry, rfl⟩ hsame
  · rw [heq]
    refine .of_untallied htelemetry (fun x hx j => ?_) hsame rfl
    cases List.mem_singleton.mp hx
    rfl

theorem posts_advance (h : s.Regular) : s.Posts s.advance (s.posting? .advance).toList := by
  cases hp : s.pending with
  | none =>
    rw [advance_idle hp, show s.posting? .advance = none by simp only [posting?, hp, Option.bind_none]]
    exact .of_silent (.refl _) fun _ => rfl
  | some p =>
    rw [show s.posting? .advance = p.posting? s.service by simp only [posting?, hp, Option.bind_some]]
    rcases advance_cases hp with ⟨hstage, heq⟩ | heq
    · rw [heq, show p.posting? s.service = none by simp only [Pending.posting?, hstage]]
      exact .of_silent (.refl _) (emplaced_returned hp)
    · rw [heq]
      -- Only reaching the goal of a call can post anything.
      have hrest : (∀ goal, p.stage = .reach goal → goal = .answer) → p.posting? s.service = none →
          s.Posts { s with service := (p.next s.service).1, pending := some (p.next s.service).2 }
            (p.posting? s.service).toList := fun hstage hnone => by
        obtain ⟨hcall, hresult⟩ := p.next_result s.service fun id r heq => by cases hstage _ heq
        rw [hnone]
        exact .of_silent (silent_next _ hstage) (emplaced_congr hp hcall hresult)
      cases hstage : p.stage with
      | reach goal =>
        cases goal with
        | answer => exact hrest (fun _ h => by rw [hstage] at h; cases h; rfl) (by simp only [Pending.posting?, hstage])
        | store id r =>
          rw [show p.next s.service = p.store s.service id r by simp only [Pending.next, hstage]]
          exact posts_store hp (h.prompt p hp) hstage
        | forget id =>
          rw [show p.next s.service = p.forget s.service id by simp only [Pending.next, hstage]]
          exact posts_forget hp hstage
      | watermark | kick | retire | await =>
        exact hrest (fun _ h => by rw [hstage] at h; cases h) (by simp only [Pending.posting?, hstage])

theorem posts_finish (h : s.Regular) (id : BufferId) : s.Posts (s.finish id) (s.service.drained? id).toList := by
  have hsame := emplaced_finish h id
  rcases drained?_cases h.sound id with ⟨hnone, htelemetry, htaken⟩ | ⟨b, n, seconds, -, hsome, htelemetry, htaken⟩
  · rw [hnone]
    exact ⟨htelemetry, fun j => by rw [hsame]; exact (List.append_nil _).symm,
      fun j => (htaken j).trans (List.append_nil _).symm⟩
  · rw [hsome]
    exact .of_tallied htelemetry (fun j => by rw [hsame]; simp [Tally.outcome?]) htaken

/-- An event posts what it is said to post. -/
theorem posts_step (h : s.Regular) (e : Event α) : s.Posts (s.step e) (s.posting? e).toList := by
  cases e with
  | begin call => exact posts_begin s call
  | advance => exact posts_advance h
  | enter id => exact .of_silent (silent_enter _ id) fun _ => rfl
  | finish id => exact posts_finish h id

theorem posts_run (h : s.Regular) (events : List (Event α)) : s.Posts (s.run events) (s.postings events) := by
  induction events generalizing s with
  | nil => exact .of_silent (.refl _) fun _ => rfl
  | cons e events ih => exact (posts_step h e).trans (ih (h.step e))

end Session

end PerfCounters
