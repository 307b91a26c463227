import PerfCounters.Proofs.Buffering.Ledger

/-! One caller of a service, step by step. A call that waits for drains is split at every point where a
    drain of its own or of any other buffer can enter or end meanwhile, so a run is any list of events:
    the caller begins a call or goes on with it, or a drain goes on. An event that cannot happen, such as
    going on while the awaited drain is in flight, changes nothing. -/

namespace PerfCounters

inductive Call (α : Type) where
  | allocate
  | configure (id : BufferId) (settings : Settings)
  | emplace (id : BufferId) (r : Record α)
  | flush (id : BufferId) (wait : Bool)
  /-- The buffers of `order` are visited first, the others as they are registered. -/
  | flushAll (order : List BufferId) (wait : Bool)
  | destroy (id : BufferId)
deriving DecidableEq, Repr

inductive Answer where
  | done
  | allocated (id : BufferId)
  | emplaced (outcome : Outcome)
deriving DecidableEq, Repr

/-- What a call does when it has waited for its drains. -/
inductive Goal (α : Type) where
  | answer
  | store (id : BufferId) (r : Record α)
  | forget (id : BufferId)

/-- Where a call is. -/
inductive Stage (α : Type) where
  | reach (goal : Goal α)
  /-- A record was stored in a buffer, and its watermark is to be looked at. -/
  | watermark (id : BufferId)
  /-- Drains of these buffers are started without waiting for them. -/
  | kick (ids : List BufferId)
  /-- The current side of a buffer is retired once its drain in flight has ended; then the others. -/
  | retire (id : BufferId) (rest : List BufferId) (goal : Goal α)
  /-- The drain that was started ends before anything else is done. -/
  | await (id : BufferId) (rest : List BufferId) (goal : Goal α)

namespace Stage

variable {α : Type}

/-- Drains buffers one after the other. -/
def drainEach : List BufferId → Goal α → Stage α
  | [], goal => .reach goal
  | id :: rest, goal => .retire id rest goal

/-- What is left to be done after the drains. -/
def goal : Stage α → Goal α
  | .reach goal | .retire _ _ goal | .await _ _ goal => goal
  | .watermark _ | .kick _ => .answer

/-- The buffers whose drains are still to be waited for. -/
def targets : Stage α → List BufferId
  | .retire id rest _ | .await id rest _ => id :: rest
  | .reach _ | .watermark _ | .kick _ => []

@[simp] theorem goal_drainEach (ids : List BufferId) (goal : Goal α) : (drainEach ids goal).goal = goal := by
  cases ids <;> rfl

@[simp] theorem targets_drainEach (ids : List BufferId) (goal : Goal α) : (drainEach ids goal).targets = ids := by
  cases ids <;> rfl

end Stage

/-- A call under way, and what it will return as far as it is known. -/
structure Pending (α : Type) where
  call : Call α
  stage : Stage α
  result : Except BufferError Answer := .ok .done

namespace Service

variable {α : Type}

/-- The configured buffers, those of `order` first. -/
def visited (s : Service α) (order : List BufferId) : List BufferId :=
  (order.eraseDups ++ s.ids.filter fun id => !order.contains id).filter fun id => (s.buffer? id).isSome

/-- The first step of a call: it ends a call that does not wait, and answers one that is refused. -/
def receive (s : Service α) (call : Call α) : Service α × Pending α :=
  let refuse e := (s, { call, stage := .reach .answer, result := .error e })
  match call with
  | .allocate =>
    let (s, id) := s.allocate
    (s, { call, stage := .reach .answer, result := .ok (.allocated id) })
  | .configure id settings =>
    let (s, result) := s.configure id settings
    (s, { call, stage := .reach .answer, result := result.map fun () => .done })
  | .emplace id r =>
    match s.configured id with
    | .error e => refuse e
    | .ok b =>
      if b.canHold r.type then (s, { call, stage := .reach (.store id r) })
      else refuse (.recordTooLarge id r.type.size b.settings.size)
  | .flush id wait =>
    if wait then
      match s.configured id with
      | .error e => refuse e
      | .ok _ => (s, { call, stage := .retire id [] .answer })
    else
      let (s, result) := s.flush id false
      (s, { call, stage := .reach .answer, result := result.map fun () => .done })
  | .flushAll order wait =>
    let ids := s.visited order
    if wait then (s, { call, stage := .drainEach (ids.flatMap fun id => [id, id]) .answer })
    else (s, { call, stage := .kick ids })
  | .destroy id =>
    match s.lookup? id with
    | none => refuse (.unknownBuffer id)
    | some none => (s, { call, stage := .reach (.forget id) })
    | some (some _) => (s, { call, stage := .retire id [id] (.forget id) })

end Service

namespace Pending

variable {α : Type}

/-- The call goes on with a stage. -/
def goto (p : Pending α) (stage : Stage α) : Pending α := { p with stage }

/-- The call is about to return. -/
def answering (p : Pending α) (result : Except BufferError Answer) : Pending α :=
  { p with stage := .reach .answer, result }

/-- Stores the record of a call. One without room is dropped, or waits for a drain and is tried again. -/
def store (p : Pending α) (s : Service α) (id : BufferId) (r : Record α) : Service α × Pending α :=
  match s.configured id with
  | .error e => (s, p.answering (.error e))
  | .ok b =>
    match b.push r with
    | (b, true) => (s.countStored b, { p with stage := .watermark id, result := .ok (.emplaced .stored) })
    | (_, false) =>
      match b.settings.policy with
      | .discard => (s.afterDrop b, p.answering (.ok (.emplaced .dropped)))
      | .lossless => (s, p.goto (.retire id [] (.store id r)))

/-- All that storing can do. -/
theorem store_cases (p : Pending α) (s : Service α) (id : BufferId) (r : Record α) :
    (∃ e, s.configured id = .error e ∧ p.store s id r = (s, p.answering (.error e))) ∨
      ∃ b, s.buffer? id = some b ∧
        (((b.push r).2 = true ∧ p.store s id r = (s.countStored (b.push r).1,
            { p with stage := .watermark id, result := .ok (.emplaced .stored) })) ∨
          ((b.push r).2 = false ∧ b.settings.policy = .discard ∧
            p.store s id r = (s.afterDrop b, p.answering (.ok (.emplaced .dropped)))) ∨
          ((b.push r).2 = false ∧ b.settings.policy = .lossless ∧
            p.store s id r = (s, p.goto (.retire id [] (.store id r))))) := by
  cases hb : s.configured id with
  | error e => exact Or.inl ⟨e, rfl, by simp [store, hb]⟩
  | ok b =>
    refine Or.inr ⟨b, Service.configured_eq_ok.mp hb, ?_⟩
    cases hpush : b.push r with
    | mk b' stored =>
      cases stored with
      | true => exact Or.inl ⟨rfl, by simp [store, hb, hpush]⟩
      | false =>
        cases hpolicy : b.settings.policy with
        | discard => exact Or.inr (Or.inl ⟨rfl, rfl, by simp [store, hb, hpush, hpolicy]⟩)
        | lossless => exact Or.inr (Or.inr ⟨rfl, rfl, by simp [store, hb, hpush, hpolicy]⟩)

/-- Forgets the buffer of a call, and its telemetry if all was delivered. -/
def forget (p : Pending α) (s : Service α) (id : BufferId) : Service α × Pending α :=
  let telemetry := match s.buffer? id, p.result with
    | some b, .ok _ => s.telemetry.removeBuffer b.label
    | _, _ => s.telemetry
  ({ s with telemetry }.unregister id, p.goto (.reach .answer))

/-- The next step of a call; none while a drain keeps it waiting. -/
def next (p : Pending α) (s : Service α) : Service α × Pending α :=
  match p.stage with
  | .reach .answer => (s, p)
  | .reach (.store id r) => p.store s id r
  | .reach (.forget id) => p.forget s id
  | .watermark id =>
    match s.buffer? id with
    | none => (s, p.goto (.reach .answer))
    | some b => (s.checkWatermark b, p.goto (.reach .answer))
  | .kick [] => (s, p.goto (.reach .answer))
  | .kick (id :: rest) =>
    match s.buffer? id with
    | none => (s, p.goto (.kick rest))
    | some b => ((s.flushBuffer b false).1, p.goto (.kick rest))
  | .retire id rest goal =>
    match s.buffer? id with
    | none => (s, p.goto (.await id rest goal))
    | some b => if b.isBusy then (s, p) else (s.start b, p.goto (.await id rest goal))
  | .await id rest goal =>
    match s.buffer? id with
    | none => (s, p.goto (.drainEach rest goal))
    | some b => if b.isBusy then (s, p) else (s, p.goto (.drainEach rest goal))

/-- The call fails on a buffer: it stores nothing and drains this buffer no more, but goes on with the
others. The first failure is its result. -/
def abort (p : Pending α) (id : BufferId) (rest : List BufferId) (goal : Goal α) : Pending α :=
  { p with
    stage := .drainEach (rest.dropWhile fun next => next == id)
      (match goal with
        | .store _ _ => .answer
        | goal => goal)
    result := match p.result with
      | .error e => .error e
      | .ok _ => .error (.flushAborted id) }

/-- The consumer failed on the batch of a buffer, which concerns the call that awaits this drain. -/
def refused (p : Pending α) (id : BufferId) : Pending α :=
  match p.stage with
  | .await awaited rest goal => if awaited = id then p.abort id rest goal else p
  | _ => p

end Pending

/-- A service with its caller: the calls that have returned, oldest first, and the one under way. -/
structure Session (α : Type) where
  service : Service α := {}
  history : List (Call α × Except BufferError Answer) := []
  pending : Option (Pending α) := none

/-- What can happen next. -/
inductive Event (α : Type) where
  | begin (call : Call α)
  /-- The call under way takes its next step. -/
  | advance
  /-- The drain of a buffer takes the gate and begins to deliver. -/
  | enter (id : BufferId)
  /-- The drain of a buffer ends. -/
  | finish (id : BufferId)

namespace Session

variable {α : Type}

def begin (s : Session α) (call : Call α) : Session α :=
  match s.pending with
  | some _ => s
  | none =>
    let (service, p) := s.service.receive call
    { s with service, pending := some p }

def advance (s : Session α) : Session α :=
  match s.pending with
  | none => s
  | some p =>
    match p.stage with
    | .reach .answer => { s with history := s.history ++ [(p.call, p.result)], pending := none }
    | _ =>
      let (service, p) := p.next s.service
      { s with service, pending := some p }

def finish (s : Session α) (id : BufferId) : Session α :=
  let (service, delivered) := s.service.finish id
  { s with service, pending := if delivered then s.pending else s.pending.map fun p => p.refused id }

def step (s : Session α) : Event α → Session α
  | .begin call => s.begin call
  | .advance => s.advance
  | .enter id => { s with service := s.service.enter id }
  | .finish id => s.finish id

def run (s : Session α) (events : List (Event α)) : Session α := events.foldl step s

@[simp] theorem run_nil (s : Session α) : s.run [] = s := rfl

@[simp] theorem run_cons (s : Session α) (e : Event α) (events : List (Event α)) :
    s.run (e :: events) = (s.step e).run events := rfl

theorem run_append (s : Session α) (first second : List (Event α)) :
    s.run (first ++ second) = (s.run first).run second := List.foldl_append

/-- What every event keeps holds after every run. -/
theorem run_keeps {P : Session α → Prop} (hstep : ∀ {s : Session α}, P s → ∀ e, P (s.step e)) {s : Session α} (h : P s)
    (events : List (Event α)) : P (s.run events) := by
  induction events generalizing s with
  | nil => exact h
  | cons e events ih => exact ih (hstep h e)

/-- A service without buffers whose consumer answers with `replies`. -/
def ofReplies (replies : List Reply) : Session α := { service := { replies } }

/-! ### What was returned -/

/-- The calls with what they returned, and the call under way with what it will return. -/
def outcomes (s : Session α) : List (Call α × Except BufferError Answer) :=
  s.history ++ s.pending.toList.map fun p => (p.call, p.result)

/-- The record that a call stored in a buffer. -/
def storedBy? (id : BufferId) : Call α × Except BufferError Answer → Option (Record α)
  | (.emplace target r, .ok (.emplaced .stored)) => if target = id then some r else none
  | _ => none

/-- The records for which storing in a buffer was answered with `stored`, oldest first. -/
def stored (s : Session α) (id : BufferId) : List (Record α) := s.outcomes.filterMap (storedBy? id)

/-- The last thing that happened to the caller: this call returned this. -/
def Returned (s : Session α) (call : Call α) (result : Except BufferError Answer) : Prop :=
  s.pending = none ∧ s.history.getLast? = some (call, result)

end Session

end PerfCounters
