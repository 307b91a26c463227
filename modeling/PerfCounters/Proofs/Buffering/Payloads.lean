import PerfCounters.Proofs.Buffering.Fill

/-! The bytes of a service. Each side of a buffer has an arena of its own. A record that is stored is written there, into
    the slot that its header names, and nothing else is written: so what a drain delivers is what lies in the bytes
    of its slots. -/

namespace PerfCounters

open RecordBuffer (WithBytes)
open RecordBuffer.WithBytes (image writeLast)

variable {α : Type}

theorem Side.eq_or_eq_other (side side' : Side) : side = side' ∨ side = side'.other := by
  cases side <;> cases side' <;> simp [Side.other]

/-! ### One side -/

namespace RecordBuffer

variable {b : RecordBuffer α} {code : Record α → List UInt8} {bytes : Memory} {r : Record α}

/-- The records lie in the bytes of the arena, where the cells that were taken say. -/
def LiesIn (b : RecordBuffer α) (code : Record α → List UInt8) (bytes : Memory) : Prop :=
  List.Forall₂ (WithBytes.Describes ⟨b, bytes⟩ code) b.written b.records

theorem Bare.liesIn (h : b.Bare) : b.LiesIn code bytes := by
  rw [LiesIn, h.written, h.records]
  exact .nil

theorem LiesIn.gate (h : b.LiesIn code bytes) (g : Gate) : ({ b with gate := g } : RecordBuffer α).LiesIn code bytes :=
  List.Forall₂.imp (fun _ _ hx => hx.imp fun _ hx => ⟨hx.1, hx.2.value, hx.2.below, hx.2.bytes⟩) h

/-- A record that is stored goes into a slot behind those of the others. -/
theorem LiesIn.push (h : b.LiesIn code bytes) (htight : b.Tight) (hi : b.Intact) (hgate : b.gate = .opened)
    (hr : (b.push r).2 = true) : (b.push r).1.LiesIn code (writeLast (b.push r).1 code r bytes) := by
  have hpacked := htight.packed hi hgate
  have hmem : r.type.align ∈ alignments := by
    by_contra hnot
    rw [push_unaligned hnot] at hr
    cases hr
  have hpos := alignments_pos hmem
  obtain ⟨-, -, -, hrecords⟩ := push_cases (r := r) hi
  have hpush := RecordBuffer.push_eq hpacked r (RecordType.powerAligned_of_mem hmem)
  split at hpush
  · rename_i hroom
    rw [hpush] at hrecords ⊢
    rw [hpacked.writeLast_stored hpos hroom.2, LiesIn, hrecords, if_pos rfl, hpacked.written_stored r hpos hroom.2]
    have hnew : WithBytes.Describes (WithBytes.stored ⟨b, bytes⟩ code r) code
        (r.header (roundUp b.arena.ring.write r.type.align)) r := ⟨_, rfl, WithBytes.holds_stored ⟨b, bytes⟩ code r⟩
    refine List.rel_append (h.imp ?_) (.cons hnew .nil)
    rintro _ x ⟨offset, rfl, hx⟩
    exact ⟨offset, rfl, hx.stored r hpos⟩
  · rw [hpush] at hr
    cases hr

/-- What is read from the slots. -/
theorem LiesIn.reads (h : b.LiesIn code bytes) :
    List.Forall₂ (fun header r => ∃ offset, header = r.header offset ∧
      bytes.read offset (image code r).length = image code r) b.written b.records :=
  List.Forall₂.imp (fun _ _ hx => hx.imp fun _ hx => ⟨hx.1, hx.2.bytes⟩) h

end RecordBuffer

/-! ### Both sides -/

namespace Buffer

variable {b b' : Buffer α} {ds : List (Delivery α)} {side : Side}

/-- A side of a buffer whose drain goes on is as it was but for its gate, or it was emptied. -/
def SameOrBare (b b' : RecordBuffer α) : Prop := (∃ g, b' = { b with gate := g }) ∨ b'.Bare

theorem sameOrBare_rfl (b : RecordBuffer α) : SameOrBare b b := .inl ⟨b.gate, rfl⟩

theorem sameOrBare_enterDrain (h : b.Sound) (side : Side) : SameOrBare (b.store side) (b.enterDrain.store side) := by
  rcases enterDrain_cases h with ⟨heq, -⟩ | ⟨-, heq⟩
  · rw [heq]
    exact sameOrBare_rfl _
  · rw [heq, withDrain_store]
    obtain rfl | rfl := side.eq_or_eq_other b.side
    · rw [store_modifyStore_of_other]
      exact sameOrBare_rfl _
    · rw [store_modifyStore]
      exact .inl ⟨_, rfl⟩

theorem sameOrBare_endDrain (h : b.Sound) {batch : Batch α}
    (hd : b.drain = some { side := b.side.other, batch := some batch }) (accepted : Bool) (side : Side) :
    SameOrBare (b.store side) ((b.endDrain accepted).store side) := by
  have heq : b.endDrain accepted =
      (b.modifyStore b.side.other fun store => (if accepted then store.empty else store).unlock worker).withDrain none := by
    simp only [endDrain, hd]
    rfl
  rw [heq, withDrain_store]
  obtain rfl | rfl := side.eq_or_eq_other b.side
  · rw [store_modifyStore_of_other]
    exact sameOrBare_rfl _
  · rw [store_modifyStore]
    cases accepted with
    | true => exact .inr (h.retired.bare_empty.gate _)
    | false => exact .inl ⟨_, rfl⟩

theorem SameOrBare.liesIn {store store' : RecordBuffer α} {code : Record α → List UInt8} {bytes : Memory}
    (hsame : SameOrBare store store') (h : store.LiesIn code bytes) : store'.LiesIn code bytes := by
  obtain ⟨g, rfl⟩ | hbare := hsame
  · exact h.gate g
  · exact hbare.liesIn

theorem Turns.liesIn (h : b.Turns b' ds) (hs : b.Sound) {code : Record α → List UInt8} {bytes : Memory}
    (hside : (b.store side).LiesIn code bytes) : (b'.store side).LiesIn code bytes := by
  cases h with
  | rest => exact hside
  | start =>
    have hsame : SameOrBare (b.store side) (b.startDrain.store side) := by cases side <;> exact sameOrBare_rfl _
    exact hsame.liesIn hside
  | enter => exact (sameOrBare_enterDrain hs side).liesIn hside
  | finish accepted hd =>
    exact (sameOrBare_endDrain (enterDrain_kept hs).1 hd accepted side).liesIn
      ((sameOrBare_enterDrain hs side).liesIn hside)

/-- What is handed out while a drain goes on is what the retired side holds. -/
theorem Turns.records_handed (h : b.Turns b' ds) (hs : b.Sound) {d : Delivery α} (hd : d ∈ ds) :
    d.batch.records = b.retired.records := by
  cases h with
  | rest | start | enter => cases hd
  | @finish batch accepted hdrain =>
    split at hd
    · cases hd
    · obtain rfl := List.mem_singleton.mp hd
      rw [(retired_endDrain (enterDrain_kept hs).1 hdrain accepted).1, retired_enterDrain hs]

end Buffer

/-! ### Runs -/

namespace Session

variable {s : Session α} {id : BufferId} {code : Record α → List UInt8}

/-- The bytes of the arenas of the buffers, side by side. -/
abbrev Bytes := BufferId → Side → Memory

/-- The record for which storing in a buffer was answered since then. -/
def newly? (s s' : Session α) (id : BufferId) : Option (Record α) := (s'.stored id)[(s.stored id).length]?

/-- The bytes after one event: a record that it has stored is written on the side that takes records. -/
def bytesAfter (code : Record α → List UInt8) (s s' : Session α) (bytes : Bytes) : Bytes := fun id side =>
  match newly? s s' id, s'.service.buffer? id with
  | some r, some b => if side = b.side then writeLast b.current code r (bytes id side) else bytes id side
  | _, _ => bytes id side

/-- The bytes after events. -/
def bytesAfterRun (code : Record α → List UInt8) (s : Session α) (bytes : Bytes) : List (Event α) → Bytes
  | [] => bytes
  | e :: events => bytesAfterRun code (s.step e) (bytesAfter code s (s.step e) bytes) events

/-- What the sides of the buffers hold lies in the bytes of their arenas. -/
def LiesIn (s : Session α) (code : Record α → List UInt8) (bytes : Bytes) : Prop :=
  ∀ id b, s.service.buffer? id = some b → ∀ side, (b.store side).LiesIn code (bytes id side)

theorem bytesAfter_of_not_stored {s' : Session α} (h : s'.stored id = s.stored id) (bytes : Bytes) :
    bytesAfter code s s' bytes id = bytes id := by
  have hnone : newly? s s' id = none := by simp [newly?, h]
  funext side
  simp only [bytesAfter, hnone]

theorem bytesAfter_of_stored {s' : Session α} {b : Buffer α} {r : Record α} (h : s'.stored id = s.stored id ++ [r])
    (hb : s'.service.buffer? id = some b) (bytes : Bytes) (side : Side) : bytesAfter code s s' bytes id side =
      if side = b.side then writeLast b.current code r (bytes id side) else bytes id side := by
  have hnew : newly? s s' id = some r := by simp [newly?, h]
  simp only [bytesAfter, hnew, hb]

theorem LiesIn.step {bytes : Bytes} (h : s.LiesIn code bytes) (hmeasured : s.Measured) (hregular : s.Regular)
    (e : Event α) : (s.step e).LiesIn code (bytesAfter code s (s.step e) bytes) := by
  intro id b' hb' side
  cases (hregular.happens e).changes hregular.sound id with
  | turned hturned hsame =>
    rw [bytesAfter_of_not_stored (stored_congr hsame)]
    cases hturned with
    | absent _ hnone => rw [hnone] at hb'; cases hb'
    | buffer hb hb'' hturns =>
      rw [hb''] at hb'
      cases hb'
      exact hturns.liesIn (hregular.sound.sound hb) (h id _ hb side)
  | configured hnew hsame =>
    obtain ⟨settings, handles, -, hb'', -⟩ := hnew.buffer
    rw [hb''] at hb'
    cases hb'
    cases side <;> exact (RecordBuffer.bare_ofCapacity _).liesIn
  | forgotten _ hgone => rw [hgone] at hb'; cases hb'
  | @stored r b hb hpush hb'' _ hmore =>
    rw [hb''] at hb'
    cases hb'
    have hs := hregular.sound.sound hb
    rw [bytesAfter_of_stored (stored_of_stored hmore) hb'']
    rw [Buffer.push_eq hs] at hpush ⊢
    simp only [Buffer.modifyStore_side, Buffer.current, Buffer.store_modifyStore]
    obtain rfl | rfl := side.eq_or_eq_other b.side
    · rw [if_pos rfl, Buffer.store_modifyStore]
      exact (h id b hb b.side).push (hmeasured id b hb).current hs.current hs.gate hpush
    · rw [if_neg (by cases b.side <;> decide), Buffer.store_modifyStore_other]
      exact h id b hb b.side.other
  | dropped hb _ _ hb'' hmore =>
    rw [bytesAfter_of_not_stored (stored_of_dropped hmore)]
    have hside := h id _ hb side
    rw [hb''] at hb'
    cases hb'
    cases side <;> exact hside

theorem LiesIn.run {bytes : Bytes} (h : s.LiesIn code bytes) (hmeasured : s.Measured) (hregular : s.Regular)
    (events : List (Event α)) : (s.run events).LiesIn code (bytesAfterRun code s bytes events) := by
  induction events generalizing s bytes with
  | nil => exact h
  | cons e events ih => exact ih (h.step hmeasured hregular e) (hmeasured.step hregular e) (hregular.step e)

/-- What an event hands out of a buffer is what the retired side holds before it. -/
theorem Regular.records_handed (h : s.Regular) (e : Event α) (id : BufferId) : ∃ ds,
    (s.step e).service.handed id = s.service.handed id ++ ds ∧
      ∀ d ∈ ds, ∃ b, s.service.buffer? id = some b ∧ d.batch.records = b.retired.records := by
  have hnothing : ∀ {handed}, (s.step e).service.handed id = handed → handed = s.service.handed id → ∃ ds,
      (s.step e).service.handed id = s.service.handed id ++ ds ∧
        ∀ d ∈ ds, ∃ b, s.service.buffer? id = some b ∧ d.batch.records = b.retired.records := fun h h' =>
    ⟨[], by rw [h, h', List.append_nil], fun _ hd => (by cases hd)⟩
  cases (h.happens e).changes h.sound id with
  | turned hturned =>
    cases hturned with
    | absent _ _ hlog => exact hnothing hlog rfl
    | buffer hb _ hturns hlog => exact ⟨_, hlog, fun d hd => ⟨_, hb, hturns.records_handed (h.sound.sound hb) hd⟩⟩
  | configured hnew => exact hnothing hnew.handed rfl
  | forgotten _ _ _ _ hlog | stored _ _ _ _ _ hlog | dropped _ _ _ _ _ hlog => exact hnothing hlog rfl

/-- Whatever lies in the arenas at first, and whatever the consumer answers: the records of a batch are those that
lie in the bytes of the side that is drained, each in the slot that its header names. -/
theorem run_delivers_bytes (code : Record α → List UInt8) (bytes : Bytes) (replies : List Reply) (events : List (Event α))
    (e : Event α) (id : BufferId) : let s := (ofReplies replies : Session α).run events
    ∃ ds, (s.step e).service.handed id = s.service.handed id ++ ds ∧ ∀ d ∈ ds, ∃ b, s.service.buffer? id = some b ∧
      List.Forall₂ (fun header r => ∃ offset, header = r.header offset ∧
        (bytesAfterRun code (ofReplies replies) bytes events id b.side.other).read offset
          (image code r).length = image code r)
        b.retired.written d.batch.records := by
  intro s
  have hregular := regular_ofReplies (α := α) replies
  have hstart : (ofReplies replies : Session α).LiesIn code bytes := fun _ _ hb => by cases hb
  obtain ⟨ds, hlog, hds⟩ := (hregular.run events).records_handed e id
  refine ⟨ds, hlog, fun d hd => ?_⟩
  obtain ⟨b, hb, hrecords⟩ := hds d hd
  have hlies := hstart.run (measured_ofReplies replies) hregular events id b hb b.side.other
  exact ⟨b, hb, by rw [hrecords]; exact hlies.reads⟩

end Session

end PerfCounters
