import PerfCounters.Proofs.Rings.Bytes
import PerfCounters.Proofs.Rings.Window

/-! A ring as a queue. Every slot that is granted is filled, and slots are taken back with the lengths and the
    alignments of their requests, in order. Then the read cursor goes the way of the write cursor: what is taken
    back are the slots that were granted, and they hold what was written into them. -/

namespace PerfCounters

/-- A slot under way: what it was asked for, where it lies, and its contents. -/
structure Parcel (α : Type) where
  length : Nat
  align : Nat
  slot : Slot
  value : Option α
  bytes : List UInt8
deriving DecidableEq, Repr

/-- An arena with its bytes, and what was put into it and taken from it so far, oldest first. -/
structure Queue (α : Type) where
  arena : Arena α
  bytes : Memory
  granted : List (Parcel α) := []
  taken : List (Parcel α) := []

namespace Queue

/-- What is asked of a queue. -/
inductive Op (α : Type) where
  /-- Requests a slot for the bytes of a value, and fills it with them. -/
  | put (value : α) (align : Nat) (wrap : Bool)
  | take (length align : Nat)
deriving DecidableEq, Repr

variable {α : Type}

/-- A new queue, in whose arena anything may lie. -/
def ofCapacity (capacity : Nat) (bytes : Memory) : Queue α := { arena := Arena.ofCapacity capacity, bytes }

/-- The call of the ring that an operation makes; `code` spells a value out in bytes. -/
def Op.call (code : α → List UInt8) : Op α → Ring.Op
  | .put value align wrap => .request (code value).length align wrap
  | .take length align => .retrieve length align

/-- One operation, and the slot it was given. -/
def step (q : Queue α) (code : α → List UInt8) : Op α → Queue α × Option Slot
  | .put value align wrap =>
    match q.arena.put (code value).length align wrap value with
    | (arena, none) => ({ q with arena }, none)
    | (arena, some slot) =>
      let parcel := ⟨(code value).length, align, slot, some value, code value⟩
      ({ q with arena, bytes := q.bytes.write slot.offset (code value), granted := q.granted ++ [parcel] }, some slot)
  | .take length align =>
    match q.arena.take length align with
    | (arena, none) => ({ q with arena }, none)
    | (arena, some (slot, value)) =>
      let parcel := ⟨length, align, slot, value, q.bytes.read slot.offset slot.length⟩
      ({ q with arena, taken := q.taken ++ [parcel] }, some slot)

/-- The queue after some operations, and the slots they were given. -/
def run (q : Queue α) (code : α → List UInt8) : List (Op α) → Queue α × List (Option Slot)
  | [] => (q, [])
  | op :: ops =>
    let (q, slot) := q.step code op
    let (q, slots) := q.run code ops
    (q, slot :: slots)

/-- The slots that were granted and not yet taken back, oldest first. -/
def outstanding (q : Queue α) : List (Parcel α) := q.granted.drop q.taken.length

/-- The operation asks for the oldest slot as it was requested, if it takes one back. -/
def Expects (q : Queue α) : Op α → Prop
  | .put _ _ _ => True
  | .take length align => ∀ p ∈ q.outstanding.head?, length = p.length ∧ align = p.align

instance (q : Queue α) : (op : Op α) → Decidable (q.Expects op)
  | .put _ _ _ => inferInstanceAs (Decidable True)
  | .take length align => inferInstanceAs (Decidable (∀ p ∈ q.outstanding.head?, length = p.length ∧ align = p.align))

/-- Slots are taken back with the lengths and the alignments of their requests, in order. -/
def Follows (q : Queue α) (code : α → List UInt8) (ops : List (Op α)) : Prop :=
  ∀ before op after, ops = before ++ op :: after → (q.run code before).1.Expects op

/-- What holds of an operation on a queue. -/
structure Faithful (q : Queue α) (code : α → List UInt8) (op : Op α) : Prop where
  /-- Taking fails when all that was granted has been taken back, and only then. -/
  fails_iff : ∀ length align, op = .take length align → ((q.step code op).2 = none ↔ q.taken = q.granted)
  /-- A granted slot has no byte of one that is outstanding. -/
  apart : ∀ value align wrap slot, op = .put value align wrap → (q.step code op).2 = some slot →
    ∀ p ∈ q.outstanding, p.slot.Apart slot

end Queue

/-- Of two slots without a common byte one ends before the other starts, unless one is empty. -/
theorem Slot.Apart.ordered {s s' : Slot} (h : s.Apart s') (hpos : 0 < s.length) (hpos' : 0 < s'.length) :
    s.offset + s.length ≤ s'.offset ∨ s'.offset + s'.length ≤ s.offset := by
  have hmax := h (max s.offset s'.offset)
  simp only [Covers] at hmax
  omega

namespace Ring

variable {r : Ring} {cursor length align start stop : Nat} {wrap : Bool}

/-- A slot that is placed at all lies where one lies that may start over. -/
theorem place?_wrap (h : r.place? cursor length align wrap = some start) :
    r.place? cursor length align true = some start := by
  cases wrap with
  | true => exact h
  | false =>
    simp only [place?] at h ⊢
    split at h
    · rename_i hroom
      rwa [if_pos hroom]
    · cases h

theorem place?_congr {r' : Ring} (h : r'.capacity = r.capacity) :
    r'.place? cursor length align wrap = r.place? cursor length align wrap := by
  simp only [place?, h]

/-- The parcels lie one behind the other from a cursor on, each where a slot is placed after the last one. -/
def Laid {α : Type} (r : Ring) (cursor : Nat) : List (Parcel α) → Nat → Prop
  | [], stop => cursor = stop
  | p :: rest, stop => ∃ start, r.admits p.length p.align = true ∧
      r.place? cursor p.length p.align true = some start ∧ p.slot = r.slotAt start p.length ∧
      Laid r (start + p.length) rest stop

namespace Laid

variable {α : Type} {ps : List (Parcel α)} {p : Parcel α}

theorem le (h : r.Laid cursor ps stop) : cursor ≤ stop := by
  induction ps generalizing cursor with
  | nil => exact Nat.le_of_eq h
  | cons first rest ih =>
    obtain ⟨start, hadmits, hplace, -, hrest⟩ := h
    obtain ⟨hpos, hfits, halign⟩ := admits_iff.mp hadmits
    obtain ⟨hle, -, -⟩ := place?_eq_some hpos hfits (alignments_pos halign) hplace
    have hstop := ih hrest
    omega

/-- A parcel that is laid lies in the stretch from the cursor to the end. -/
theorem mem (h : r.Laid cursor ps stop) (hp : p ∈ ps) :
    ∃ start, p.slot = r.slotAt start p.length ∧ 0 < p.length ∧ cursor ≤ start ∧ start + p.length ≤ stop := by
  induction ps generalizing cursor with
  | nil => cases hp
  | cons first rest ih =>
    obtain ⟨start, hadmits, hplace, hslot, hrest⟩ := h
    obtain ⟨hpos, hfits, halign⟩ := admits_iff.mp hadmits
    obtain ⟨hle, -, -⟩ := place?_eq_some hpos hfits (alignments_pos halign) hplace
    rcases List.mem_cons.mp hp with rfl | hp
    · exact ⟨start, hslot, hpos, hle, le hrest⟩
    · obtain ⟨start', hslot', hpos', hle', hstop⟩ := ih hrest hp
      exact ⟨start', hslot', hpos', by omega, hstop⟩

theorem concat (h : r.Laid cursor ps stop) (hadmits : r.admits p.length p.align = true)
    (hplace : r.place? stop p.length p.align true = some start) (hslot : p.slot = r.slotAt start p.length) :
    r.Laid cursor (ps ++ [p]) (start + p.length) := by
  induction ps generalizing cursor with
  | nil =>
    cases h
    exact ⟨start, hadmits, hplace, hslot, rfl⟩
  | cons first rest ih =>
    obtain ⟨start', hadmits', hplace', hslot', hrest⟩ := h
    exact ⟨start', hadmits', hplace', hslot', ih hrest⟩

theorem congr {r' : Ring} (h : r.Laid cursor ps stop) (hcapacity : r'.capacity = r.capacity) : r'.Laid cursor ps stop := by
  induction ps generalizing cursor with
  | nil => exact h
  | cons first rest ih =>
    obtain ⟨start, hadmits, hplace, hslot, hrest⟩ := h
    refine ⟨start, ?_, (place?_congr hcapacity).trans hplace, ?_, ih hrest⟩
    · rwa [admits, hcapacity, ← admits]
    · rw [hslot, slotAt, slotAt, hcapacity]

end Laid

end Ring

namespace Queue

variable {α : Type} {q : Queue α} {code : α → List UInt8} {op : Op α} {length align : Nat} {wrap : Bool} {value : α}

/-! ### What an operation does -/

/-- A queue makes the calls of its ring. -/
theorem step_ring (q : Queue α) (code : α → List UInt8) (op : Op α) :
    q.arena.ring.perform (op.call code) = ((q.step code op).1.arena.ring, .slot (q.step code op).2) := by
  cases op with
  | put value align wrap =>
    rcases Ring.request_cases q.arena.ring (code value).length align wrap with hreq | ⟨start, -, -, -, hreq⟩ <;>
      simp [step, Op.call, Ring.perform, Arena.put, hreq]
  | take length align =>
    rcases Ring.retrieve_cases q.arena.ring length align with hret | ⟨start, -, -, -, hret⟩ <;>
      simp [step, Op.call, Ring.perform, Arena.take, hret]

/-- What holds of a queue whose slots are taken back in order: the outstanding parcels lie one behind the other
    from the read cursor to the write cursor, and each slot holds what it was filled with. -/
structure Kept (q : Queue α) (rest : List (Parcel α)) : Prop where
  window : q.arena.ring.Windowed
  granted : q.granted = q.taken ++ rest
  laid : q.arena.ring.Laid q.arena.ring.read rest q.arena.ring.write
  filled : ∀ p ∈ rest, q.arena.get? p.slot.offset = p.value ∧ q.bytes.read p.slot.offset p.length = p.bytes

theorem kept_ofCapacity (capacity : Nat) (bytes : Memory) : (ofCapacity capacity bytes : Queue α).Kept [] :=
  ⟨⟨Nat.le_refl _, Nat.zero_le _⟩, rfl, rfl, fun p hp => by cases hp⟩

theorem Kept.outstanding {rest : List (Parcel α)} (h : q.Kept rest) : q.outstanding = rest := by
  rw [Queue.outstanding, h.granted, List.drop_left]

/-- A slot that is granted has no byte of an outstanding one: it lies behind the write cursor, and within a turn of
    the read cursor. -/
theorem Kept.apart {rest : List (Parcel α)} (h : q.Kept rest) {start : Nat}
    (hadmits : q.arena.ring.admits length align = true)
    (hplace : q.arena.ring.place? q.arena.ring.write length align wrap = some start)
    (hroom : start + length - q.arena.ring.read ≤ q.arena.ring.capacity) {p : Parcel α} (hp : p ∈ rest) :
    p.slot.Apart (q.arena.ring.slotAt start length) := by
  obtain ⟨hpos, hfits, halign⟩ := Ring.admits_iff.mp hadmits
  obtain ⟨hle, -, -⟩ := Ring.place?_eq_some hpos hfits (alignments_pos halign) hplace
  obtain ⟨start', hslot, -, hbehind, hstop⟩ := h.laid.mem hp
  rw [hslot]
  exact Ring.slotAt_apart (by omega) (by omega)

/-- What was put into the other slots stays when a slot is filled that has no byte of theirs. -/
theorem Kept.filled_put {rest : List (Parcel α)} (h : q.Kept rest) {slot : Slot}
    (hlength : slot.length = (code value).length)
    (hpos : 0 < slot.length) (hapart : ∀ p ∈ rest, p.slot.Apart slot) {p : Parcel α} (hp : p ∈ rest) :
    (q.arena.cells.insert slot.offset value)[p.slot.offset]? = p.value ∧
      (q.bytes.write slot.offset (code value)).read p.slot.offset p.length = p.bytes := by
  obtain ⟨hvalue, hbytes⟩ := h.filled p hp
  obtain ⟨start, hslot, hlong, -, -⟩ := h.laid.mem hp
  have hsize : p.slot.length = p.length := by rw [hslot]; rfl
  have hbetween := (hapart p hp).ordered (by omega) hpos
  refine ⟨?_, ?_⟩
  · have hne : (slot.offset == p.slot.offset) = false := by
      rw [beq_eq_false_iff_ne]
      omega
    rw [Std.HashMap.getElem?_insert, hne]
    exact hvalue
  · rcases hbetween with hbefore | hbehind
    · rw [Memory.read_write_behind (by omega), hbytes]
    · rw [Memory.read_write_before (by omega), hbytes]

/-- A request that is granted adds a parcel; one that is refused changes nothing. -/
theorem Kept.put {rest : List (Parcel α)} (h : q.Kept rest) (code : α → List UInt8) (value : α) (align : Nat)
    (wrap : Bool) :
    (q.step code (.put value align wrap) = (q, none)) ∨
      ∃ p, (∀ p' ∈ rest, p'.slot.Apart p.slot) ∧ (q.step code (.put value align wrap)).2 = some p.slot ∧
        (q.step code (.put value align wrap)).1.Kept (rest ++ [p]) := by
  rcases Ring.request_cases q.arena.ring (code value).length align wrap with hreq | ⟨start, hadmits, hplace, hroom, hreq⟩
  · exact Or.inl (by simp [step, Arena.put, hreq])
  obtain ⟨hpos, hfits, halign⟩ := Ring.admits_iff.mp hadmits
  obtain ⟨hle, -, -⟩ := Ring.place?_eq_some hpos hfits (alignments_pos halign) hplace
  have hread := h.window.read_le
  have hapart := fun p hp => h.apart hadmits hplace hroom (p := p) hp
  let p : Parcel α := ⟨(code value).length, align, q.arena.ring.slotAt start (code value).length, some value, code value⟩
  have hstep : q.step code (.put value align wrap) =
      (⟨⟨{ q.arena.ring with write := start + p.length }, q.arena.cells.insert p.slot.offset value⟩,
        q.bytes.write p.slot.offset p.bytes, q.granted ++ [p], q.taken⟩, some p.slot) := by
    simp [step, Arena.put, hreq, p]
  refine Or.inr ⟨p, hapart, by rw [hstep], ?_⟩
  rw [hstep]
  refine ⟨⟨?_, hroom⟩, ?_, (h.laid.concat (p := p) hadmits (Ring.place?_wrap hplace) rfl).congr rfl, fun p' hp' => ?_⟩
  · show q.arena.ring.read ≤ start + (code value).length
    omega
  · show q.granted ++ [p] = q.taken ++ (rest ++ [p])
    rw [h.granted, List.append_assoc]
  · rcases List.mem_append.mp hp' with hp' | hp'
    · exact h.filled_put rfl hpos hapart hp'
    · rw [List.mem_singleton.mp hp']
      exact ⟨Std.HashMap.getElem?_insert_self, Memory.read_write_same _ _ _⟩

/-- Taking finds the oldest parcel where it was laid, and as it was filled. -/
theorem Kept.take {p : Parcel α} {rest : List (Parcel α)} (h : q.Kept (p :: rest)) (code : α → List UInt8) :
    (q.step code (.take p.length p.align)).2 = some p.slot ∧ (q.step code (.take p.length p.align)).1.Kept rest := by
  obtain ⟨start, hadmits, hplace, hslot, hrest⟩ := h.laid
  obtain ⟨hpos, hfits, halign⟩ := Ring.admits_iff.mp hadmits
  obtain ⟨hle, -, -⟩ := Ring.place?_eq_some hpos hfits (alignments_pos halign) hplace
  obtain ⟨hvalue, hbytes⟩ := h.filled p List.mem_cons_self
  have hstop := hrest.le
  have hspan := h.window.span_le
  have hret : q.arena.ring.retrieve p.length p.align =
      ({ q.arena.ring with read := start + p.length }, some (q.arena.ring.slotAt start p.length)) := by
    have hlt : q.arena.ring.read < q.arena.ring.write := by omega
    have hfit : ¬start + p.length > q.arena.ring.write := by omega
    simp [Ring.retrieve, hadmits, hplace, hlt, hfit]
  have hstep : q.step code (.take p.length p.align) =
      (⟨⟨{ q.arena.ring with read := start + p.length }, q.arena.cells⟩, q.bytes, q.granted, q.taken ++ [p]⟩,
        some p.slot) := by
    have hread : q.bytes.read p.slot.offset p.slot.length = p.bytes := by rw [hslot] at hbytes ⊢; exact hbytes
    simp only [step, Arena.take, hret, ← hslot, hvalue, hread]
  rw [hstep]
  refine ⟨rfl, ⟨hstop, ?_⟩, ?_, hrest.congr rfl, fun p' hp' => h.filled p' (List.mem_cons_of_mem _ hp')⟩
  · show q.arena.ring.write - (start + p.length) ≤ q.arena.ring.capacity
    omega
  · show q.granted = q.taken ++ [p] ++ rest
    rw [h.granted, List.append_assoc, List.singleton_append]

/-- Nothing can be taken when nothing is outstanding. -/
theorem Kept.take_nil (h : q.Kept []) (code : α → List UInt8) (length align : Nat) :
    q.step code (.take length align) = (q, none) := by
  have hcursors : q.arena.ring.read = q.arena.ring.write := h.laid
  have hret : q.arena.ring.retrieve length align = (q.arena.ring, none) := by
    simp [Ring.retrieve, hcursors]
  simp [step, Arena.take, hret]

theorem Kept.step {rest : List (Parcel α)} (h : q.Kept rest) (code : α → List UInt8) (hop : q.Expects op) :
    ∃ rest', (q.step code op).1.Kept rest' := by
  cases op with
  | put value align wrap =>
    rcases h.put code value align wrap with heq | ⟨p, -, -, hkept⟩
    · exact ⟨rest, by rwa [heq]⟩
    · exact ⟨_, hkept⟩
  | take length align =>
    cases rest with
    | nil => exact ⟨[], by rwa [h.take_nil]⟩
    | cons p rest =>
      obtain ⟨rfl, rfl⟩ := hop p (by rw [h.outstanding]; rfl)
      exact ⟨rest, (h.take code).2⟩

theorem Kept.faithful {rest : List (Parcel α)} (h : q.Kept rest) (code : α → List UInt8) (hop : q.Expects op) :
    q.Faithful code op where
  fails_iff length align heq := by
    subst heq
    cases rest with
    | nil =>
      rw [h.take_nil]
      simp [h.granted]
    | cons p rest =>
      obtain ⟨rfl, rfl⟩ := hop p (by rw [h.outstanding]; rfl)
      rw [(h.take code).1]
      simp [h.granted]
  apart value align wrap slot heq hslot p hp := by
    subst heq
    rw [h.outstanding] at hp
    rcases h.put code value align wrap with hnone | ⟨p', hapart, hsome, -⟩
    · rw [hnone] at hslot
      cases hslot
    · rw [hsome] at hslot
      cases hslot
      exact hapart p hp

/-! ### Runs -/

theorem follows_cons {ops : List (Op α)} :
    q.Follows code (op :: ops) ↔ q.Expects op ∧ (q.step code op).1.Follows code ops := by
  constructor
  · intro h
    refine ⟨h [] op ops rfl, fun before op' after heq => h (op :: before) op' after ?_⟩
    rw [heq, List.cons_append]
  · rintro ⟨hhead, htail⟩ before op' after heq
    cases before with
    | nil =>
      cases heq
      exact hhead
    | cons first before =>
      cases heq
      exact htail before op' after rfl

theorem follows_nil (q : Queue α) (code : α → List UInt8) : q.Follows code [] := by
  intro before op after heq
  cases before <;> cases heq

theorem Kept.run {rest : List (Parcel α)} {ops : List (Op α)} (h : q.Kept rest) (hops : q.Follows code ops) :
    ∃ rest', (q.run code ops).1.Kept rest' := by
  induction ops generalizing q rest with
  | nil => exact ⟨rest, h⟩
  | cons op ops ih =>
    obtain ⟨hop, hops⟩ := follows_cons.mp hops
    obtain ⟨rest', h'⟩ := h.step code hop
    exact ih h' hops

/-- A queue runs as its ring does. -/
theorem run_ring {h : Ring.History} (hring : h.ring = q.arena.ring) (code : α → List UInt8) (ops : List (Op α)) :
    (h.run (ops.map (Op.call code))).1.ring = (q.run code ops).1.arena.ring ∧
      (h.run (ops.map (Op.call code))).2 = (q.run code ops).2.map .slot := by
  induction ops generalizing h q with
  | nil => exact ⟨hring, rfl⟩
  | cons op ops ih =>
    have hstep := step_ring q code op
    rw [← hring] at hstep
    have hring' : (h.step (op.call code)).1.ring = (q.step code op).1.arena.ring := by simp only [Ring.History.step, hstep]
    have hslot : (h.step (op.call code)).2 = .slot (q.step code op).2 := by simp only [Ring.History.step, hstep]
    obtain ⟨hrest, hslots⟩ := ih hring'
    exact ⟨hrest, congrArg₂ List.cons hslot hslots⟩

/-- Whatever is put into a new ring comes out of it in the same order, from the same slots and as it was put in, if
    the slots are taken back as they were requested; and so it does when the cursors are words of 64 bits, as long
    as the write cursor stays below its limit. -/
theorem run_is_fifo (code : α → List UInt8) (capacity : Nat) (bytes : Memory) (ops : List (Op α))
    (h : (ofCapacity capacity bytes).Follows code ops) :
    let q := (ofCapacity capacity bytes).run code ops
    q.1.taken <+: q.1.granted ∧
      (∀ before op after, ops = before ++ op :: after →
        ((ofCapacity capacity bytes).run code before).1.Faithful code op) ∧
      ((Ring.History.ofCapacity capacity).StaysBelow (ops.map (Op.call code)) →
        (Ring.ofCapacity capacity).run64 (ops.map (Op.call code)) = some (q.1.arena.ring, q.2.map .slot)) := by
  have hnew := kept_ofCapacity (α := α) capacity bytes
  refine ⟨?_, fun before op after heq => ?_, fun hbelow => ?_⟩
  · obtain ⟨rest, hkept⟩ := hnew.run h
    exact ⟨rest, hkept.granted.symm⟩
  · have hbefore : (ofCapacity capacity bytes).Follows code before := fun before' op' after' heq' =>
      h before' op' (after' ++ op :: after) (by rw [heq, heq', List.append_assoc, List.cons_append])
    obtain ⟨rest, hkept⟩ := hnew.run hbefore
    exact hkept.faithful code (h before op after heq)
  · obtain ⟨hring, hslots⟩ := run_ring (h := .ofCapacity capacity) (q := ofCapacity capacity bytes) rfl code ops
    have hwords := Ring.History.run64_eq (Ring.History.sound_ofCapacity capacity) hbelow
    rwa [hring, hslots] at hwords

/-- The eight bytes of a number, the lowest one first. -/
def octets (n : Nat) : List UInt8 := (List.range 8).map fun i => UInt8.ofNat (n / 256 ^ i)

/-- Three numbers, of which the last one starts over in the place of the first. -/
def threeNumbers : List (Op Nat) :=
  [.put 7 8 false, .put 300 8 false, .take 8 8, .put 9 8 true, .take 8 8, .take 8 8, .take 3 1]

theorem fifo_threeNumbers :
    (ofCapacity 20 fun _ => 0).Follows octets threeNumbers ∧
      (Ring.History.ofCapacity 20).StaysBelow (threeNumbers.map (Op.call octets)) ∧
      (Ring.ofCapacity 20).run64 (threeNumbers.map (Op.call octets)) =
        some ({ capacity := 20, read := 28, write := 28, capacity_pos := by decide },
          [some ⟨0, 8⟩, some ⟨8, 8⟩, some ⟨0, 8⟩, some ⟨0, 8⟩, some ⟨8, 8⟩, some ⟨0, 8⟩, none].map .slot) ∧
      ((ofCapacity 20 fun _ => 0).run octets threeNumbers).1.taken.map Parcel.value = [some 7, some 300, some 9] := by
  have hfollows : (ofCapacity 20 fun _ => 0).Follows octets threeNumbers := by
    simp only [threeNumbers, follows_cons]
    exact ⟨by decide, by decide, by decide, by decide, by decide, by decide, by decide, follows_nil _ _⟩
  have hbelow : (Ring.History.ofCapacity 20).StaysBelow (threeNumbers.map (Op.call octets)) := by
    simp only [threeNumbers, List.map_cons, Ring.History.staysBelow_cons]
    exact ⟨by decide, by decide, by decide, by decide, by decide, by decide, by decide, Ring.History.staysBelow_nil _⟩
  obtain ⟨hbegins, -, hwords⟩ := run_is_fifo octets 20 (fun _ => 0) threeNumbers hfollows
  refine ⟨hfollows, hbelow, (hwords hbelow).trans rfl, ?_⟩
  rw [hbegins.eq_of_length (by decide)]
  decide

end Queue

end PerfCounters
