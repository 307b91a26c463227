import PerfCounters.Proofs.Buffering.Sides
import PerfCounters.Service.Emplace

/-! Lookups in the registry: what an update leaves under each number, and what the consumer was given
    of a number. -/

namespace PerfCounters

namespace Service

variable {α : Type} {s : Service α} {b : Buffer α} {id : BufferId}

/-! ### Lookups after an update -/

/-- Replacing the value under one key changes what is found there, and nothing else. -/
theorem find?_replace {β : Type} (key : BufferId) (value : β) (id : BufferId) (entries : List (BufferId × β)) :
    ((entries.map fun entry => if entry.1 == key then (entry.1, value) else entry).find?
        fun entry => entry.1 == id).map Prod.snd =
      if id = key then ((entries.find? fun entry => entry.1 == id).map Prod.snd).map fun _ => value
      else (entries.find? fun entry => entry.1 == id).map Prod.snd := by
  have hkeys : ((fun entry : BufferId × β => entry.1 == id) ∘
      fun entry => if entry.1 == key then (entry.1, value) else entry) = fun entry => entry.1 == id := by
    funext entry
    simp only [Function.comp_apply]
    split <;> rfl
  rw [List.find?_map, hkeys]
  cases hfound : entries.find? fun entry => entry.1 == id with
  | none => simp
  | some entry =>
    have hid : entry.1 = id := by simpa using List.find?_some hfound
    by_cases hkey : id = key
    · simp [hid, hkey]
    · simp [hid, hkey]

theorem lookup?_setBuffer (s : Service α) (b : Buffer α) (id : BufferId) :
    (s.setBuffer b).lookup? id = if id = b.id then (s.lookup? id).map fun _ => some b else s.lookup? id :=
  find?_replace b.id (some b) id s.registry

/-- A buffer is found under its number once it was put there, and no other number is touched. -/
theorem buffer?_setBuffer (h : (s.lookup? b.id).isSome = true) (id : BufferId) :
    (s.setBuffer b).buffer? id = if id = b.id then some b else s.buffer? id := by
  rw [buffer?, lookup?_setBuffer]
  split
  · rename_i heq
    obtain ⟨entry, hentry⟩ := Option.isSome_iff_exists.mp h
    simp [heq, hentry]
  · rfl

theorem isSome_lookup? (h : s.buffer? id = some b) : (s.lookup? id).isSome = true := by
  cases he : s.lookup? id with
  | none => simp [buffer?, he] at h
  | some entry => rfl

theorem lookup?_of_buffer? (h : s.buffer? id = some b) : s.lookup? id = some (some b) := by
  unfold buffer? at h
  cases hl : s.lookup? id with
  | none => simp [hl] at h
  | some entry => simpa [hl] using h

theorem configured_eq_ok : s.configured id = .ok b ↔ s.buffer? id = some b := by
  unfold configured buffer?
  cases s.lookup? id with
  | none => simp
  | some entry => cases entry <;> simp

theorem buffer?_of_configured_error {e : BufferError} (h : s.configured id = .error e) : s.buffer? id = none := by
  cases hb : s.buffer? id with
  | none => rfl
  | some b => rw [configured_eq_ok.mpr hb] at h; cases h

@[simp] theorem buffer?_allocate (s : Service α) (id : BufferId) : s.allocate.1.buffer? id = s.buffer? id := by
  simp only [buffer?, lookup?, allocate, List.find?_append]
  cases hfound : s.registry.find? fun entry => entry.1 == id with
  | some entry => rfl
  | none =>
    simp only [Option.none_or, List.find?_cons, List.find?_nil]
    split <;> rfl

theorem buffer?_unregister (s : Service α) (gone id : BufferId) :
    (s.unregister gone).buffer? id = if id = gone then none else s.buffer? id := by
  simp only [buffer?, lookup?, unregister, List.find?_filter]
  split
  · rename_i heq
    rw [List.find?_eq_none.mpr]
    · rfl
    · intro entry _
      simp [heq]
  · rename_i hne
    congr 3
    funext entry
    by_cases h : entry.1 = id
    · simp [h, hne]
    · simp [h]

theorem mem_ids_of_lookup? {entry : Option (Buffer α)} (h : s.lookup? id = some entry) : id ∈ s.ids := by
  obtain ⟨found, hfound, -⟩ := Option.map_eq_some_iff.mp h
  have hkey : found.1 = id := by simpa using List.find?_some hfound
  exact List.mem_map.mpr ⟨found, List.mem_of_find?_eq_some hfound, hkey⟩

/-- A number is listed when it has a buffer. -/
theorem mem_ids (h : s.buffer? id = some b) : id ∈ s.ids := by
  obtain ⟨entry, hentry⟩ := Option.isSome_iff_exists.mp (isSome_lookup? h)
  exact mem_ids_of_lookup? hentry

/-! ### What the consumer was given -/

/-- The records of a buffer that the consumer took, oldest first. -/
def delivered (s : Service α) (id : BufferId) : List (Record α) :=
  (s.log.filter fun d => d.accepted && d.batch.buffer == id).flatMap fun d => d.batch.records

/-- The records under a number, oldest first; none where there is no buffer. -/
def held (s : Service α) (id : BufferId) : List (Record α) :=
  match s.buffer? id with
  | some b => b.held
  | none => []

/-- Every record under a number that was not lost: what was delivered, then what is held. -/
def ledger (s : Service α) (id : BufferId) : List (Record α) := s.delivered id ++ s.held id

theorem held_of_buffer? (h : s.buffer? id = some b) : s.held id = b.held := by simp [held, h]

theorem held_of_none (h : s.buffer? id = none) : s.held id = [] := by simp [held, h]

theorem held_congr {s' : Service α} (h : s'.buffer? id = s.buffer? id) : s'.held id = s.held id := by
  rw [held, held, h]

@[simp] theorem delivered_setBuffer (s : Service α) (b : Buffer α) (id : BufferId) :
    (s.setBuffer b).delivered id = s.delivered id := rfl

end Service

end PerfCounters
