import PerfCounters.Proofs.Rings.Words

/-! Any calls on a ring. The cursors stay within one turn of each other, whether the retrievals repeat the
    requests or not. What was granted and not yet read over lies in the window between the cursors, and a new
    slot lies behind the write cursor and within a turn of the read cursor: so it covers no byte of theirs. -/

namespace PerfCounters

namespace Ring

/-- What can be asked of a ring. -/
inductive Op where
  | request (length align : Nat) (wrap : Bool)
  | retrieve (length align : Nat)
  | clear
  | tryClear
  | reset
deriving DecidableEq, Repr

/-- What a ring answers. -/
inductive Reply where
  | slot (slot : Option Slot)
  | cleared (result : Except RingError Unit)
  | tried (cleared : Bool)
  | done
deriving DecidableEq, Repr

/-- The length and the alignment that a call asks of its slot. -/
def Op.asked : Op → Option (Nat × Nat)
  | .request length align _ | .retrieve length align => some (length, align)
  | .clear | .tryClear | .reset => none

/-- The call was refused. -/
def Reply.Refused : Reply → Prop
  | .slot found => found = none
  | .cleared result => result ≠ .ok ()
  | .tried success => success = false
  | .done => False

def perform (r : Ring) : Op → Ring × Reply
  | .request length align wrap => (r.request length align wrap).map id .slot
  | .retrieve length align => (r.retrieve length align).map id .slot
  | .clear => match r.clear with
    | .ok r' => (r', .cleared (.ok ()))
    | .error e => (r, .cleared (.error e))
  | .tryClear => r.tryClear.map id .tried
  | .reset => (r.reset, .done)

/-- A call in words of 64 bits. Clearing takes no arithmetic. -/
def perform64 (r : Ring) : Op → Option (Ring × Reply)
  | .request length align wrap => (r.request64 length align wrap).map fun x => x.map id .slot
  | .retrieve length align => (r.retrieve64 length align).map fun x => x.map id .slot
  | op => some (r.perform op)

/-- Calls one after the other, in words. -/
def run64 (r : Ring) : List Op → Option (Ring × List Reply)
  | [] => some (r, [])
  | op :: ops => do
    let (r, reply) ← r.perform64 op
    let (r, replies) ← r.run64 ops
    return (r, reply :: replies)

/-- A granted slot, and where on the way of the cursors it starts. -/
structure Grant where
  start : Nat
  slot : Slot
deriving DecidableEq, Repr

/-- A ring with the slots that were granted since it was last cleared, oldest first. -/
structure History where
  ring : Ring
  granted : List Grant := []

/-- The slots that are known after a call. A slot ends where its request leaves the write cursor. -/
def History.grantsAfter (h : History) : Op → Reply → List Grant
  | .request length align wrap, .slot (some slot) =>
    h.granted ++ [⟨(h.ring.perform (.request length align wrap)).1.write - length, slot⟩]
  | .clear, .cleared (.ok ()) | .tryClear, .tried true | .reset, _ => []
  | _, _ => h.granted

def History.step (h : History) (op : Op) : History × Reply :=
  let (ring, reply) := h.ring.perform op
  ({ ring, granted := h.grantsAfter op reply }, reply)

/-- The history after some calls, and the answers to them. -/
def History.run (h : History) : List Op → History × List Reply
  | [] => (h, [])
  | op :: ops =>
    let (h, reply) := h.step op
    let (h, replies) := h.run ops
    (h, reply :: replies)

/-- A new ring, of which nothing was granted. -/
def History.ofCapacity (capacity : Nat) : History := { ring := Ring.ofCapacity capacity }

/-- The write cursor is below its limit before each of these calls. -/
def History.StaysBelow (h : History) (ops : List Op) : Prop :=
  ∀ before op after, ops = before ++ op :: after → (h.run before).1.ring.Below

/-- What holds of a call on a ring. -/
structure History.Orderly (h : History) (op : Op) : Prop where
  window : (h.step op).1.ring.Windowed
  capacity : (h.step op).1.ring.capacity = h.ring.capacity
  /-- A call that is refused moves no cursor. -/
  unmoved : (h.step op).2.Refused → (h.step op).1.ring = h.ring
  placed : ∀ length align slot, op.asked = some (length, align) → (h.step op).2 = .slot (some slot) →
    slot.length = length ∧ slot.Placed h.ring.capacity align
  /-- A granted slot shares no byte with one that the read cursor has not passed. -/
  apart : ∀ length align wrap slot, op = .request length align wrap → (h.step op).2 = .slot (some slot) →
    ∀ g ∈ h.granted, h.ring.read ≤ g.start → g.slot.Apart slot

namespace History

variable {h : History} {op : Op}

/-- All that a call can do: it is refused, or it grants a slot, takes one back, or forgets them all. -/
theorem step_cases (h : History) (op : Op) :
    ((h.step op).1 = h ∧ (h.step op).2.Refused) ∨
      (∃ length align wrap start, op = .request length align wrap ∧ h.ring.admits length align = true ∧
        h.ring.place? h.ring.write length align wrap = some start ∧ start + length - h.ring.read ≤ h.ring.capacity ∧
        h.step op = (⟨{ h.ring with write := start + length }, h.granted ++ [⟨start, h.ring.slotAt start length⟩]⟩,
          .slot (some (h.ring.slotAt start length)))) ∨
      (∃ length align start, op = .retrieve length align ∧ h.ring.admits length align = true ∧
        h.ring.place? h.ring.read length align true = some start ∧ start + length ≤ h.ring.write ∧
        h.step op = ({ h with ring := { h.ring with read := start + length } },
          .slot (some (h.ring.slotAt start length)))) ∨
      (op.asked = none ∧ (h.step op).1 = ⟨h.ring.reset, []⟩ ∧ ¬(h.step op).2.Refused) := by
  cases op with
  | request length align wrap =>
    rcases request_cases h.ring length align wrap with hreq | ⟨start, hadmits, hplace, hroom, hreq⟩
    · refine Or.inl ⟨?_, ?_⟩ <;> simp [step, perform, hreq, grantsAfter, Reply.Refused]
    · refine Or.inr (Or.inl ⟨length, align, wrap, start, rfl, hadmits, hplace, hroom, ?_⟩)
      simp [step, perform, hreq, grantsAfter]
  | retrieve length align =>
    rcases retrieve_cases h.ring length align with hret | ⟨start, hadmits, hplace, hroom, hret⟩
    · refine Or.inl ⟨?_, ?_⟩ <;> simp [step, perform, hret, grantsAfter, Reply.Refused]
    · refine Or.inr (Or.inr (Or.inl ⟨length, align, start, rfl, hadmits, hplace, hroom, ?_⟩))
      simp [step, perform, hret, grantsAfter]
  | clear =>
    by_cases hread : h.ring.read = 0
    · refine Or.inr (Or.inr (Or.inr ⟨rfl, ?_, ?_⟩)) <;>
        simp [step, perform, Ring.clear, reset, hread, grantsAfter, Reply.Refused]
    · refine Or.inl ⟨?_, ?_⟩ <;> simp [step, perform, Ring.clear, hread, grantsAfter, Reply.Refused]
  | tryClear =>
    by_cases hread : h.ring.read = 0
    · refine Or.inr (Or.inr (Or.inr ⟨rfl, ?_, ?_⟩)) <;>
        simp [step, perform, Ring.tryClear, Ring.clear, reset, hread, grantsAfter, Reply.Refused]
    · refine Or.inl ⟨?_, ?_⟩ <;> simp [step, perform, Ring.tryClear, Ring.clear, hread, grantsAfter, Reply.Refused]
  | reset => exact Or.inr (Or.inr (Or.inr ⟨rfl, rfl, fun h => h⟩))

/-- What every call keeps: granted slots lie before the write cursor, where their starts say. -/
structure Sound (h : History) : Prop where
  window : h.ring.Windowed
  granted : ∀ g ∈ h.granted, ∃ length, g.slot = h.ring.slotAt g.start length ∧ g.start + length ≤ h.ring.write

theorem sound_ofCapacity (capacity : Nat) : (ofCapacity capacity).Sound :=
  ⟨⟨Nat.le_refl _, Nat.zero_le _⟩, fun g hg => by cases hg⟩

theorem Sound.step (hs : h.Sound) (op : Op) : (h.step op).1.Sound := by
  have hread := hs.window.read_le
  have hspan := hs.window.span_le
  rcases step_cases h op with ⟨heq, -⟩ | ⟨length, align, wrap, start, -, hadmits, hplace, hroom, heq⟩ |
      ⟨length, align, start, -, hadmits, hplace, hroom, heq⟩ | ⟨-, heq, -⟩
  · rw [heq]
    exact hs
  · obtain ⟨hpos, hfits, halign⟩ := admits_iff.mp hadmits
    obtain ⟨hle, -, -⟩ := place?_eq_some hpos hfits (alignments_pos halign) hplace
    rw [heq]
    refine ⟨⟨?_, hroom⟩, fun g hg => ?_⟩
    · show h.ring.read ≤ start + length
      omega
    · rcases List.mem_append.mp hg with hg | hg
      · obtain ⟨length', hslot, hbefore⟩ := hs.granted g hg
        refine ⟨length', hslot, ?_⟩
        show g.start + length' ≤ start + length
        omega
      · rw [List.mem_singleton.mp hg]
        exact ⟨length, rfl, Nat.le_refl _⟩
  · obtain ⟨hpos, hfits, halign⟩ := admits_iff.mp hadmits
    obtain ⟨hle, -, -⟩ := place?_eq_some hpos hfits (alignments_pos halign) hplace
    rw [heq]
    refine ⟨⟨hroom, ?_⟩, hs.granted⟩
    show h.ring.write - (start + length) ≤ h.ring.capacity
    omega
  · rw [heq]
    exact ⟨⟨Nat.le_refl _, Nat.zero_le _⟩, fun g hg => by cases hg⟩

theorem Sound.orderly (hs : h.Sound) (op : Op) : h.Orderly op where
  window := (hs.step op).window
  capacity := by
    rcases step_cases h op with ⟨heq, -⟩ | ⟨_, _, _, _, -, -, -, -, heq⟩ | ⟨_, _, _, -, -, -, -, heq⟩ | ⟨-, heq, -⟩ <;>
      rw [heq]
    rfl
  unmoved hrefused := by
    rcases step_cases h op with ⟨heq, -⟩ | ⟨_, _, _, _, -, -, -, -, heq⟩ | ⟨_, _, _, -, -, -, -, heq⟩ | ⟨-, -, hnot⟩
    · rw [heq]
    · rw [heq] at hrefused
      cases hrefused
    · rw [heq] at hrefused
      cases hrefused
    · exact absurd hrefused hnot
  placed length align slot hasked hslot := by
    rcases step_cases h op with ⟨-, hrefused⟩ | ⟨_, _, _, start, rfl, hadmits, hplace, -, heq⟩ |
        ⟨_, _, start, rfl, hadmits, hplace, -, heq⟩ | ⟨hnone, -, -⟩
    · rw [hslot] at hrefused
      cases hrefused
    · cases hasked
      rw [heq] at hslot
      cases hslot
      obtain ⟨hpos, hfits, halign⟩ := admits_iff.mp hadmits
      exact ⟨rfl, (place?_eq_some hpos hfits (alignments_pos halign) hplace).2.2⟩
    · cases hasked
      rw [heq] at hslot
      cases hslot
      obtain ⟨hpos, hfits, halign⟩ := admits_iff.mp hadmits
      exact ⟨rfl, (place?_eq_some hpos hfits (alignments_pos halign) hplace).2.2⟩
    · rw [hnone] at hasked
      cases hasked
  apart length align wrap slot hop hslot g hg hpassed := by
    subst hop
    rcases step_cases h (.request length align wrap) with ⟨-, hrefused⟩ |
        ⟨_, _, _, start, hop, hadmits, hplace, hroom, heq⟩ | ⟨_, _, _, hop, -, -, -, -⟩ | ⟨hnone, -, -⟩
    · rw [hslot] at hrefused
      cases hrefused
    · cases hop
      rw [heq] at hslot
      cases hslot
      obtain ⟨hpos, hfits, halign⟩ := admits_iff.mp hadmits
      obtain ⟨hle, -, -⟩ := place?_eq_some hpos hfits (alignments_pos halign) hplace
      obtain ⟨length', hgslot, hbefore⟩ := hs.granted g hg
      rw [hgslot]
      exact slotAt_apart (by omega) (by omega)
    · cases hop
    · cases hnone

/-! ### Runs -/

theorem Sound.run (hs : h.Sound) (ops : List Op) : (h.run ops).1.Sound := by
  induction ops generalizing h with
  | nil => exact hs
  | cons op ops ih => exact ih (hs.step op)

theorem staysBelow_nil (h : History) : h.StaysBelow [] := by
  intro before op after heq
  cases before <;> cases heq

theorem staysBelow_cons {ops : List Op} :
    h.StaysBelow (op :: ops) ↔ h.ring.Below ∧ (h.step op).1.StaysBelow ops := by
  constructor
  · intro hb
    refine ⟨hb [] op ops rfl, fun before op' after heq => hb (op :: before) op' after ?_⟩
    rw [heq, List.cons_append]
  · rintro ⟨hhead, htail⟩ before op' after heq
    cases before with
    | nil =>
      cases heq
      exact hhead
    | cons first before =>
      cases heq
      exact htail before op' after rfl

theorem perform64_eq (hs : h.Sound) (hb : h.ring.Below) (op : Op) : h.ring.perform64 op = some (h.ring.perform op) := by
  cases op with
  | request length align wrap => rw [perform64, request64_eq hs.window hb]; rfl
  | retrieve length align => rw [perform64, retrieve64_eq hs.window hb]; rfl
  | clear | tryClear | reset => rfl

theorem run64_eq {ops : List Op} (hs : h.Sound) (hb : h.StaysBelow ops) :
    h.ring.run64 ops = some ((h.run ops).1.ring, (h.run ops).2) := by
  induction ops generalizing h with
  | nil => rfl
  | cons op ops ih =>
    obtain ⟨hbelow, hb⟩ := staysBelow_cons.mp hb
    have hrest := ih (hs.step op) hb
    rw [run64, perform64_eq hs hbelow]
    show ((h.step op).1.ring.run64 ops >>= fun x => some (x.1, (h.step op).2 :: x.2)) = _
    rw [hrest]
    rfl

end History

/-- As long as the write cursor stays below its limit, any calls can be answered in words of 64 bits, and every one
    of them is orderly. -/
theorem run_orderly (capacity : Nat) (ops : List Op) (h : (History.ofCapacity capacity).StaysBelow ops) :
    (Ring.ofCapacity capacity).run64 ops =
        some (((History.ofCapacity capacity).run ops).1.ring, ((History.ofCapacity capacity).run ops).2) ∧
      ∀ before op after, ops = before ++ op :: after → ((History.ofCapacity capacity).run before).1.Orderly op :=
  have hs := History.sound_ofCapacity capacity
  ⟨History.run64_eq hs h, fun before op _ _ => (hs.run before).orderly op⟩

/-- Two slots, of which the first is taken back, and a third one that starts over in its place. -/
def startingOver : List Op :=
  [.request 60 4 false, .request 20 8 false, .retrieve 60 4, .clear, .request 48 4 true]

theorem orderly_startingOver : (History.ofCapacity 100).StaysBelow startingOver ∧
    (Ring.ofCapacity 100).run64 startingOver =
      some ({ capacity := 100, read := 60, write := 148, capacity_pos := by decide },
        [.slot (some ⟨0, 60⟩), .slot (some ⟨64, 20⟩), .slot (some ⟨0, 60⟩), .cleared (.error (.readsOutstanding 60)),
          .slot (some ⟨0, 48⟩)]) ∧
    Slot.Apart ⟨64, 20⟩ ⟨0, 48⟩ := by
  have hbelow : (History.ofCapacity 100).StaysBelow startingOver := by
    simp only [startingOver, History.staysBelow_cons]
    exact ⟨by decide, by decide, by decide, by decide, by decide, History.staysBelow_nil _⟩
  obtain ⟨hwords, horderly⟩ := run_orderly 100 startingOver hbelow
  refine ⟨hbelow, hwords.trans rfl, ?_⟩
  have hlast := horderly (startingOver.take 4) (.request 48 4 true) [] rfl
  exact hlast.apart 48 4 true ⟨0, 48⟩ rfl rfl ⟨64, 64, 20⟩ (by decide) (by decide)

end Ring

end PerfCounters
