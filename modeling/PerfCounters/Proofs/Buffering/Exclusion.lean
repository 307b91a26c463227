import Mathlib.Data.List.Induction
import PerfCounters.Proofs.Buffering.Contents

/-! The gate over any history. One thread takes the gate and gives it back, nested and unbalanced as it likes, and reads
    and empties the buffer in between; other threads give back what they have not taken and try to store. The owner of the
    gate, how often it was taken, the lock and the number of threads at the gate all follow from two counts: how
    often that thread has taken the gate, and how often it has given a taking back. -/

namespace PerfCounters

namespace Gate

variable {t t' : Thread} {n : Nat}

/-- A gate that was not taken, or by another thread, cannot be given back. -/
theorem unlock_of_ne (h : t' ≠ t ∨ n = 0) : (taken t n).unlock t' = taken t n := by
  refine if_neg fun ⟨howner, hdepth⟩ => ?_
  cases n with
  | zero => exact hdepth rfl
  | succ n => exact h.elim (fun hne => hne (Option.some.inj howner).symm) (Nat.succ_ne_zero n)

end Gate

namespace RecordBuffer

/-- What is asked of a buffer whose gate one thread uses. Giving back and trying to store may be calls of any thread. Any
    other scope of the gate is a `lock`, what is called inside, and an `unlock` of that thread. -/
inductive Call (α : Type) where
  | lock
  | unlock (t : Thread)
  | process (clearAfter : Bool)
  /-- Reads in a scope that takes the gate and gives it back when it ends. -/
  | inScope (clearAfter : Bool)
  | clear
  | tryEmplace (r : Record α)
  | emplace (r : Record α)
deriving DecidableEq, Repr

inductive Answer (α : Type) where
  | done
  | stored (success : Bool)
  | passed (records : List (Record α))
deriving DecidableEq, Repr

variable {α : Type} {b : RecordBuffer α} {me t : Thread} {c : Call α} {n : Nat}

/-- One call; `none` says that it waits. -/
def call? (b : RecordBuffer α) (me : Thread) : Call α → Option (RecordBuffer α × Answer α)
  | .lock => (b.lock? me).map fun b => (b, .done)
  | .unlock t => some (b.unlock t, .done)
  | .process clearAfter => (b.process? me clearAfter).map fun x => (x.1, .passed x.2)
  | .inScope clearAfter => do
    let b ← b.lock? me
    let (b, records) ← b.process? me clearAfter
    return (b.unlock me, .passed records)
  | .clear => (b.clear? me).map fun b => (b, .done)
  | .tryEmplace r => (b.tryEmplace? r).map fun x => (x.1, .stored x.2)
  | .emplace r => (b.emplace? r).map fun x => (x.1, .stored x.2)

def calls? (b : RecordBuffer α) (me : Thread) : List (Call α) → Option (RecordBuffer α × List (Answer α))
  | [] => some (b, [])
  | c :: cs => do
    let (b, answer) ← b.call? me c
    let (b, answers) ← b.calls? me cs
    return (b, answer :: answers)

/-- How often a thread has taken the gate, and how often it has given a taking back. -/
structure Takings where
  taken : Nat := 0
  returned : Nat := 0
deriving DecidableEq, Repr

namespace Takings

/-- The thread has the gate. -/
def Held (x : Takings) : Prop := x.returned < x.taken

instance (x : Takings) : Decidable x.Held := inferInstanceAs (Decidable (_ < _))

/-- Giving back counts only for the thread that has the gate. -/
def after (x : Takings) (me : Thread) : Call α → Takings
  | .lock => { x with taken := x.taken + 1 }
  | .unlock t => if t = me ∧ x.Held then { x with returned := x.returned + 1 } else x
  | .process _ | .inScope _ | .clear | .tryEmplace _ | .emplace _ => x

def ofCalls (me : Thread) (cs : List (Call α)) : Takings := cs.foldl (fun x c => x.after me c) {}

end Takings

/-- A thread that has the gate does not store and wait for itself. -/
def Permitted (me : Thread) (cs : List (Call α)) : Prop :=
  ∀ before r after, cs = before ++ .emplace r :: after → ¬(Takings.ofCalls me before).Held

/-- The records after a call, going by its answer. -/
def recordsAfter (records : List (Record α)) : Call α → Answer α → List (Record α)
  | .emplace r, .stored success | .tryEmplace r, .stored success => if success then records ++ [r] else records
  | .process clearAfter, _ | .inScope clearAfter, _ => if clearAfter then [] else records
  | .clear, _ => []
  | _, _ => records

/-- The records that were stored and not cleared since, going by the answers. -/
def recordsOf (cs : List (Call α)) (answers : List (Answer α)) : List (Record α) :=
  (cs.zip answers).foldl (fun records x => recordsAfter records x.1 x.2) []

/-- The gate keeps to the takings of one thread, and everybody else to the gate. -/
structure Exclusive (b : RecordBuffer α) (me : Thread) (x : Takings) : Prop where
  /-- The owner, the depth, the lock and the number of threads at the gate. -/
  gate : b.gate = if x.Held then { owner := some me, depth := x.taken - x.returned, locked := true, gated := 1 } else {}
  refuses : x.Held → ∀ r, b.tryEmplace? r = some (b, false)
  waits : x.Held → ∀ r, b.emplace? r = none
  admits : ¬x.Held → ∀ r, b.tryEmplace? r = b.emplace? r ∧ b.emplace? r = some (b.push r)
  drains : ∀ clearAfter, b.process? me clearAfter = some (if clearAfter then b.empty else b, b.records)
  clears : b.clear? me = some b.empty
  emptied : b.empty.gate = b.gate ∧ b.empty.records = [] ∧ b.empty.count = 0
  ignores : ∀ t, t ≠ me ∨ ¬x.Held → b.unlock t = b

/-! ### One call -/

/-- What every call keeps: no thread takes the gate but one, as often as it has not given it back. -/
structure Follows (b : RecordBuffer α) (me : Thread) (x : Takings) : Prop where
  intact : b.Intact
  gate : b.gate = .taken me (x.taken - x.returned)
  returned : x.returned ≤ x.taken

variable {x : Takings}

theorem Takings.held_iff (x : Takings) : x.Held ↔ x.taken - x.returned ≠ 0 := by
  unfold Held
  omega

/-- Behind a gate that somebody has, nobody stores. -/
theorem tryEmplace?_taken (h : b.gate = .taken me (n + 1)) (r : Record α) : b.tryEmplace? r = some (b, false) := by
  rw [tryEmplace?, h]
  exact if_pos Nat.one_pos

theorem emplace?_taken (h : b.gate = .taken me (n + 1)) (r : Record α) : b.emplace? r = none := by
  rw [emplace?, h]
  rfl

theorem unlock_of_ne (h : b.gate = .taken me n) (hne : t ≠ me ∨ n = 0) : b.unlock t = b := by
  rw [unlock, h, Gate.unlock_of_ne hne]
  exact withGate_of_eq h

theorem Follows.open (h : b.Follows me x) (hheld : ¬x.Held) : b.gate = .opened := by
  rw [h.gate, not_not.mp (mt x.held_iff.mpr hheld)]
  rfl

theorem Follows.shut (h : b.Follows me x) (hheld : x.Held) :
    ∃ n, x.taken - x.returned = n + 1 ∧ b.gate = .taken me (n + 1) := by
  obtain ⟨n, hn⟩ := Nat.exists_eq_succ_of_ne_zero (x.held_iff.mp hheld)
  exact ⟨n, hn, by rw [h.gate, hn]⟩

theorem follows_ofCapacity (capacity : Nat) (me : Thread) : (ofCapacity capacity : RecordBuffer α).Follows me {} :=
  ⟨(bare_ofCapacity capacity).intact, rfl, Nat.le_refl 0⟩

theorem Follows.cleared (h : b.Follows me x) (clearAfter : Bool) :
    (if clearAfter then b.empty else b).Follows me x ∧
      (if clearAfter then b.empty else b).records = if clearAfter then [] else b.records := by
  have hbare := h.intact.bare_empty
  cases clearAfter with
  | false => exact ⟨h, rfl⟩
  | true => exact ⟨⟨hbare.intact, h.gate, h.returned⟩, hbare.records⟩

theorem Follows.push (h : b.Follows me x) (r : Record α) :
    (b.push r).1.Follows me x ∧ (b.push r).1.records = if (b.push r).2 then b.records ++ [r] else b.records := by
  obtain ⟨hintact, hgate, -, hrecords⟩ := push_cases (r := r) h.intact
  exact ⟨⟨hintact, hgate.trans h.gate, h.returned⟩, hrecords⟩

theorem Follows.lock (h : b.Follows me x) :
    ({ b with gate := .taken me (x.taken - x.returned + 1) } : RecordBuffer α).Follows me
      (x.after me (.lock : Call α)) := by
  refine ⟨h.intact.gate _, ?_, Nat.le_succ_of_le h.returned⟩
  show Gate.taken me (x.taken - x.returned + 1) = .taken me (x.taken + 1 - x.returned)
  rw [Nat.sub_add_comm h.returned]

theorem Follows.unlock (h : b.Follows me x) (t : Thread) : (b.unlock t).Follows me (x.after me (.unlock t : Call α)) := by
  by_cases hcounts : t = me ∧ x.Held
  · obtain ⟨n, hn, hgate⟩ := h.shut hcounts.2
    have hlt : x.returned < x.taken := hcounts.2
    rw [hcounts.1, unlock_taken hgate, Takings.after, if_pos ⟨rfl, hcounts.2⟩]
    refine ⟨h.intact.gate _, congrArg (Gate.taken me) ?_, hlt⟩
    show n = x.taken - (x.returned + 1)
    omega
  · rw [Takings.after, if_neg hcounts, unlock_of_ne h.gate]
    · exact h
    · rw [not_and_or, x.held_iff, not_not] at hcounts
      exact hcounts

/-- Every call that may be made returns, and its answer tells what is stored afterwards. -/
theorem Follows.call (h : b.Follows me x) (hc : ∀ r, c = .emplace r → ¬x.Held) :
    ∃ b' answer, b.call? me c = some (b', answer) ∧ b'.Follows me (x.after me c) ∧
      b'.records = recordsAfter b.records c answer := by
  cases c with
  | lock => exact ⟨_, .done, by rw [call?, lock?_taken h.gate, Option.map_some], h.lock, rfl⟩
  | unlock t => exact ⟨_, .done, rfl, h.unlock t, rfl⟩
  | process clearAfter =>
    exact ⟨_, .passed b.records, by rw [call?, process?_taken h.gate, Option.map_some], h.cleared clearAfter⟩
  | inScope clearAfter =>
    -- Inside of the scope the gate is one deeper, and the reading leaves it so.
    have hscope : b.call? me (.inScope clearAfter) = some (if clearAfter then b.empty else b, .passed b.records) := by
      simp only [call?, lock?_taken h.gate, bind, Option.bind, process?_taken (b := { b with gate := .taken me _ }) rfl]
      cases clearAfter with
      | false => exact congrArg (fun b' => some (b', _)) ((unlock_taken rfl).trans (withGate_of_eq h.gate))
      | true => exact congrArg (fun b' => some (b', _)) ((unlock_taken rfl).trans (withGate_of_eq (b := b.empty) h.gate))
    exact ⟨_, _, hscope, h.cleared clearAfter⟩
  | clear => exact ⟨b.empty, .done, by rw [call?, clear?_taken h.gate, Option.map_some], h.cleared true⟩
  | tryEmplace r =>
    by_cases hheld : x.Held
    · obtain ⟨n, -, hgate⟩ := h.shut hheld
      exact ⟨b, .stored false, by rw [call?, tryEmplace?_taken hgate, Option.map_some], h, rfl⟩
    · exact ⟨_, _, by rw [call?, tryEmplace?_open (h.open hheld), Option.map_some], h.push r⟩
  | emplace r => exact ⟨_, _, by rw [call?, emplace?_open (h.open (hc r rfl)), Option.map_some], h.push r⟩

theorem Follows.exclusive (h : b.Follows me x) : b.Exclusive me x where
  gate := by
    by_cases hheld : x.Held
    · obtain ⟨n, hn, hgate⟩ := h.shut hheld
      rw [hgate, if_pos hheld, hn]
      rfl
    · rw [h.open hheld, if_neg hheld]
      rfl
  refuses hheld r := by
    obtain ⟨n, -, hgate⟩ := h.shut hheld
    exact tryEmplace?_taken hgate r
  waits hheld r := by
    obtain ⟨n, -, hgate⟩ := h.shut hheld
    exact emplace?_taken hgate r
  admits hheld r := by
    rw [tryEmplace?_open (h.open hheld), emplace?_open (h.open hheld)]
    exact ⟨rfl, rfl⟩
  drains clearAfter := process?_taken h.gate clearAfter
  clears := clear?_taken h.gate
  emptied := by
    have hbare := h.intact.bare_empty
    exact ⟨rfl, hbare.records, hbare.count⟩
  ignores t ht := unlock_of_ne h.gate (ht.imp_right fun hheld => not_not.mp (mt x.held_iff.mpr hheld))

/-! ### Runs -/

theorem calls?_append (b : RecordBuffer α) (me : Thread) (cs : List (Call α)) (c : Call α) :
    b.calls? me (cs ++ [c]) = (b.calls? me cs).bind fun x => (x.1.call? me c).map fun y => (y.1, x.2 ++ [y.2]) := by
  induction cs generalizing b with
  | nil =>
    simp only [List.nil_append, calls?, bind, Option.bind_some, pure]
    cases b.call? me c <;> rfl
  | cons first cs ih =>
    simp only [List.cons_append, calls?, bind, pure, ih]
    cases b.call? me first with
    | none => rfl
    | some x =>
      simp only [Option.bind_some]
      cases x.1.calls? me cs with
      | none => rfl
      | some y =>
        simp only [Option.bind_some]
        cases y.1.call? me c <;> rfl

theorem Permitted.before {cs : List (Call α)} (h : Permitted me (cs ++ [c])) : Permitted me cs := fun before r after heq =>
  h before r (after ++ [c]) (by rw [heq, List.append_assoc, List.cons_append])

/-- Induction from the end: the last call is made of a buffer that follows the takings so far. -/
theorem Follows.calls (capacity : Nat) (me : Thread) {cs : List (Call α)} (h : Permitted me cs) :
    ∃ b answers, (ofCapacity capacity).calls? me cs = some (b, answers) ∧ answers.length = cs.length ∧
      b.Follows me (Takings.ofCalls me cs) ∧ b.records = recordsOf cs answers := by
  induction cs using List.reverseRecOn with
  | nil => exact ⟨_, [], rfl, rfl, follows_ofCapacity capacity me, (bare_ofCapacity capacity).records⟩
  | append_singleton cs c ih =>
    obtain ⟨b, answers, hrun, hlength, hfollows, hrecords⟩ := ih h.before
    obtain ⟨b', answer, hcall, hfollows', hrecords'⟩ := hfollows.call (c := c) fun r heq => h cs r [] (heq ▸ rfl)
    refine ⟨b', answers ++ [answer], ?_, ?_, ?_, ?_⟩
    · rw [calls?_append, hrun, Option.bind_some, hcall, Option.map_some]
    · rw [List.length_append, List.length_append, hlength]
      rfl
    · rw [Takings.ofCalls, List.foldl_append]
      exact hfollows'
    · rw [hrecords', hrecords, recordsOf, recordsOf, List.zip_append hlength.symm, List.foldl_append]
      rfl

/-- Whatever is asked of a new buffer in any order, if the thread at the gate does not wait for itself: every call
    returns, and the thread has the gate if and only if it has taken it more often than it has given it back, which a call
    at depth 0 or by another thread does not do. While it has the gate nobody stores, what is tried changes nothing, and it
    reads and clears what was stored since the last clear without moving the gate; while it has not, trying to store is
    storing. -/
theorem run_keeps_gate_exclusive (capacity : Nat) (me : Thread) (cs : List (Call α)) (h : Permitted me cs) :
    ∃ b answers, (ofCapacity capacity).calls? me cs = some (b, answers) ∧ answers.length = cs.length ∧
      b.records = recordsOf cs answers ∧ b.Exclusive me (Takings.ofCalls me cs) := by
  obtain ⟨b, answers, hrun, hlength, hfollows, hrecords⟩ := Follows.calls capacity me h
  exact ⟨b, answers, hrun, hlength, hrecords, hfollows.exclusive⟩

/-- Takings within takings, one given back too often, and one by another thread. -/
def nested : List (Call Nat) :=
  let r := ⟨1, 2, ⟨"u64", 8, 8⟩, 7⟩
  [.lock, .lock, .unlock 2, .tryEmplace r, .inScope true, .unlock 1, .process false, .unlock 1, .unlock 1, .emplace r]

theorem run_keeps_gate_exclusive_nested :
    Permitted 1 nested ∧ (Takings.ofCalls 1 (nested.take 7)).Held ∧ ¬(Takings.ofCalls 1 nested).Held ∧
      ∃ b answers, (ofCapacity 64).calls? 1 nested = some (b, answers) ∧
        answers = [.done, .done, .done, .stored false, .passed [], .done, .passed [], .done, .done, .stored true] ∧
        b.records = recordsOf nested answers ∧ b.Exclusive 1 ⟨2, 2⟩ := by
  have hpermitted : Permitted 1 nested := by
    intro before r after heq
    have hbefore : before = nested.dropLast := by
      simp [nested, List.cons_eq_append_iff] at heq
      exact heq.1
    rw [hbefore]
    decide
  obtain ⟨b, answers, hrun, -, hrecords, hexclusive⟩ := run_keeps_gate_exclusive 64 1 nested hpermitted
  have hanswers : ((ofCapacity 64).calls? 1 nested).map Prod.snd =
      some [.done, .done, .done, .stored false, .passed [], .done, .passed [], .done, .done,
        .stored true] := by decide +kernel
  rw [hrun] at hanswers
  exact ⟨hpermitted, by decide, by decide, b, answers, hrun, Option.some.inj hanswers, hrecords, hexclusive⟩

end RecordBuffer

end PerfCounters
