import PerfCounters.Proofs.Trees.Shape

/-! What a tree denotes, bit by bit: a recursion over its nodes that knows of no cache and none of the ways in which
    samples are made and tagged. The value of a tree is what it denotes. -/

namespace PerfCounters

open InstanceId

/-- Sixteen bits of the counter number stand over the forty-eight of the positions. -/
theorem InstanceId.withCounter_eq_append {k : Nat} (h : k ≤ maxCounterId) (id : InstanceId) :
    id.withCounter k = ⟨BitVec.ofNat 16 k ++ id.word.setWidth 48⟩ := by
  refine congrArg InstanceId.mk (word_ext fun i hi => ?_)
  rw [getLsbD_write fits_counter (Nat.lt_succ_of_le h) hi, BitVec.getLsbD_append, BitVec.getLsbD_setWidth,
    BitVec.getLsbD_ofNat]
  by_cases hlow : i < 48
  · have hnot : ¬(positionBits ≤ i ∧ i < positionBits + 16) := fun hin => Nat.not_le.mpr hlow hin.1
    rw [if_neg hnot]
    simp [hlow]
  · have hin : positionBits ≤ i ∧ i < positionBits + 16 := ⟨Nat.le_of_not_lt hlow, hi⟩
    have hbit : i - 48 < 16 := by omega
    rw [if_pos hin]
    simp [hlow, hbit, positionBits]

namespace Tree

variable {base : BaseSamples} {n : Note} {records : Records Float}

/-- What a node makes of its samples: the upper sixteen bits of their ids become the number that is noted on the node, and
no number changes nothing. The first sample on which the number does not fit is refused. -/
def stamp (n : Note) (records : Records Float) : Except EvalError (Records Float) :=
  match n.outId, records with
  | none, _ => .ok records
  | some _, [] => .ok []
  | some k, _ :: _ =>
    if k < 2 ^ 16 then .ok (records.map fun r => { r with id := ⟨BitVec.ofNat 16 k ++ r.id.word.setWidth 48⟩ })
    else .error (.dimension (.counterIdOverflow k))

/-- What a tree denotes. Of two operands the left one comes first, also if it fails. -/
def denote (base : BaseSamples) : Tree → Except EvalError (Records Float)
  | .number n v => stamp n [{ id := ⟨0#64⟩, value := v, dispatch := 0, user := 0, agent := 0 }]
  | .reference n m | .accumulate n m _ =>
    match base.get? m.id with
    | some records => stamp n records
    | none => .error (.missingBaseCounter m.name m.id)
  | .binary n op lhs rhs => do
    let l ← denote base lhs
    let r ← denote base rhs
    match Records.zipValues? op.apply l r with
    | some records => stamp n records
    | none => .error (.sizeMismatch l.length r.length)
  | .reduce n child op ds => do stamp n ((← denote base child).reduce op.reduction ds)
  | .select n child filters => do stamp n ((← denote base child).select filters)

theorem retag_eq_stamp (n : Note) (records : Records Float) : retag n records = stamp n records := by
  unfold retag stamp
  cases n.outId with
  | none => rfl
  | some k =>
    cases records with
    | nil => rfl
    | cons first rest =>
      by_cases hk : k < 2 ^ 16
      · have hle : k ≤ maxCounterId := Nat.le_of_lt_succ hk
        simp only [Records.tag_eq_ok hle, if_pos hk, withCounter_eq_append hle]
        rfl
      · have hlarge : first.id.setCounter k = .error (.counterIdOverflow k) :=
          if_pos (Nat.lt_of_succ_le (Nat.le_of_not_lt hk))
        simp only [if_neg hk, Records.tag, List.mapM_cons, hlarge]
        rfl

theorem leaf_eq_denote (base : BaseSamples) (n : Note) (m : Metric) :
    leaf base m >>= retag n = denote base (.reference n m) := by
  rw [funext (retag_eq_stamp n), leaf, denote]
  cases base.get? m.id <;> rfl

theorem value_eq_denote (base : BaseSamples) (t : Tree) : t.value base = t.denote base := by
  induction t with
  | number n v => exact retag_eq_stamp n (literal v)
  | reference n m | accumulate n m mode => exact leaf_eq_denote base n m
  | binary n op lhs rhs ihl ihr =>
    simp only [value, denote, ihl, ihr, funext (retag_eq_stamp n), combine]
    refine congrArg (denote base lhs >>= ·) (funext fun l => congrArg (denote base rhs >>= ·) (funext fun r => ?_))
    cases Records.zipValues? op.apply l r <;> rfl
  | reduce n child op ds ih | select n child filters ih => simp only [value, denote, ih, funext (retag_eq_stamp n)]

end Tree

end PerfCounters
