import PerfCounters.Proofs.Instances.Rows
import PerfCounters.Proofs.Trees.Expansion
import PerfCounters.Proofs.Trees.Groups
import PerfCounters.Tree.Value

/-! The shape of a value: the ids of its samples, in order. It follows from the shapes of the operands alone,
    and so does every failure: no value of a sample decides whether a tree has a value, or of which ids. -/

namespace PerfCounters

open InstanceId
open PerfCounters.Parser (bind_eq_ok)

namespace Records

variable {α : Type} {op : Reduction α} {ds : List Dimension} {filters : Filters}

/-- The ids of samples. -/
def ids (records : Records α) : List InstanceId := records.map fun r => r.id

/-- The ids of the results of arithmetic. -/
def zipIds? (lhs rhs : List InstanceId) : Option (List InstanceId) :=
  if lhs.length = rhs.length then some lhs
  else match lhs, rhs with
    | [_], _ => some rhs
    | _, [_] => some lhs
    | _, _ => none

/-- The ids of a reduction. -/
def reduceIds (ds : List Dimension) : List InstanceId → List InstanceId
  | [] => []
  | first :: rest =>
    if ds = [] then [first.clear .none] else ((first :: rest).map fun id => id.clearAll ds).eraseDups

theorem reduceIds_cons (ds : List Dimension) (first : InstanceId) (rest : List InstanceId) :
    reduceIds ds (first :: rest) =
      if ds = [] then [first.clear .none] else ((first :: rest).map fun id => id.clearAll ds).eraseDups := rfl

/-- The ids of a selection. -/
def selectIds (filters : Filters) (ids : List InstanceId) : List InstanceId :=
  (ids.filter filters.keeps).map fun id => id.clearAll filters.dimensions

theorem length_ids (records : Records α) : records.ids.length = records.length := List.length_map _

theorem ids_zipWith (f : α → α → α) (lhs rhs : Records α) (h : lhs.length = rhs.length) :
    ids (lhs.zipWith (fun l r => { l with value := f l.value r.value }) rhs) = lhs.ids := by
  induction lhs generalizing rhs with
  | nil => rfl
  | cons l lhs ih =>
    cases rhs with
    | nil => cases h
    | cons r rhs => exact congrArg (l.id :: ·) (ih rhs (Nat.succ.inj h))

theorem ids_zipValues? (f : α → α → α) (lhs rhs : Records α) :
    (zipValues? f lhs rhs).map ids = zipIds? lhs.ids rhs.ids := by
  unfold zipValues? zipIds?
  rw [length_ids, length_ids]
  by_cases hlen : lhs.length = rhs.length
  · rw [if_pos hlen, if_pos hlen]
    exact congrArg some (ids_zipWith f lhs rhs hlen)
  · rw [if_neg hlen, if_neg hlen]
    match lhs, rhs with
    | [l], rhs => exact congrArg some (List.map_map ..)
    | [], [r] => rfl
    | l :: l' :: lhs, [r] => exact congrArg some (List.map_map ..)
    | [], [] => exact absurd rfl hlen
    | [], r :: r' :: rhs => rfl
    | l :: l' :: lhs, [] => rfl
    | l :: l' :: lhs, r :: r' :: rhs => rfl

theorem ids_reduce (op : Reduction α) (ds : List Dimension) (records : Records α) :
    (records.reduce op ds).ids = reduceIds ds records.ids := by
  cases records with
  | nil => rfl
  | cons first rest =>
    have hids : ids (first :: rest) = first.id :: ids rest := rfl
    rw [hids, reduceIds_cons]
    by_cases hds : ds = []
    · rw [reduce, if_pos hds, if_pos hds]
      rfl
    · rw [if_neg hds, ids, map_id_reduce hds, ← hids, ids, List.map_map]
      rfl

theorem ids_select (filters : Filters) (records : Records α) :
    (records.select filters).ids = selectIds filters records.ids := by
  unfold select selectIds ids
  rw [List.map_map, List.filter_map, List.map_map]
  rfl

theorem tag_eq_ok {k : Nat} (hk : k ≤ maxCounterId) (records : Records α) :
    tag k records = .ok (records.map fun r => { r with id := r.id.withCounter k }) := by
  apply mapM_eq_ok
  intro r _
  rw [setCounter_eq_ok hk]
  rfl

end Records

namespace Tree

variable {base : BaseSamples} {t : Tree}

/-- The ids with the number noted on a node, if there is one. -/
def retagIds (n : Note) (ids : List InstanceId) : List InstanceId :=
  match n.outId with
  | none => ids
  | some k => ids.map (withCounter k)

/-- The ids of the results of arithmetic, if the operands fit. -/
def fitIds (l r : List InstanceId) : Except EvalError (List InstanceId) :=
  match Records.zipIds? l r with
  | some ids => .ok ids
  | none => .error (.sizeMismatch l.length r.length)

/-- The shape of the value of a tree, given that of the samples of every metric. -/
def shape (leaf : Metric → Except EvalError (List InstanceId)) : Tree → Except EvalError (List InstanceId)
  | .number n _ => .ok (retagIds n [zero])
  | .reference n m | .accumulate n m _ => do return retagIds n (← leaf m)
  | .binary n _ lhs rhs => do
    let l ← lhs.shape leaf
    let r ← rhs.shape leaf
    return retagIds n (← fitIds l r)
  | .reduce n child _ ds => do return retagIds n (Records.reduceIds ds (← child.shape leaf))
  | .select n child filters => do return retagIds n (Records.selectIds filters (← child.shape leaf))

/-- The shape of the samples of a metric. -/
def leafIds (base : BaseSamples) (m : Metric) : Except EvalError (List InstanceId) := (leaf base m).map Records.ids

theorem retag_eq_ok {n : Note} (hn : ∀ k, n.outId = some k → k ≤ maxCounterId) (records : Records Float) :
    ∃ tagged, retag n records = .ok tagged ∧ tagged.ids = retagIds n records.ids := by
  unfold retag retagIds
  cases hid : n.outId with
  | none => exact ⟨records, rfl, rfl⟩
  | some k =>
    have htag := Records.tag_eq_ok (hn k hid) records
    refine ⟨_, congrArg (Except.mapError EvalError.dimension) htag, ?_⟩
    show Records.ids _ = records.ids.map (withCounter k)
    unfold Records.ids
    rw [List.map_map, List.map_map]
    rfl

theorem outId_le (hout : ∀ k ∈ t.outIds, k ≤ maxCounterId) : ∀ k, t.note.outId = some k → k ≤ maxCounterId := by
  intro k hk
  apply hout
  cases t <;> simp_all [outIds, outId, note]

/-- A node with one operand has the shape that follows from that of the operand. -/
theorem map_ids_retag {n : Note} (hn : ∀ k, n.outId = some k → k ≤ maxCounterId) {f : Records Float → Records Float}
    {g : List InstanceId → List InstanceId} (hf : ∀ records, (f records).ids = g records.ids)
    (x : Except EvalError (Records Float)) :
    (do retag n (f (← x))).map Records.ids = (do return retagIds n (g (← x.map Records.ids))) := by
  cases x with
  | error e => rfl
  | ok records =>
    obtain ⟨tagged, htagged, hids⟩ := retag_eq_ok hn (f records)
    show (retag n (f records)).map Records.ids = .ok (retagIds n (g records.ids))
    rw [htagged, ← hf]
    exact congrArg Except.ok hids

/-- The value of a tree has the shape of the tree; where there is none, there is no value, for the same reason. -/
theorem map_ids_value (hout : ∀ k ∈ t.outIds, k ≤ maxCounterId) :
    (t.value base).map Records.ids = t.shape (leafIds base) := by
  induction t with
  | number n v =>
    obtain ⟨tagged, htagged, hids⟩ := retag_eq_ok (n := n) (outId_le hout) (literal v)
    show (retag n (literal v)).map Records.ids = .ok (retagIds n (literal v).ids)
    rw [htagged, ← hids]
    rfl
  | reference n m => exact map_ids_retag (outId_le hout) (f := id) (g := id) (fun _ => rfl) (leaf base m)
  | accumulate n m mode => exact map_ids_retag (outId_le hout) (f := id) (g := id) (fun _ => rfl) (leaf base m)
  | binary n op lhs rhs ihl ihr =>
    have hl := ihl fun k hk => hout k (by simp [outIds, hk])
    have hr := ihr fun k hk => hout k (by simp [outIds, hk])
    rw [shape, ← hl, ← hr, value]
    cases lhs.value base with
    | error e => rfl
    | ok l =>
      cases rhs.value base with
      | error e => rfl
      | ok r =>
        have hzip := Records.ids_zipValues? op.apply l r
        show (combine op l r >>= retag n).map Records.ids = (fitIds l.ids r.ids).map (retagIds n)
        unfold combine fitIds
        rw [← hzip, Records.length_ids, Records.length_ids]
        cases Records.zipValues? op.apply l r with
        | none => rfl
        | some records =>
          obtain ⟨tagged, htagged, hids⟩ := retag_eq_ok (n := n) (outId_le hout) records
          show (retag n records).map Records.ids = .ok (retagIds n records.ids)
          rw [htagged, ← hids]
          rfl
  | reduce n child op ds ih =>
    rw [shape, ← ih fun k hk => hout k (by simp [outIds, hk])]
    exact map_ids_retag (outId_le hout) (Records.ids_reduce op.reduction ds) (child.value base)
  | select n child filters ih =>
    rw [shape, ← ih fun k hk => hout k (by simp [outIds, hk])]
    exact map_ids_retag (outId_le hout) (Records.ids_select filters) (child.value base)

/-! ### Failures -/

variable {leaf : Metric → Except EvalError (List InstanceId)} {e : EvalError}

theorem bind_eq_error {α β : Type} {x : Except EvalError α} {f : α → Except EvalError β} (h : x >>= f = .error e) :
    x = .error e ∨ ∃ a, x = .ok a ∧ f a = .error e := by
  cases x with
  | error e' =>
    cases h
    exact Or.inl rfl
  | ok a => exact Or.inr ⟨a, rfl, h⟩

theorem map_eq_ok {α β ε : Type} {f : α → β} {x : Except ε α} {b : β} (h : x.map f = .ok b) : ∃ a, x = .ok a ∧ f a = b := by
  cases x with
  | error e => cases h
  | ok a => exact ⟨a, rfl, Except.ok.inj h⟩

theorem map_eq_error {α β ε : Type} (f : α → β) (x : Except ε α) (e : ε) : x.map f = .error e ↔ x = .error e := by
  cases x with
  | error e' => exact ⟨fun h => congrArg Except.error (Except.error.inj h),
      fun h => congrArg Except.error (Except.error.inj h)⟩
  | ok a => exact ⟨fun h => (by cases h), fun h => (by cases h)⟩

theorem fitIds_error {l r : List InstanceId} (h : fitIds l r = .error e) : e = .sizeMismatch l.length r.length := by
  unfold fitIds at h
  split at h
  · cases h
  · cases h
    rfl

/-- A tree has no shape because of a metric that it names, or because two operands do not fit. -/
theorem shape_error (h : t.shape leaf = .error e) :
    (∃ l r, e = .sizeMismatch l r) ∨ ∃ m ∈ t.leaves, leaf m = .error e := by
  induction t with
  | number n v => cases h
  | reference n m | accumulate n m mode =>
    rcases bind_eq_error h with hleaf | ⟨_, _, h⟩
    · exact Or.inr ⟨m, List.mem_singleton.mpr rfl, hleaf⟩
    · cases h
  | binary n op lhs rhs ihl ihr =>
    rcases bind_eq_error h with hl | ⟨l, _, h⟩
    · rcases ihl hl with hsize | ⟨m, hm, hleaf⟩
      · exact Or.inl hsize
      · exact Or.inr ⟨m, List.mem_append_left _ hm, hleaf⟩
    · rcases bind_eq_error h with hr | ⟨r, _, h⟩
      · rcases ihr hr with hsize | ⟨m, hm, hleaf⟩
        · exact Or.inl hsize
        · exact Or.inr ⟨m, List.mem_append_right _ hm, hleaf⟩
      · rcases bind_eq_error h with hfit | ⟨_, _, h⟩
        · exact Or.inl ⟨_, _, fitIds_error hfit⟩
        · cases h
  | reduce n child op ds ih | select n child filters ih =>
    rcases bind_eq_error h with hchild | ⟨_, _, h⟩
    · exact ih hchild
    · cases h

theorem shape_congr {leaf' : Metric → Except EvalError (List InstanceId)} (h : ∀ m ∈ t.leaves, leaf m = leaf' m) :
    t.shape leaf = t.shape leaf' := by
  induction t with
  | number n v => rfl
  | reference n m | accumulate n m mode => rw [shape, shape, h m List.mem_cons_self]
  | binary n op lhs rhs ihl ihr =>
    rw [shape, shape, ihl fun m hm => h m (List.mem_append_left _ hm), ihr fun m hm => h m (List.mem_append_right _ hm)]
  | reduce n child op ds ih | select n child filters ih => rw [shape, shape, ih h]

/-- A tree that has a shape names metrics that have one. -/
theorem leaves_of_shape {ids : List InstanceId} (h : t.shape leaf = .ok ids) : ∀ m ∈ t.leaves, ∃ ids, leaf m = .ok ids := by
  induction t generalizing ids with
  | number n v => exact fun m hm => (by cases hm)
  | reference n m | accumulate n m mode =>
    obtain ⟨leafIds, hleaf, _⟩ := bind_eq_ok h
    intro x hx
    rw [List.mem_singleton.mp hx]
    exact ⟨leafIds, hleaf⟩
  | binary n op lhs rhs ihl ihr =>
    obtain ⟨l, hl, h⟩ := bind_eq_ok h
    obtain ⟨r, hr, _⟩ := bind_eq_ok h
    intro m hm
    rcases List.mem_append.mp hm with hm | hm
    · exact ihl hl m hm
    · exact ihr hr m hm
  | reduce n child op ds ih | select n child filters ih =>
    obtain ⟨child, hchild, _⟩ := bind_eq_ok h
    exact ih hchild

end Tree

end PerfCounters
