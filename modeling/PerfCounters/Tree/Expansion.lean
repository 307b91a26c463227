import PerfCounters.Tree.Resolve

/-!
Replacing references to derived metrics by the trees of their definitions.

An expander remembers the trees it has finished and the metrics it is working on, outermost first. A
metric met again while it is being worked on is defined by itself. The metrics of the catalog that
are not being worked on grow fewer with every definition entered, so expansion ends.
-/

namespace PerfCounters

/-- The number of metrics of `c` that `visited` does not hold. -/
def Catalog.unvisited (c : Catalog) (visited : Metric → Bool) : Nat :=
  (c.metrics.toList.filter fun m => !visited m).length

theorem Catalog.mem_of_byId? {c : Catalog} {id : Nat} {m : Metric} (h : c.byId? id = some m) :
    m ∈ c.metrics.toList := by
  unfold Catalog.byId? at h
  split at h
  · cases h
  · exact Array.mem_toList_iff.mpr (Array.mem_of_getElem? h)

theorem Catalog.unvisited_lt {c : Catalog} {visited visited' : Metric → Bool} {m : Metric}
    (hm : m ∈ c.metrics.toList) (hmore : ∀ x, visited x = true → visited' x = true)
    (hold : visited m = false) (hnew : visited' m = true) :
    c.unvisited visited' < c.unvisited visited := by
  have hfewer : (c.metrics.toList.filter fun m => !visited' m) =
      (c.metrics.toList.filter fun m => !visited m).filter fun m => !visited' m := by
    rw [List.filter_filter]
    refine List.filter_congr fun x _ => ?_
    cases hx : visited x with
    | false => simp
    | true => simp [hmore x hx]
  unfold unvisited
  rw [hfewer]
  exact List.length_filter_lt_length_iff_exists.mpr ⟨m, List.mem_filter.mpr ⟨hm, by simp [hold]⟩, by simp [hnew]⟩

/-- Finished trees by metric number, and the numbers of the metrics being worked on. -/
structure Expander where
  finished : List (Nat × Tree) := []
  path : List Nat := []
deriving Inhabited

/-- What became of an expansion: the tree, replaced as far as it went, what the expander has
    finished, and, after a failure, the path it was left on. -/
structure Expansion where
  tree : Tree
  finished : List (Nat × Tree)
  failure : Option (EvalError × List Nat)

namespace Tree

/-- The tree in place of a reference: a number to tag results with stays with the place. -/
def inPlaceOf (n : Note) (t : Tree) : Tree :=
  match n.outId with
  | some id => t.withNote { t.note with outId := some id }
  | none => t

end Tree

namespace Expander

/-- The metric numbered `m.id` is `m`. -/
def holds (c : Catalog) (m : Metric) : Prop := c.byId? m.id = some m

instance (c : Catalog) (m : Metric) : Decidable (holds c m) :=
  inferInstanceAs (Decidable (c.byId? m.id = some m))

/-- The names of the metrics on a path. -/
def names (c : Catalog) (path : List Nat) : List String :=
  (path.filterMap c.byId?).map fun m => m.name

theorem unvisited_append_lt {c : Catalog} {m : Metric} {path : List Nat} (h : holds c m)
    (hp : ¬path.contains m.id = true) :
    c.unvisited (fun x => (path ++ [m.id]).contains x.id) <
      c.unvisited fun x => path.contains x.id := by
  apply Catalog.unvisited_lt (Catalog.mem_of_byId? h)
  · intro x hx
    simp only [List.contains_eq_mem, List.mem_append, decide_eq_true_eq] at hx ⊢
    exact Or.inl hx
  · simpa using hp
  · simp

mutual

/-- Expands a tree while the metrics on `path` are being worked on. A failure leaves what was
    replaced before it. -/
def expandTree (c : Catalog) (path : List Nat) (finished : List (Nat × Tree)) (t : Tree) :
    Expansion :=
  match t with
  | .number n v => ⟨.number n v, finished, none⟩
  | .accumulate n m mode => ⟨.accumulate n m mode, finished, none⟩
  | .reference n m =>
    if m.isDerived then
      let x := expandMetric c path finished m
      match x.failure with
      | some f => ⟨.reference n m, x.finished, some f⟩
      | none => ⟨x.tree.inPlaceOf n, x.finished, none⟩
    else ⟨.reference n m, finished, none⟩
  | .binary n op lhs rhs =>
    let l := expandTree c path finished lhs
    match l.failure with
    | some f => ⟨.binary n op l.tree rhs, l.finished, some f⟩
    | none =>
      let r := expandTree c path l.finished rhs
      ⟨.binary n op l.tree r.tree, r.finished, r.failure⟩
  | .reduce n child op ds =>
    let x := expandTree c path finished child
    ⟨.reduce n x.tree op ds, x.finished, x.failure⟩
  | .select n child filters =>
    let x := expandTree c path finished child
    ⟨.select n x.tree filters, x.finished, x.failure⟩
termination_by (c.unvisited fun x => path.contains x.id, sizeOf t)

/-- The expanded tree of a metric. A cycle forgets the path; any other failure leaves it as it is at
    that moment. -/
def expandMetric (c : Catalog) (path : List Nat) (finished : List (Nat × Tree)) (m : Metric) :
    Expansion :=
  match finished.lookup m.id with
  | some t => ⟨t, finished, none⟩
  | none =>
    if _hp : path.contains m.id then
      ⟨.reference {} m, finished, some (.cyclicDefinition (names c path ++ [m.name]), [])⟩
    else if _h : holds c m then
      match Tree.ofMetric c m with
      | .error e => ⟨.reference {} m, finished, some (e, path ++ [m.id])⟩
      | .ok t =>
        let x := expandTree c (path ++ [m.id]) finished t
        match x.failure with
        | some f => ⟨.reference {} m, x.finished, some f⟩
        | none => ⟨x.tree, x.finished ++ [(m.id, x.tree)], none⟩
    else ⟨.reference {} m, finished, some (.unknownMetric m.architecture m.name, path ++ [m.id])⟩
termination_by (c.unvisited fun x => path.contains x.id, 0)
decreasing_by
  exact Prod.Lex.left _ _ (unvisited_append_lt _h _hp)

end

/-- The expander after an expansion that it was asked for. -/
def after (x : Expander) (r : Expansion) : Expander :=
  ⟨r.finished, match r.failure with
    | some (_, path) => path
    | none => x.path⟩

/-- Expands a tree; it is kept as far as it was replaced when that fails. -/
def expand (x : Expander) (c : Catalog) (t : Tree) : Expander × Tree × Option EvalError :=
  let r := expandTree c x.path x.finished t
  (x.after r, r.tree, r.failure.map Prod.fst)

/-- The expanded tree of a metric, worked out once. -/
def expanded (x : Expander) (c : Catalog) (m : Metric) : Expander × Except EvalError Tree :=
  let r := expandMetric c x.path x.finished m
  (x.after r, match r.failure with
    | some (e, _) => .error e
    | none => .ok r.tree)

end Expander

end PerfCounters
