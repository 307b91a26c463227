import PerfCounters.Tree.Expansion

/-!
The metrics whose samples the value of a tree depends on. References to derived metrics are followed
through their definitions; a name met again on the way is a cycle.
-/

namespace PerfCounters

namespace Metric

/-- Puts `m` among metrics in the order of their numbers, unless its number is there. -/
def insertById (m : Metric) : List Metric → List Metric
  | [] => [m]
  | x :: xs =>
    if m.id < x.id then m :: x :: xs
    else if m.id = x.id then x :: xs
    else x :: insertById m xs

end Metric

namespace Tree

theorem unvisited_name_lt {c : Catalog} {m : Metric} {path : List String} (h : Expander.holds c m)
    (hp : ¬path.contains m.name = true) :
    c.unvisited (fun x => (path ++ [m.name]).contains x.name) <
      c.unvisited fun x => path.contains x.name := by
  apply Catalog.unvisited_lt (Catalog.mem_of_byId? h)
  · intro x hx
    simp only [List.contains_eq_mem, List.mem_append, decide_eq_true_eq] at hx ⊢
    exact Or.inl hx
  · simpa using hp
  · simp

mutual

/-- Adds the metrics that `t` reads to `found`, while the definitions named on `path` are being
    followed. A failure leaves what was found before it. -/
def collect (c : Catalog) (path : List String) (t : Tree) (found : List Metric) :
    List Metric × Option EvalError :=
  match t with
  | .number _ _ => (found, none)
  | .reference _ m => collectMetric c path m found
  | .accumulate _ m _ => collectMetric c path m found
  | .binary _ _ lhs rhs =>
    match collect c path lhs found with
    | (found, some e) => (found, some e)
    | (found, none) => collect c path rhs found
  | .reduce _ child _ _ => collect c path child found
  | .select _ child _ => collect c path child found
termination_by (c.unvisited fun x => path.contains x.name, sizeOf t)

/-- Adds what `m` reads: itself, or the metrics its definition reads. -/
def collectMetric (c : Catalog) (path : List String) (m : Metric) (found : List Metric) :
    List Metric × Option EvalError :=
  if !m.isDerived then (m.insertById found, none)
  else if _hp : path.contains m.name then (found, some (.cyclicDefinition (path ++ [m.name])))
  else if _h : Expander.holds c m then
    match ofMetric c m with
    | .error e => (found, some e)
    | .ok t => collect c (path ++ [m.name]) t found
  else (found, some (.unknownMetric m.architecture m.name))
termination_by (c.unvisited fun x => path.contains x.name, 0)
decreasing_by
  exact Prod.Lex.left _ _ (unvisited_name_lt _h _hp)

end

/-- The metrics that `t` reads, by number. -/
def required (c : Catalog) (t : Tree) : List Metric × Option EvalError := collect c [] t []

end Tree

end PerfCounters
