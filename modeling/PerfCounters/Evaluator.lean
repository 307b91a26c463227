import PerfCounters.Agent
import PerfCounters.Tree.Evaluation
import PerfCounters.Tree.Inference
import PerfCounters.Tree.Required

/-!
The evaluator of an architecture: the expanded tree of each of its metrics, tagged with the metric's
number and with every layout worked out.
-/

namespace PerfCounters

/-- The trees of the metrics of one architecture, by name. -/
structure Evaluator where
  catalog : Catalog
  architecture : String
  trees : List (String × Tree)

namespace Evaluator

/-- The finished tree of a metric. -/
def treeOf (c : Catalog) (m : Metric) (x : Expander) : Except EvalError (Tree × Expander) := do
  let (x, expanded) := x.expanded c m
  let tagged ← ((← expanded).setOutId m.id).mapError .dimension
  let (tree, layout) := tagged.infer c
  let _ ← layout
  return (tree, x)

/-- The trees of metrics, in order, with one expander. -/
def treesOf (c : Catalog) : List Metric → Expander → Except EvalError (List (String × Tree))
  | [], _ => .ok []
  | m :: ms, x => do
    let (tree, x) ← treeOf c m x
    let trees ← treesOf c ms x
    return (m.name, tree) :: trees

/-- The evaluator of an architecture, if all of its metrics can be built. -/
def ofCatalog (c : Catalog) (architecture : String) : Except EvalError Evaluator := do
  return ⟨c, architecture, ← treesOf c (c.metricsOf architecture) {}⟩

/-- The metric called `name`. -/
def metric (e : Evaluator) (name : String) : Except EvalError Metric :=
  Tree.lookUp e.catalog e.architecture name

/-- The tree of the metric called `name`. -/
def tree (e : Evaluator) (name : String) : Except EvalError Tree :=
  match e.trees.lookup name with
  | some t => .ok t
  | none => .error (.unknownMetric e.architecture name)

/-- The metrics whose samples `name` needs, by number. -/
def required (e : Evaluator) (name : String) : Except EvalError (List Metric) := do
  match (← e.tree name).required e.catalog with
  | (_, some failure) => throw failure
  | (found, none) => return found

/-- The layout of the results of `name`. -/
def layout (e : Evaluator) (name : String) : Except EvalError Layout := do
  return (← e.tree name).layout

/-- The number of results of `name`; it has to fit 64 bits. -/
def instanceCount (e : Evaluator) (name : String) : Except EvalError Nat := do
  let l ← e.layout name
  if l.count < Nat.pow 2 64 then return l.count else throw (.instanceCountOverflow name)

/-- The metrics that `name` reads through `accumulate`. -/
def accumulated (e : Evaluator) (name : String) :
    Except EvalError (List (Metric × AccumulateMode)) := do
  return (← e.tree name).accumulated []

/-- Evaluates `name` in a cache. -/
def evaluateIn (e : Evaluator) (name : String) (base : BaseSamples) (cache : Cache) :
    Cache × Except EvalError (Records Float) :=
  match e.tree name with
  | .ok t => t.evaluate base cache
  | .error failure => (cache, .error failure)

/-- Evaluates `name`. -/
def evaluate (e : Evaluator) (name : String) (base : BaseSamples) :
    Except EvalError (Records Float) :=
  (e.evaluateIn name base #[]).2

/-- The sample of a constant metric on an agent. -/
def constantSample (agent : Agent) (m : Metric) : Except EvalError (Sample Float) := do
  let value ← (agent.property m.constant).mapError .catalog
  let id ← (InstanceId.zero.setCounter m.id).mapError .dimension
  return { id, value, agent := agent.agentId }

/-- The samples of every constant metric on an agent. -/
def constantSamples (e : Evaluator) (agent : Agent) : Except EvalError BaseSamples :=
  (e.catalog.constantsOf e.architecture).foldlM (fun base m => do
    return base.set m.id [← constantSample agent m]) []

end Evaluator

end PerfCounters
