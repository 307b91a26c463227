import PerfCounters.Dimension

/-!
Expressions over metrics, as they are written: numbers, metric names, arithmetic, and the three
forms `reduce`, `select` and `accumulate`. Names are not looked up here.
-/

namespace PerfCounters

/-- Arithmetic on two values. -/
inductive BinaryOp where
  | add
  | sub
  | mul
  | div
deriving DecidableEq, Repr

namespace BinaryOp

/-- The value of an operation. Division by zero, of either sign, is zero. -/
def apply (op : BinaryOp) (x y : Float) : Float :=
  match op with
  | .add => x + y
  | .sub => x - y
  | .mul => x * y
  | .div => if y == 0.0 then 0.0 else x / y

/-- The sign an operation is written with. -/
def symbol : BinaryOp → String
  | .add => "+"
  | .sub => "-"
  | .mul => "*"
  | .div => "/"

end BinaryOp

/-- How `reduce` makes one value of many. -/
inductive ReduceOp where
  | min
  | max
  | sum
  | avg
deriving DecidableEq, Repr

namespace ReduceOp

/-- The name of a reduction. -/
def name : ReduceOp → String
  | .min => "min"
  | .max => "max"
  | .sum => "sum"
  | .avg => "avg"

/-- Every reduction. -/
def all : List ReduceOp := [.min, .max, .sum, .avg]

/-- The reduction called `text`, if there is one. -/
def ofName? (text : String) : Option ReduceOp := all.find? fun op => op.name == text

end ReduceOp

/-- How a counter is to be accumulated over a dispatch. -/
inductive AccumulateMode where
  | none
  | highRes
  | lowRes
deriving DecidableEq, Repr

namespace AccumulateMode

/-- The name of a mode. -/
def name : AccumulateMode → String
  | .none => "NONE"
  | .highRes => "HIGH_RES"
  | .lowRes => "LOW_RES"

/-- Every mode. -/
def all : List AccumulateMode := [.none, .highRes, .lowRes]

/-- The mode called `text`, if there is one. -/
def ofName? (text : String) : Option AccumulateMode := all.find? fun mode => mode.name == text

end AccumulateMode

/-- The positions `select` keeps: for each dimension it filters, in the order of dimensions, the
    allowed positions in ascending order, each once. -/
abbrev Filters := List (Dimension × List Nat)

namespace Filters

/-- Puts `n` among ascending numbers, unless it is there. -/
def insertNumber (n : Nat) : List Nat → List Nat
  | [] => [n]
  | m :: ms => if n < m then n :: m :: ms else if n = m then m :: ms else m :: insertNumber n ms

/-- Allows position `n` along `d` as well. -/
def allow (d : Dimension) (n : Nat) : Filters → Filters
  | [] => [(d, [n])]
  | (e, ns) :: rest =>
    if d.index < e.index then (d, [n]) :: (e, ns) :: rest
    else if d = e then (e, insertNumber n ns) :: rest
    else (e, ns) :: allow d n rest

/-- The filtered dimensions. -/
def dimensions (f : Filters) : List Dimension := f.map Prod.fst

end Filters

/-- An expression as it is written. -/
inductive Expr where
  | number (value : Float)
  | metric (name : String)
  | accumulate (metric : String) (mode : AccumulateMode)
  | binary (op : BinaryOp) (lhs rhs : Expr)
  | reduce (child : Expr) (op : ReduceOp) (dimensions : List Dimension)
  | select (child : Expr) (filters : Filters)
deriving Repr, Inhabited

namespace Expr

/-- The largest number of operators, reductions and selections on a path to a leaf. -/
def nesting : Expr → Nat
  | .number _ => 0
  | .metric _ => 0
  | .accumulate _ _ => 0
  | .binary _ lhs rhs => max lhs.nesting rhs.nesting + 1
  | .reduce child _ _ => child.nesting + 1
  | .select child _ => child.nesting + 1

end Expr

end PerfCounters
