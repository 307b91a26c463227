import PerfCounters.Telemetry

/-!
The text form of telemetry, one line per number. Families come in the order of their names and series
in the order of their labels; a family without a series is left out.
-/

namespace PerfCounters

namespace Exposition

/-- A character of a label value, with a backslash before what would end or break the value. -/
def escapeChar : Char → List Char
  | '\\' => ['\\', '\\']
  | '\n' => ['\\', 'n']
  | '\x22' => ['\\', '\x22']
  | c => [c]

/-- A label value between its quotes. -/
def escape (label : String) : String := String.ofList (label.toList.flatMap escapeChar)

/-- What every name begins with. -/
def namespaceText : String := "counterflow_"

/-- A line with one number: its name, its labels in order and the number. -/
def line (name : String) (labels : List (String × String)) (number : String) : String :=
  let pairs := labels.map fun entry => entry.1 ++ "=\"" ++ escape entry.2 ++ "\""
  name ++ "\x7b" ++ ",".intercalate pairs ++ "\x7d " ++ number

/-- The lines of a family, none if it has no rows. -/
def family {σ : Type} (name help kind : String) (rows : List (String × σ))
    (lines : String → String → σ → List String) : List String :=
  if rows.isEmpty then []
  else
    let full := namespaceText ++ name
    ["# HELP " ++ full ++ " " ++ help, "# TYPE " ++ full ++ " " ++ kind]
      ++ rows.flatMap fun row => lines full row.1 row.2

/-- The line of a counter. -/
def counterLines {κ : Type} [Amount κ] (name label : String) (n : κ) : List String :=
  [line name [("buffer", label)] (Amount.text n)]

/-- The lines of a histogram: the values up to each bound, all values, their sum and their number. -/
def histogramLines {κ : Type} [Amount κ] (name label : String) (h : Histogram κ) : List String :=
  let bucket := fun (bound : String) (n : Nat) =>
    line (name ++ "_bucket") [("buffer", label), ("le", bound)] (toString n)
  (h.cumulative.map fun entry => bucket (Amount.text entry.1) entry.2)
    ++ [bucket "+Inf" h.count,
      line (name ++ "_sum") [("buffer", label)] (Amount.text h.sum),
      line (name ++ "_count") [("buffer", label)] (toString h.count)]

end Exposition

open Exposition in
/-- Every shown number. -/
def Telemetry.lines {κ : Type} [Amount κ] (t : Telemetry κ) : List String :=
  family "flush_batch_size" "Records delivered per drain by buffer." "histogram"
      t.batchSizes.rows histogramLines
    ++ family "flush_duration_seconds" "Time to drain a buffer and deliver its batch." "histogram"
      t.durations.rows histogramLines
    ++ family "flushes_total" "Completed buffer drains." "counter" t.flushes.rows counterLines
    ++ family "records_dropped_total" "Records dropped because the buffer was full." "counter"
      t.dropped.rows counterLines
    ++ family "records_emplaced_total" "Records stored by buffer." "counter"
      t.emplaced.rows counterLines

end PerfCounters
