/-!
The help texts.
-/

namespace PerfCounters.CommandLine

/-- What the program is called. -/
def programName : String := "counterflow"

/-- The help text of the program. -/
def programHelp : List String :=
  ["Accelerator performance-counter evaluation and buffered record delivery",
    "",
    "Usage: counterflow [OPTIONS] <COMMAND>",
    "",
    "Commands:",
    "  check     Load the config and metric definitions, and build an evaluator for every configured agent",
    "  counters  Show the hardware counters a metric needs on an agent",
    "  evaluate  Evaluate metrics over recorded samples and deliver them through a configured buffer",
    "  version   Print version information and exit",
    "  help      Print this message or the help of the given subcommand(s)",
    "",
    "Options:",
    "  -c, --config <CONFIG>        Path to the YAML configuration file",
    "      --log-level <LOG_LEVEL>  Logging verbosity level (trace, debug, info, warn, error) [default: info]",
    "  -h, --help                   Print help"]

/-- The help text of a command. -/
def commandHelp : String → List String
  | "check" =>
    ["Load the config and metric definitions, and build an evaluator for every configured agent",
      "",
      "Usage: counterflow check",
      "",
      "Options:",
      "  -h, --help  Print help"]
  | "counters" =>
    ["Show the hardware counters a metric needs on an agent",
      "",
      "Usage: counterflow counters --agent <AGENT> <METRIC>",
      "",
      "Arguments:",
      "  <METRIC>  Metric name",
      "",
      "Options:",
      "      --agent <AGENT>  Agent name from the config",
      "  -h, --help           Print help"]
  | "evaluate" =>
    ["Evaluate metrics over recorded samples and deliver them through a configured buffer",
      "",
      "Usage: counterflow evaluate [OPTIONS] --agent <AGENT> --samples <SAMPLES> <METRICS>...",
      "",
      "Arguments:",
      "  <METRICS>...  Metric names",
      "",
      "Options:",
      "      --agent <AGENT>      Agent name from the config",
      "      --samples <SAMPLES>  YAML map of hardware counter name to per-instance values",
      "      --buffer <BUFFER>    Buffer name from the config. Default: the first buffer",
      "      --print-metrics      Print buffer metrics in the Prometheus text format afterwards",
      "  -h, --help               Print help"]
  | "version" =>
    ["Print version information and exit",
      "",
      "Usage: counterflow version",
      "",
      "Options:",
      "  -h, --help  Print help"]
  | _ =>
    ["Print this message or the help of the given subcommand(s)",
      "",
      "Usage: counterflow help [COMMAND]...",
      "",
      "Arguments:",
      "  [COMMAND]...  Print help for the subcommand(s)"]

/-- The help text of a topic. -/
def helpLines : Option String → List String
  | none => programHelp
  | some topic => commandHelp topic

end PerfCounters.CommandLine
