/-!
The arguments of the program: options, then a command with its own options and names.

An option has a long name, a short one or both; its value follows it or an equals sign, or stands right
behind a short name. Options come in any order, and none comes twice. After two hyphens every argument
is a name.
-/

namespace PerfCounters.CommandLine

/-- An option that a command knows. -/
structure Switch where
  long : String
  short : Option Char := none
  takesValue : Bool := true
  /-- The value is the path of a file, which cannot be empty. -/
  isPath : Bool := false
deriving DecidableEq, Repr

/-- What a command takes: its options, the number of its names if it is bounded, and its subcommands. -/
structure Grammar where
  switches : List Switch
  maxNames : Option Nat := some 0
  subcommands : List String := []
deriving DecidableEq, Repr

/-- What was given to a command. -/
structure Given where
  /-- The options with their values, latest first. -/
  values : List (String × String) := []
  /-- The names, latest first. -/
  names : List String := []
  /-- The subcommand and the arguments after it. -/
  rest : Option (String × List String) := none
deriving DecidableEq, Repr

/-- Why there is nothing to run. -/
inductive Stop where
  /-- The arguments do not fit. -/
  | misuse
  /-- Help is asked for. -/
  | help
deriving DecidableEq, Repr

/-- The value of an option. -/
def Given.value? (g : Given) (long : String) : Option String := g.values.lookup long

/-- Whether an option was given. -/
def Given.has (g : Given) (long : String) : Bool := (g.value? long).isSome

/-- Adds an option, which must not have been given before. -/
def Given.set (g : Given) (s : Switch) (value : String) : Except Stop Given :=
  if g.has s.long || (s.isPath && value.isEmpty) then .error .misuse
  else .ok { g with values := (s.long, value) :: g.values }

/-- Adds a name, if there is room for one. -/
def Given.addName (g : Given) (grammar : Grammar) (name : String) : Except Stop Given :=
  match grammar.maxNames with
  | some n => if g.names.length < n then .ok { g with names := name :: g.names } else .error .misuse
  | none => .ok { g with names := name :: g.names }

/-- The argument is written as an option. -/
def isDashed (arg : String) : Bool :=
  match arg.toList with
  | '-' :: _ :: _ => true
  | _ => false

/-- The text before the first equals sign, and the text after it if there is one. -/
def splitEquals (cs : List Char) : String × Option String :=
  let before := cs.takeWhile fun c => c != '='
  match cs.dropWhile fun c => c != '=' with
  | [] => (String.ofList before, none)
  | _ :: after => (String.ofList before, some (String.ofList after))

/-- An option with the value that belongs to it; `none` if the value is the next argument. -/
def Grammar.option (grammar : Grammar) (arg : List Char) : Except Stop (Switch × Option String) :=
  match arg with
  | '-' :: '-' :: long =>
    let (name, value) := splitEquals long
    if name == "help" then .error (if value.isSome then .misuse else .help)
    else match grammar.switches.find? fun s => s.long == name with
      | none => .error .misuse
      | some s =>
        match s.takesValue, value with
        | true, value => .ok (s, value)
        | false, none => .ok (s, some "")
        | false, some _ => .error .misuse
  | '-' :: c :: attached =>
    if c == 'h' then .error .help
    else match grammar.switches.find? fun s => s.short == some c with
      | none => .error .misuse
      | some s =>
        match attached with
        | [] => .ok (s, none)
        | '=' :: value => .ok (s, some (String.ofList value))
        | value => .ok (s, some (String.ofList value))
  | _ => .error .misuse

/-- Reads the arguments of a command. -/
def Grammar.read (grammar : Grammar) (g : Given) : List String → Except Stop Given
  | [] => .ok g
  | arg :: args =>
    if arg == "--" then args.foldlM (fun g name => g.addName grammar name) g
    else if isDashed arg then
      match grammar.option arg.toList with
      | .error e => .error e
      | .ok (s, some value) => (g.set s value).bind fun g => grammar.read g args
      | .ok (s, none) =>
        match args with
        | [] => .error .misuse
        | value :: args =>
          if isDashed value then .error .misuse
          else (g.set s value).bind fun g => grammar.read g args
    else if grammar.subcommands.contains arg then .ok { g with rest := some (arg, args) }
    else (g.addName grammar arg).bind fun g => grammar.read g args

/-! ### The commands of the program -/

/-- What to evaluate, and how to deliver it. -/
structure EvaluateRequest where
  metrics : List String
  agent : String
  samples : String
  buffer : Option String := none
  printMetrics : Bool := false
deriving DecidableEq, Repr

/-- What to do. -/
inductive Command where
  | check
  | counters (metric agent : String)
  | evaluate (request : EvaluateRequest)
  | version
deriving DecidableEq, Repr

/-- What is asked of the program. -/
structure Options where
  config : Option String := none
  logLevel : String := "info"
  command : Command
deriving DecidableEq, Repr

/-- The names of the commands that do something. -/
def commandNames : List String := ["check", "counters", "evaluate", "version"]

/-- The options before the command. -/
def mainGrammar : Grammar where
  switches := [{ long := "config", short := some 'c', isPath := true }, { long := "log-level" }]
  subcommands := "help" :: commandNames

/-- What a command takes. -/
def grammarOf : String → Grammar
  | "counters" => { switches := [{ long := "agent" }], maxNames := some 1 }
  | "evaluate" =>
    { switches := [{ long := "agent" }, { long := "samples", isPath := true }, { long := "buffer" },
        { long := "print-metrics", takesValue := false }]
      maxNames := none }
  | _ => { switches := [] }

/-- What a command is given, if it is all there. -/
def commandOf (name : String) (g : Given) : Option Command :=
  match name, g.names.reverse with
  | "check", _ => some .check
  | "version", _ => some .version
  | "counters", [metric] => (g.value? "agent").map (.counters metric)
  | "evaluate", metric :: metrics => do
    let agent ← g.value? "agent"
    let samples ← g.value? "samples"
    return .evaluate {
      metrics := metric :: metrics, agent, samples
      buffer := g.value? "buffer", printMetrics := g.has "print-metrics" }
  | _, _ => none

/-- What the arguments ask for. -/
inductive Request where
  | run (options : Options)
  /-- Help on a command, or on the program. -/
  | help (topic : Option String)
  | misuse
deriving DecidableEq, Repr

/-- What the arguments after the help command ask for. -/
def helpRequest : List String → Request
  | [] => .help none
  | [topic] => if mainGrammar.subcommands.contains topic then .help (some topic) else .misuse
  | _ => .misuse

/-- What the arguments of the program ask for. -/
def Request.ofArguments (args : List String) : Request :=
  match mainGrammar.read {} args with
  | .error .help => .help none
  | .error .misuse => .misuse
  | .ok g =>
    match g.rest with
    | none => .misuse
    | some ("help", topics) => helpRequest topics
    | some (name, args) =>
      match (grammarOf name).read {} args with
      | .error .help => .help (some name)
      | .error .misuse => .misuse
      | .ok own =>
        match commandOf name own with
        | none => .misuse
        | some command =>
          .run { config := g.value? "config", logLevel := (g.value? "log-level").getD "info", command }

end PerfCounters.CommandLine
