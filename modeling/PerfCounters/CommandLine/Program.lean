import PerfCounters.CommandLine.Arguments
import PerfCounters.CommandLine.Delivery
import PerfCounters.CommandLine.Help
import PerfCounters.CommandLine.LogFilter
import PerfCounters.Definitions
import PerfCounters.Telemetry.Exposition

/-!
The program: what each command prints, over any way to read files.
-/

namespace PerfCounters.CommandLine

/-- A run of the program: it prints lines, reads files in `m` and may fail. What was printed before a
failure stays. -/
abbrev Run (m : Type → Type) (α : Type) := ExceptT Failure (StateT (List String) m) α

/-- Reads the text of a file. -/
abbrev FileReader (m : Type → Type) := String → m (Except FileError String)

namespace Run

variable {m : Type → Type} [Monad m]

/-- Prints lines. -/
def print (lines : List String) : Run m Unit := modify fun printed => printed ++ lines

/-- Goes on with what succeeded. -/
def ofExcept {ε α : Type} (failure : ε → Failure) : Except ε α → Run m α
  | .ok a => return a
  | .error e => throw (failure e)

/-- Reads a file, unless no file can have the path. -/
def tryRead (read : FileReader m) (path : String) : Run m (Except FileError String) :=
  if path.toList.contains '\x00' then return .error .nullInPath else liftM (read path)

/-- The text of a file, which is needed for `purpose`. -/
def readFile (read : FileReader m) (path purpose : String) : Run m String := do
  let result ← tryRead read path
  ofExcept (fun e : FileError => ⟨purpose ++ " " ++ path, [e.message]⟩) result

/-! ### What is configured -/

/-- The configuration in a file. -/
def loadConfig (read : FileReader m) (path : String) : Run m Config := do
  let outer := fun (f : Failure) => f.context s!"loading config from {path}"
  let result ← tryRead read path
  let text ← ofExcept
    (fun e : FileError => outer ⟨s!"reading config file {path}", [e.message]⟩) result
  ofExcept
    (fun e : Config.Refusal => match e with
      | .malformed => outer ⟨s!"parsing config file {path}", ["malformed document"]⟩
      | .faulty cause => outer ⟨cause.message, []⟩)
    (Config.load path text)

/-- The catalog of the definitions in a file. -/
def loadCatalog (read : FileReader m) (path : String) : Run m Catalog := do
  let text ← readFile read path "reading metric definitions"
  ofExcept (fun e => (Failure.ofDefinitions e).context s!"loading metric definitions {path}")
    (Catalog.ofText text)

/-- The agent called `name`. -/
def findAgent (cfg : Config) (name : String) : Run m Agent :=
  ofExcept (fun f => f) (match cfg.agent? name with
    | some a => .ok a
    | none => .error ⟨s!"unknown agent {name}", []⟩)

/-- The evaluator for the architecture of an agent. -/
def evaluatorFor (c : Catalog) (a : Agent) : Run m Evaluator :=
  ofExcept (fun e => (Failure.ofEval e).context s!"building evaluator for agent {a.name}")
    (Evaluator.ofCatalog c a.architecture)

/-! ### Checking -/

/-- The line of an architecture. -/
def architectureLine (c : Catalog) (architecture : String) : String :=
  let metrics := (c.metricsOf architecture).length
  let blocks := (c.blocksOf architecture).length
  s!"{architecture}: {metrics} metrics, {blocks} blocks"

/-- The name of a policy. -/
def policyText : Policy → String
  | .discard => "Discard"
  | .lossless => "Lossless"

/-- The line of a buffer. -/
def bufferLine (b : BufferEntry) : String :=
  s!"buffer {b.name}: {b.size} bytes, watermark {b.watermark}, {policyText b.policy}"

/-- Checks that an agent has an evaluator and all constants. -/
def checkAgent (c : Catalog) (a : Agent) : Run m Unit := do
  let e ← evaluatorFor c a
  let _ ← ofExcept
    (fun f => (Failure.ofEval f).context s!"resolving constants for agent {a.name}")
    (e.constantSamples a)
  print [s!"agent {a.name} ({a.architecture}): ok"]

/-- Shows what is configured, and checks it. -/
def check (cfg : Config) (c : Catalog) : Run m Unit := do
  print (c.architectures.map (architectureLine c))
  cfg.agents.forM (checkAgent c)
  print (cfg.buffers.map bufferLine)

/-! ### Counters -/

/-- The line of a metric that has to be measured. -/
def counterLine (m : Metric) : String :=
  let source := if m.isConstant then s!"constant {m.constant}"
    else match m.event with
      | some event => s!"{m.block} event {event}"
      | none => m.block
  s!"    {m.name} ({source})"

/-- The axes of a layout. -/
def axesText (l : Layout) : String :=
  ", ".intercalate (l.map fun a => s!"{a.dimension.name}={a.size}")

/-- Shows a metric and what it needs. -/
def counters (cfg : Config) (c : Catalog) (agent metric : String) : Run m Unit := do
  let e ← evaluatorFor c (← findAgent cfg agent)
  let target ← ofExcept Failure.ofEval (e.metric metric)
  print [s!"{target.name} (id {target.id})"]
  if target.description != "" then print ["  " ++ target.description]
  if target.isDerived then print ["  expression: " ++ target.expression]
  let axes := axesText (← ofExcept Failure.ofEval (e.layout metric))
  let count ← ofExcept Failure.ofEval (e.instanceCount metric)
  print [s!"  dimensions: [{axes}] ({count} instances)", "  required counters:"]
  print ((← ofExcept Failure.ofEval (e.required metric)).map counterLine)
  print ((← ofExcept Failure.ofEval (e.accumulated metric)).map fun (m, mode) =>
    s!"  accumulate: {m.name} {mode.name}")

/-! ### Evaluating -/

/-- Reads the values of counters by name, in the order of names. -/
def samplesOf? (text : String) : Option (List (String × List Float)) :=
  (Yaml.Document.ofText? text).bind fun d =>
    d.decode? (Yaml.Node.textTable (Yaml.Node.list Yaml.Node.float))

/-- The samples of a counter on an agent. -/
def counterSamples (e : Evaluator) (a : Agent) (name : String) (values : List Float) :
    Except Failure (Nat × Records Float) := do
  let m ← (e.metric name).mapError Failure.ofEval
  if m.isDerived || m.isConstant then throw ⟨s!"{name} is not a hardware counter", []⟩
  let layout ← (e.layout name).mapError Failure.ofEval
  let samples ← (Sample.layOut m.id layout values).mapError fun cause =>
    ⟨s!"laying out samples for {name}", [cause.message]⟩
  return (m.id, samples.map fun s => { s with agent := a.agentId })

/-- The samples that are given for an agent, its constants included. -/
def baseSamples (e : Evaluator) (a : Agent) (input : List (String × List Float)) :
    Except Failure BaseSamples := do
  let constants ← (e.constantSamples a).mapError Failure.ofEval
  input.foldlM (fun base (name, values) => do
    let (id, samples) ← counterSamples e a name values
    return base.set id samples) constants

/-- The buffer that a request names; the first one, or a standard one, if it names none. -/
def bufferFor (cfg : Config) : Option String → Except Failure BufferEntry
  | some name =>
    match cfg.buffer? name with
    | some b => .ok b
    | none => .error ⟨s!"unknown buffer {name}", []⟩
  | none => .ok (cfg.buffers.headD { name := "default" })

/-- A text with blanks up to `width` characters. -/
def padRight (width : Nat) (text : String) : String :=
  text ++ String.ofList (List.replicate (width - text.length) ' ')

/-- The line of a sample of a metric. -/
def sampleLine (c : Catalog) (metric : Nat) (s : Sample Float) : String :=
  let name := match c.byId? metric with
    | some m => m.name
    | none => "?"
  padRight 32 name ++ " " ++ s.id.text ++ " " ++ Decimal.write s.value

/-- The lines of what was delivered. -/
def deliveredLines (c : Catalog) (d : Delivered) : List String :=
  (d.samples.map fun (metric, s) => sampleLine c metric s)
    ++ (if d.drops > 0 then [s!"dropped {d.drops} records"] else [])

/-- Evaluates metrics over the samples in a file and shows what is delivered. -/
def evaluate (read : FileReader m) (schedule : Schedule) (cfg : Config) (c : Catalog)
    (request : EvaluateRequest) : Run m Unit := do
  let a ← findAgent cfg request.agent
  let e ← evaluatorFor c a
  let text ← readFile read request.samples "reading samples"
  let input ← ofExcept (fun f => f) (match samplesOf? text with
    | some input => .ok input
    | none => .error ⟨s!"parsing samples {request.samples}", ["malformed document"]⟩)
  let base ← ofExcept (fun f => f) (baseSamples e a input)
  let buffer ← ofExcept (fun f => f) (bufferFor cfg request.buffer)
  let d ← ofExcept (fun f => f)
    (deliver schedule (buffer.settings a.agentId) e base request.metrics)
  print (deliveredLines c d)
  if request.printMetrics then print d.telemetry.lines

/-! ### The program -/

/-- Runs a command. -/
def command (read : FileReader m) (schedule : Schedule) (options : Options) : Run m Unit := do
  match options.config with
  | none => throw ⟨"--config is required (use --help for usage)", []⟩
  | some path =>
    let cfg ← loadConfig read path
    let c ← loadCatalog read cfg.metricDefinitions
    match options.command with
    | .check => check cfg c
    | .counters metric agent => counters cfg c agent metric
    | .evaluate request => evaluate read schedule cfg c request
    | .version => return ()

end Run

/-- What a run leaves behind: the exit code and the lines of both outputs. The log lines that the filter lets through go to
the first output too; they are left out. -/
structure Report where
  code : Nat
  output : List String := []
  errors : List String := []
deriving DecidableEq, Repr

/-- The version of the program, and where it runs. -/
def versionLine (platform : String) : String :=
  s!"{programName} 0.1.0 (commit: unknown, {platform})"

/-- A failed run: it prints what it had to say before, and why it failed. -/
def Report.ofFailure (output : List String) (f : Failure) : Report :=
  { code := 1, output, errors := f.lines }

/-- Runs the program. Arguments that do not fit end it with code 2, any failure with code 1; a log filter
that is torn ends it with code 101. -/
def Report.ofArguments {m : Type → Type} [Monad m] (read : FileReader m) (schedule : Schedule)
    (platform : String) (args : List String) : m Report := do
  match Request.ofArguments args with
  | .misuse => return { code := 2, errors := ["error: see '" ++ programName ++ " --help'"] }
  | .help topic => return { code := 0, output := helpLines topic }
  | .run options =>
    if options.command = .version then return { code := 0, output := [versionLine platform] }
    else match LogFilter.check options.logLevel with
      | .error .torn => return { code := 101 }
      | .error .malformed =>
        return .ofFailure []
          ⟨s!"invalid log level: {options.logLevel}", ["invalid filter directive"]⟩
      | .ok _ =>
        let (result, output) ← (Run.command read schedule options).run []
        match result with
        | .ok _ => return { code := 0, output }
        | .error f => return .ofFailure output f

end PerfCounters.CommandLine
