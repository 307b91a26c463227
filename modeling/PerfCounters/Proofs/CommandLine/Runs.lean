import PerfCounters.CommandLine.Program

/-! Runs over given files. A run succeeds if each of its steps does, so an evaluation is determined by what is in the files
    that it names, and prints at its end only. -/

namespace PerfCounters

namespace CommandLine

/-- The text of a file, where files are given. -/
def readText (read : FileReader Id) (path : String) : Except FileError String :=
  if path.toList.contains '\x00' then .error .nullInPath else read path

namespace Run

variable {α β ε : Type} {printed out : List String} {a : α} {read : FileReader Id}

/-- A run that succeeds: with this value, and with these lines after those that were printed before. -/
def Yields (x : Run Id α) (printed : List String) (a : α) (out : List String) : Prop := x.run printed = (.ok a, out)

theorem yields_bind {x : Run Id α} {f : α → Run Id β} {b : β} :
    Yields (x >>= f) printed b out ↔ ∃ a more, Yields x printed a more ∧ Yields (f a) more b out := by
  have hbind : (x >>= f).run printed = match x.run printed with
      | (.ok a, more) => (f a).run more
      | (.error failure, more) => (.error failure, more) := by
    rw [ExceptT.run_bind]
    show StateT.bind x.run _ printed = _
    unfold StateT.bind
    cases hx : x.run printed with
    | mk result more =>
      simp only [bind]
      cases result <;> rfl
  unfold Yields
  rw [hbind]
  cases x.run printed with
  | mk result more =>
    cases result with
    | ok a =>
      refine ⟨fun h => ⟨a, more, rfl, h⟩, fun ⟨_, _, hx, h⟩ => ?_⟩
      cases hx
      exact h
    | error failure => exact ⟨fun h => (by cases h), fun ⟨_, _, hx, _⟩ => by cases hx⟩

theorem yields_pure {b : α} : Yields (pure a) printed b out ↔ b = a ∧ out = printed :=
  ⟨fun h => by cases h; exact ⟨rfl, rfl⟩, fun ⟨ha, hout⟩ => by rw [ha, hout]; rfl⟩

theorem yields_ofExcept {failure : ε → Failure} {result : Except ε α} :
    Yields (ofExcept failure result) printed a out ↔ result = .ok a ∧ out = printed := by
  cases result with
  | ok b => exact ⟨fun h => by cases h; exact ⟨rfl, rfl⟩, fun ⟨ha, hout⟩ => by cases ha; rw [hout]; rfl⟩
  | error e => exact ⟨fun h => (by cases h), fun ⟨ha, _⟩ => by cases ha⟩

theorem yields_tryRead {path : String} {result : Except FileError String} :
    Yields (tryRead read path) printed result out ↔ result = readText read path ∧ out = printed := by
  unfold tryRead readText
  split
  · exact yields_pure
  · exact ⟨fun h => by cases h; exact ⟨rfl, rfl⟩, fun ⟨ha, hout⟩ => by rw [ha, hout]; rfl⟩

theorem yields_print {lines : List String} : Yields (print lines) printed () out ↔ out = printed ++ lines :=
  ⟨fun h => by cases h; rfl, fun hout => by rw [hout]; rfl⟩

/-! ### What a request names -/

theorem yields_readFile {path purpose text : String} :
    Yields (readFile read path purpose) printed text out ↔ readText read path = .ok text ∧ out = printed := by
  simp only [readFile, yields_bind, yields_tryRead, yields_ofExcept]
  constructor
  · rintro ⟨_, _, ⟨rfl, rfl⟩, htext, rfl⟩
    exact ⟨htext, rfl⟩
  · rintro ⟨htext, rfl⟩
    exact ⟨_, _, ⟨rfl, rfl⟩, htext, rfl⟩

theorem yields_loadConfig {path : String} {config : Config} :
    Yields (loadConfig read path) printed config out ↔
      (∃ text, readText read path = .ok text ∧ Config.load path text = .ok config) ∧ out = printed := by
  simp only [loadConfig, yields_bind, yields_tryRead, yields_ofExcept]
  constructor
  · rintro ⟨_, _, ⟨rfl, rfl⟩, text, _, ⟨htext, rfl⟩, hconfig, rfl⟩
    exact ⟨⟨text, htext, hconfig⟩, rfl⟩
  · rintro ⟨⟨text, htext, hconfig⟩, rfl⟩
    exact ⟨_, _, ⟨rfl, rfl⟩, text, _, ⟨htext, rfl⟩, hconfig, rfl⟩

theorem yields_loadCatalog {path : String} {catalog : Catalog} :
    Yields (loadCatalog read path) printed catalog out ↔
      (∃ text, readText read path = .ok text ∧ Catalog.ofText text = .ok catalog) ∧ out = printed := by
  simp only [loadCatalog, yields_bind, yields_readFile, yields_ofExcept]
  constructor
  · rintro ⟨text, _, ⟨htext, rfl⟩, hcatalog, rfl⟩
    exact ⟨⟨text, htext, hcatalog⟩, rfl⟩
  · rintro ⟨⟨text, htext, hcatalog⟩, rfl⟩
    exact ⟨text, _, ⟨htext, rfl⟩, hcatalog, rfl⟩

theorem yields_findAgent {config : Config} {name : String} {agent : Agent} :
    Yields (findAgent config name) printed agent out ↔ config.agent? name = some agent ∧ out = printed := by
  simp only [findAgent, yields_ofExcept]
  cases config.agent? name with
  | none => exact ⟨fun ⟨h, _⟩ => (by cases h), fun ⟨h, _⟩ => by cases h⟩
  | some a => simp

end Run

/-- What a request is evaluated on: what is in the files, and what the names in the request stand for. -/
structure Basis where
  config : Config
  catalog : Catalog
  agent : Agent
  evaluator : Evaluator
  base : BaseSamples
  buffer : BufferEntry

/-- The configuration at a path names the definitions; a request names the rest. -/
structure Basis.Read (x : Basis) (read : FileReader Id) (path : String) (request : EvaluateRequest) : Prop where
  config : ∃ text, readText read path = .ok text ∧ Config.load path text = .ok x.config
  catalog : ∃ text, readText read x.config.metricDefinitions = .ok text ∧ Catalog.ofText text = .ok x.catalog
  agent : x.config.agent? request.agent = some x.agent
  evaluator : Evaluator.ofCatalog x.catalog x.agent.architecture = .ok x.evaluator
  base : ∃ text input, readText read request.samples = .ok text ∧ Run.samplesOf? text = some input ∧
    Run.baseSamples x.evaluator x.agent input = .ok x.base
  buffer : Run.bufferFor x.config request.buffer = .ok x.buffer

theorem Basis.Read.unique {x y : Basis} {read : FileReader Id} {path : String} {request : EvaluateRequest}
    (hx : x.Read read path request) (hy : y.Read read path request) : x = y := by
  obtain ⟨config, catalog, agent, evaluator, base, buffer⟩ := x
  obtain ⟨⟨text, htext, hconfig⟩, ⟨doc, hdoc, hcatalog⟩, hagent, hevaluator,
    ⟨samples, input, hsamples, hinput, hbase⟩, hbuffer⟩ := hx
  obtain ⟨⟨text', htext', hconfig'⟩, ⟨doc', hdoc', hcatalog'⟩, hagent', hevaluator',
    ⟨samples', input', hsamples', hinput', hbase'⟩, hbuffer'⟩ := hy
  obtain ⟨config', catalog', agent', evaluator', base', buffer'⟩ := y
  simp only at *
  obtain rfl := Except.ok.inj (htext.symm.trans htext')
  obtain rfl := Except.ok.inj (hconfig.symm.trans hconfig')
  obtain rfl := Except.ok.inj (hdoc.symm.trans hdoc')
  obtain rfl := Except.ok.inj (hcatalog.symm.trans hcatalog')
  obtain rfl := Option.some.inj (hagent.symm.trans hagent')
  obtain rfl := Except.ok.inj (hevaluator.symm.trans hevaluator')
  obtain rfl := Except.ok.inj (hsamples.symm.trans hsamples')
  obtain rfl := Option.some.inj (hinput.symm.trans hinput')
  obtain rfl := Except.ok.inj (hbase.symm.trans hbase')
  obtain rfl := Except.ok.inj (hbuffer.symm.trans hbuffer')
  rfl

namespace Run

variable {read : FileReader Id} {schedule : Schedule} {options : Options} {request : EvaluateRequest}
  {printed out : List String}

theorem parsed_eq_ok {failure : Failure} {text : String} {input : List (String × List Float)} :
    (match samplesOf? text with
      | some input => .ok input
      | none => .error failure) = Except.ok input ↔ samplesOf? text = some input := by
  cases samplesOf? text with
  | none => exact ⟨fun h => (by cases h), fun h => by cases h⟩
  | some found => simp

theorem yields_printIf {wanted : Bool} {lines : List String} :
    Yields (if wanted then print lines else pure ()) printed () out ↔ out = printed ++ if wanted then lines else [] := by
  cases wanted with
  | false => simp [yields_pure]
  | true => exact yields_print

/-- An evaluation succeeds if everything that it needs is there and the delivery succeeds. -/
theorem yields_evaluate {config : Config} {catalog : Catalog} :
    Yields (evaluate read schedule config catalog request) printed () out ↔
      ∃ agent evaluator text input base buffer delivered,
        config.agent? request.agent = some agent ∧ Evaluator.ofCatalog catalog agent.architecture = .ok evaluator ∧
        readText read request.samples = .ok text ∧ samplesOf? text = some input ∧
        baseSamples evaluator agent input = .ok base ∧ bufferFor config request.buffer = .ok buffer ∧
        deliver schedule (buffer.settings agent.agentId) evaluator base request.metrics = .ok delivered ∧
        out = printed ++ deliveredLines catalog delivered ++
          if request.printMetrics then delivered.telemetry.lines else [] := by
  simp only [evaluate, evaluatorFor, yields_bind, yields_findAgent, yields_ofExcept, yields_readFile]
  constructor
  · rintro ⟨agent, _, ⟨hagent, rfl⟩, evaluator, _, ⟨hevaluator, rfl⟩, text, _, ⟨htext, rfl⟩, input, _, ⟨hinput, rfl⟩,
      base, _, ⟨hbase, rfl⟩, buffer, _, ⟨hbuffer, rfl⟩, delivered, _, ⟨hdelivered, rfl⟩, _, _, hprint, htelemetry⟩
    cases yields_print.mp hprint
    exact ⟨agent, evaluator, text, input, base, buffer, delivered, hagent, hevaluator, htext, parsed_eq_ok.mp hinput, hbase,
      hbuffer, hdelivered, yields_printIf.mp htelemetry⟩
  · rintro ⟨agent, evaluator, text, input, base, buffer, delivered, hagent, hevaluator, htext, hinput, hbase, hbuffer,
      hdelivered, hout⟩
    exact ⟨agent, _, ⟨hagent, rfl⟩, evaluator, _, ⟨hevaluator, rfl⟩, text, _, ⟨htext, rfl⟩, input, _,
      ⟨parsed_eq_ok.mpr hinput, rfl⟩, base, _, ⟨hbase, rfl⟩, buffer, _, ⟨hbuffer, rfl⟩, delivered, _, ⟨hdelivered, rfl⟩,
      (), _, yields_print.mpr rfl, yields_printIf.mpr hout⟩

theorem yields_command (hcommand : options.command = .evaluate request) :
    Yields (command read schedule options) [] () out ↔ ∃ path x delivered, options.config = some path ∧
      Basis.Read x read path request ∧
      deliver schedule (x.buffer.settings x.agent.agentId) x.evaluator x.base request.metrics = .ok delivered ∧
      out = deliveredLines x.catalog delivered ++ if request.printMetrics then delivered.telemetry.lines else [] := by
  unfold command
  cases hpath : options.config with
  | none => exact ⟨fun h => (by cases h), fun ⟨_, _, _, h, _⟩ => by cases h⟩
  | some path =>
    simp only [hcommand, yields_bind, yields_loadConfig, yields_loadCatalog, yields_evaluate]
    constructor
    · rintro ⟨config, _, ⟨hconfig, rfl⟩, catalog, _, ⟨hcatalog, rfl⟩, agent, evaluator, text, input, base, buffer,
        delivered, hagent, hevaluator, htext, hinput, hbase, hbuffer, hdelivered, hout⟩
      exact ⟨path, ⟨config, catalog, agent, evaluator, base, buffer⟩, delivered, rfl,
        ⟨hconfig, hcatalog, hagent, hevaluator, ⟨text, input, htext, hinput, hbase⟩, hbuffer⟩, hdelivered, hout⟩
    · rintro ⟨_, x, delivered, heq, hx, hdelivered, hout⟩
      cases heq
      obtain ⟨text, input, htext, hinput, hbase⟩ := hx.base
      exact ⟨x.config, _, ⟨hx.config, rfl⟩, x.catalog, _, ⟨hx.catalog, rfl⟩, x.agent, x.evaluator, text, input, x.base,
        x.buffer, delivered, hx.agent, hx.evaluator, htext, hinput, hbase, hx.buffer, hdelivered, hout⟩

end Run

section

variable {read : FileReader Id} {schedule : Schedule} {platform : String} {args out : List String} {options : Options}
  {request : EvaluateRequest}

theorem report_of_yields (hargs : Request.ofArguments args = .run options) (hcommand : options.command = .evaluate request)
    (hlog : LogFilter.check options.logLevel = .ok ()) (h : Run.Yields (Run.command read schedule options) [] () out) :
    Report.ofArguments (m := Id) read schedule platform args = { code := 0, output := out } := by
  have hnot : ¬options.command = .version := by rw [hcommand]; exact fun h => by cases h
  unfold Report.ofArguments
  simp only [hargs, if_neg hnot, hlog]
  show Id.run (bind ((Run.command read schedule options).run []) _) = _
  rw [show (Run.command read schedule options).run [] = (.ok (), out) from h]
  rfl

theorem yields_of_report (hargs : Request.ofArguments args = .run options) (hcommand : options.command = .evaluate request)
    (hcode : (Report.ofArguments (m := Id) read schedule platform args).code = 0) :
    LogFilter.check options.logLevel = .ok () ∧ ∃ out, Run.Yields (Run.command read schedule options) [] () out ∧
      Report.ofArguments (m := Id) read schedule platform args = { code := 0, output := out } := by
  have hnot : ¬options.command = .version := by rw [hcommand]; exact fun h => by cases h
  cases hlog : LogFilter.check options.logLevel with
  | error fault =>
    unfold Report.ofArguments at hcode
    simp only [hargs, if_neg hnot, hlog] at hcode
    cases fault <;> cases hcode
  | ok =>
    cases hrun : (Run.command read schedule options).run [] with
    | mk result out =>
      cases result with
      | ok => exact ⟨rfl, out, hrun, report_of_yields hargs hcommand hlog hrun⟩
      | error failure =>
        unfold Report.ofArguments at hcode
        simp only [hargs, if_neg hnot, hlog] at hcode
        rw [hrun] at hcode
        cases hcode

end

end CommandLine

end PerfCounters
