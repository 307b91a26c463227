import PerfCounters.Proofs.CommandLine.Deliveries
import PerfCounters.Proofs.CommandLine.Runs
import PerfCounters.Proofs.Documents.Loading
import PerfCounters.Proofs.Trees.Coverage

/-! What an evaluation prints. A number that is delivered leads back to the metric that was asked for, since numbers and
    names of a catalog lead to the same metrics. -/

namespace PerfCounters

open PerfCounters.Parser (bind_eq_ok)

namespace CommandLine

/-! ### What is printed -/

/-- The line of a record of a metric. -/
def recordLine (name : String) (s : Sample Float) : String :=
  Run.padRight 32 name ++ " " ++ s.id.text ++ " " ++ Decimal.write s.value

/-- The columns of a line: the name of the metric, blanks up to the thirty-third character and one at the least, then the id
and the value. -/
theorem recordLine_columns (name : String) (s : Sample Float) :
    ∃ blanks : List Char, (∀ c ∈ blanks, c = ' ') ∧ name.length + blanks.length = max name.length 32 + 1 ∧
      (recordLine name s).toList = name.toList ++ blanks ++ (s.id.text ++ " " ++ Decimal.write s.value).toList := by
  refine ⟨List.replicate (32 - name.length) ' ' ++ [' '], ?_, ?_, ?_⟩
  · intro c hc
    rw [List.mem_append, List.mem_singleton] at hc
    exact hc.elim List.eq_of_mem_replicate id
  · rw [List.length_append, List.length_replicate, List.length_singleton]
    omega
  · simp [recordLine, Run.padRight]

/-- The lines of the records of metrics, metric by metric in this order, each with the name of its metric. -/
def requestedLines (e : Evaluator) (base : BaseSamples) : List String → Except EvalError (List String)
  | [] => .ok []
  | name :: rest => do
    let records ← e.evaluate name base
    let others ← requestedLines e base rest
    return records.map (recordLine name) ++ others

/-- The number of a metric leads back to its name. -/
theorem sampleLine_metric {c : Catalog} {architecture name : String} {e : Evaluator} {m : Metric} (hc : c.Numbered)
    (he : Evaluator.ofCatalog c architecture = .ok e) (hm : e.metric name = .ok m) (s : Sample Float) :
    Run.sampleLine c m.id s = recordLine name s := by
  obtain ⟨hcatalog, harchitecture, -⟩ := Evaluator.ofCatalog_ok hc he
  have hlookup : Tree.lookUp c architecture name = .ok m := by rwa [Evaluator.metric, hcatalog, harchitecture] at hm
  obtain ⟨hholds, -, hname⟩ := Tree.lookUp_ok hc hlookup
  unfold Run.sampleLine recordLine
  rw [show c.byId? m.id = some m from hholds]
  simp only [hname]

/-- The lines of what is requested, as they are printed if nothing is dropped. -/
theorem requestedLines_eq {c : Catalog} {architecture : String} {e : Evaluator} {base : BaseSamples} {metrics : List String}
    {requested : List (Nat × Sample Float)} (hc : c.Numbered) (he : Evaluator.ofCatalog c architecture = .ok e)
    (h : requestedSamples e base metrics = .ok requested) :
    requestedLines e base metrics = .ok (requested.map fun x => Run.sampleLine c x.1 x.2) := by
  induction metrics generalizing requested with
  | nil =>
    cases h
    rfl
  | cons name rest ih =>
    obtain ⟨m, records, others, hm, hrecords, hothers, rfl⟩ := requestedSamples_cons.mp h
    have hlines : records.map (recordLine name) =
        (records.map fun v => (m.id, v)).map fun x => Run.sampleLine c x.1 x.2 := by
      rw [List.map_map]
      exact List.map_congr_left fun s _ => (sampleLine_metric hc he hm s).symm
    rw [requestedLines, hrecords, ih hothers, List.map_append, ← hlines]
    rfl

/-- A run that succeeds: it prints lines of records, the number of dropped ones if there are any, and its telemetry if
that is asked for. -/
def Report.Prints (report : Report) (request : EvaluateRequest) (lines : List String) (drops : Nat) : Prop :=
  ∃ telemetry : Telemetry Nat, report = {
    code := 0
    output := lines ++ (if drops > 0 then [s!"dropped {drops} records"] else []) ++
      if request.printMetrics then telemetry.lines else [] }

section

variable {read : FileReader Id} {schedule : Schedule} {platform path : String} {args : List String} {options : Options}
  {request : EvaluateRequest} {x : Basis} {requested : List (Nat × Sample Float)}

theorem prints_of_deliver {delivered : Delivered} (hargs : Request.ofArguments args = .run options)
    (hcommand : options.command = .evaluate request) (hlog : LogFilter.check options.logLevel = .ok ())
    (hpath : options.config = some path) (hx : x.Read read path request)
    (hdelivered : deliver schedule (x.buffer.settings x.agent.agentId) x.evaluator x.base request.metrics = .ok delivered) :
    (Report.ofArguments (m := Id) read schedule platform args).Prints request
      (delivered.samples.map fun y => Run.sampleLine x.catalog y.1 y.2) delivered.drops :=
  ⟨delivered.telemetry, report_of_yields hargs hcommand hlog
    ((Run.yields_command hcommand).mpr ⟨path, x, delivered, hpath, hx, hdelivered, rfl⟩)⟩

theorem Basis.Read.numbered (hx : x.Read read path request) : x.catalog.Numbered := by
  obtain ⟨text, -, hcatalog⟩ := hx.catalog
  exact (Catalog.ofText_ok hcatalog).1.built.numbered

/-- A lossless buffer that is large enough lets all that is requested through, however it is drained. -/
theorem prints_of_lossless {lines : List String} (hargs : Request.ofArguments args = .run options)
    (hcommand : options.command = .evaluate request) (hlog : LogFilter.check options.logLevel = .ok ())
    (hpath : options.config = some path) (hx : x.Read read path request)
    (hrequested : requestedSamples x.evaluator x.base request.metrics = .ok requested)
    (hlines : requestedLines x.evaluator x.base request.metrics = .ok lines) (hpolicy : x.buffer.policy = .lossless)
    (hsize : 40 ≤ x.buffer.size) (hwatermark : x.buffer.watermark ≤ x.buffer.size) :
    (Report.ofArguments (m := Id) read schedule platform args).Prints request lines 0 := by
  have hfault : (x.buffer.settings x.agent.agentId).fault? = none := by
    unfold Settings.fault? BufferEntry.settings
    rw [if_neg (by simp; omega), if_neg (by simp; omega)]
  obtain ⟨delivered, hdelivered, hsamples, hdrops⟩ := deliver_lossless schedule hrequested hfault hpolicy hsize
  obtain rfl := Except.ok.inj (hlines.symm.trans (requestedLines_eq hx.numbered hx.evaluator hrequested))
  rw [← hsamples, ← hdrops]
  exact prints_of_deliver hargs hcommand hlog hpath hx hdelivered

/-- A successful evaluation prints records of the requested metrics, in order. The others were dropped, as many as it
says, and a lossless buffer drops none. Then all that is requested is printed, whatever the buffer is like: another run over
the same evaluator and samples succeeds and prints the same records, if it has a lossless buffer for at least one. -/
theorem evaluation_prints_records (hargs : Request.ofArguments args = .run options)
    (hcommand : options.command = .evaluate request)
    (hcode : (Report.ofArguments (m := Id) read schedule platform args).code = 0) :
    ∃ (path : String) (x : Basis) (requested : List String), options.config = some path ∧ x.Read read path request ∧
      requestedLines x.evaluator x.base request.metrics = .ok requested ∧
      (∃ lines drops, (Report.ofArguments (m := Id) read schedule platform args).Prints request lines drops ∧
        lines.Sublist requested ∧ lines.length + drops = requested.length ∧
        (x.buffer.policy = .lossless → lines = requested ∧ drops = 0)) ∧
      ∀ (read' : FileReader Id) (schedule' : Schedule) (args' : List String) (path' : String) (buffer : Option String)
        (x' : Basis),
        Request.ofArguments args' =
          .run { options with config := some path', command := .evaluate { request with buffer } } →
        x'.Read read' path' { request with buffer } → x'.evaluator = x.evaluator → x'.base = x.base →
        x'.buffer.policy = .lossless → 40 ≤ x'.buffer.size → x'.buffer.watermark ≤ x'.buffer.size →
        (Report.ofArguments (m := Id) read' schedule' platform args').Prints request requested 0 := by
  obtain ⟨hlog, out, hyields, -⟩ := yields_of_report hargs hcommand hcode
  obtain ⟨path, x, delivered, hpath, hx, hdelivered, -⟩ := (Run.yields_command hcommand).mp hyields
  obtain ⟨requested, hrequested, hsub, hcount, hlossless⟩ := deliver_accounts hdelivered
  have hlines := requestedLines_eq hx.numbered hx.evaluator hrequested
  refine ⟨path, x, _, hpath, hx, hlines, ?_, fun read' schedule' args' path' buffer x' hargs' hx' hevaluator hbase
    hpolicy hsize hwatermark => ?_⟩
  · refine ⟨_, _, prints_of_deliver hargs hcommand hlog hpath hx hdelivered, hsub.map _, ?_, fun hpolicy => ?_⟩
    · rw [List.length_map, List.length_map, hcount]
    · have hnone := hlossless hpolicy
      rw [hnone, Nat.add_zero] at hcount
      exact ⟨by rw [hsub.eq_of_length hcount], hnone⟩
  · rw [← hevaluator, ← hbase] at hrequested hlines
    have hprints : (Report.ofArguments (m := Id) read' schedule' platform args').Prints { request with buffer } _ 0 :=
      prints_of_lossless hargs' rfl hlog rfl hx' hrequested hlines hpolicy hsize hwatermark
    exact hprints

end

namespace NodeNumber

/-! A constant metric is asked for twice, over a buffer for one record and over one that is drained after every third. -/

def definitions : String := "metrics: [\x7bname: N, architectures: \x7bg: \x7bconstant: node_id\x7d\x7d\x7d]"

def configuration (size watermark : String) : String :=
  "metric_definitions: d\nbuffers: [\x7bname: b, policy: lossless, size: " ++ size ++ ", watermark: " ++ watermark ++
    "\x7d]\nagents: [\x7bname: a, architecture: g, node_id: 7\x7d]"

def files (size watermark : String) : FileReader Id := fun path =>
  .ok (if path = "c" then configuration size watermark else if path = "d" then definitions else "\x7b\x7d")

def arguments : List String := ["--config", "c", "evaluate", "--agent", "a", "--samples", "s", "N", "N"]

def request : EvaluateRequest := { metrics := ["N", "N"], agent := "a", samples := "s" }

def agent : Agent := { name := "a", architecture := "g", nodeId := 7 }

def buffer (size watermark : Nat) : BufferEntry := { name := "b", size, watermark, policy := .lossless }

def config (size watermark : Nat) : Config :=
  { metricDefinitions := "d", buffers := [buffer size watermark], agents := [agent] }

def entry : MetricEntry := ⟨"N", "", [("g", { constant := "node_id" })]⟩

def definition : Definition := DefinitionDocument.definition entry { constant := "node_id" } "g"

def metric : Metric := { definition with id := 1 }

def catalog : Catalog := Catalog.empty.add definition

theorem request_of_arguments :
    Request.ofArguments arguments = .run { config := some "c", command := .evaluate request } := by
  decide +kernel

theorem load_configuration : Config.load "c" (configuration "40" "0") = .ok (config 40 0) ∧
    Config.load "c" (configuration "4096" "120") = .ok (config 4096 120) :=
  ⟨by decide +kernel, by decide +kernel⟩

theorem register_entry :
    DefinitionDocument.registerKey entry "g" { constant := "node_id" } Catalog.empty = .ok catalog := by
  have hproperty : (Text.trim "node_id" != "" && !Agent.hasProperty (Text.trim "node_id")) = false := by decide +kernel
  have harchitectures : DefinitionDocument.architecturesOf "g" = ["g"] := by decide +kernel
  have hfree : Catalog.empty.Free definition := ⟨by simp [Catalog.number?, Catalog.empty], by decide⟩
  unfold DefinitionDocument.registerKey
  simp only [hproperty, harchitectures, List.map_cons, List.map_nil]
  rw [← definition, Catalog.registerAll, Catalog.register_of_free hfree]
  rfl

theorem ofText_definitions : Catalog.ofText definitions = .ok catalog := by
  have hdocument : DefinitionDocument.ofText? definitions = some ⟨[], [entry]⟩ := by decide +kernel
  have hcheck : DefinitionDocument.check catalog catalog.occurring = .ok () := by cbv
  have hmetrics : DefinitionDocument.registerMetrics [entry] Catalog.empty = .ok catalog := by
    rw [DefinitionDocument.registerMetrics, if_neg (by decide)]
    show ((DefinitionDocument.registerKey entry "g" { constant := "node_id" } Catalog.empty).bind _).bind _ = _
    rw [register_entry]
    rfl
  rw [Catalog.ofText_of_document hdocument, DefinitionDocument.catalog_eq]
  show (DefinitionDocument.registerMetrics [entry] Catalog.empty).bind _ = _
  rw [hmetrics]
  show (DefinitionDocument.check catalog catalog.occurring).bind _ = _
  rw [hcheck]
  rfl

theorem exists_evaluator : ∃ e, Evaluator.ofCatalog catalog "g" = .ok e ∧ e.catalog = catalog ∧ e.architecture = "g" ∧
    e.metric "N" = .ok metric ∧ e.tree "N" = .ok (.reference ⟨Layout.scalar, some 1⟩ metric) := by
  have heval : (do
      let e ← Evaluator.ofCatalog catalog "g"
      return (← e.metric "N", ← e.tree "N")) = Except.ok (metric, Tree.reference ⟨Layout.scalar, some 1⟩ metric) := by cbv
  obtain ⟨e, he, h⟩ := bind_eq_ok heval
  obtain ⟨m, hm, h⟩ := bind_eq_ok h
  obtain ⟨t, ht, h⟩ := bind_eq_ok h
  cases h
  have hnumbered := (Catalog.ofText_ok ofText_definitions).1.built.numbered
  obtain ⟨hcatalog, harchitecture, -⟩ := Evaluator.ofCatalog_ok hnumbered he
  exact ⟨e, he, hcatalog, harchitecture, hm, ht⟩

theorem exists_base {e : Evaluator} (hcatalog : e.catalog = catalog) (harchitecture : e.architecture = "g") :
    ∃ s, Run.baseSamples e agent [] = .ok [(1, [s])] := by
  have hconstants : catalog.constantsOf "g" = [metric] := by cbv
  have hproperty : (Agent.properties.find? fun p => p.1 == metric.constant) = some ("node_id", Agent.nodeId) := by cbv
  unfold Run.baseSamples Evaluator.constantSamples
  rw [hcatalog, harchitecture, hconstants]
  simp only [List.foldlM, Evaluator.constantSample, Agent.property, hproperty]
  exact ⟨_, rfl⟩

theorem exists_requested {e : Evaluator} {s : Sample Float} (hm : e.metric "N" = .ok metric)
    (ht : e.tree "N" = .ok (.reference ⟨Layout.scalar, some 1⟩ metric)) :
    ∃ requested, requestedSamples e [(1, [s])] request.metrics = .ok requested ∧ requested.length = 2 := by
  obtain ⟨tagged, htagged, hids⟩ := Tree.retag_eq_ok (n := ⟨Layout.scalar, some 1⟩) (fun k hk => by cases hk; decide) [s]
  have hvalue : e.evaluate "N" [(1, [s])] = .ok tagged := by
    rw [Evaluator.evaluate_of_tree ht]
    exact htagged
  have hlen : tagged.length = 1 := by
    rw [← Records.length_ids, hids]
    rfl
  refine ⟨tagged.map (fun v => (1, v)) ++ (tagged.map (fun v => (1, v)) ++ []), ?_, by simp [hlen]⟩
  simp only [request, requestedSamples, hm, hvalue]
  rfl

theorem read_files {e : Evaluator} {base : BaseSamples} {size watermark : Nat} {sizeText watermarkText : String}
    (hload : Config.load "c" (configuration sizeText watermarkText) = .ok (config size watermark))
    (he : Evaluator.ofCatalog catalog "g" = .ok e) (hbase : Run.baseSamples e agent [] = .ok base) :
    Basis.Read ⟨config size watermark, catalog, agent, e, base, buffer size watermark⟩ (files sizeText watermarkText) "c"
      request := by
  have hsamples : Run.samplesOf? "\x7b\x7d" = some [] := by
    have hnone : (Run.samplesOf? "\x7b\x7d").map List.isEmpty = some true := by decide +kernel
    obtain ⟨input, hinput, hempty⟩ := Option.map_eq_some_iff.mp hnone
    rw [hinput, List.isEmpty_iff.mp hempty]
  have hdefinitions : readText (files sizeText watermarkText) "d" = .ok definitions := by simp [readText, files]
  have hfile : readText (files sizeText watermarkText) "s" = .ok "\x7b\x7d" := by simp [readText, files]
  exact ⟨⟨_, rfl, hload⟩, ⟨_, hdefinitions, ofText_definitions⟩, rfl, he, ⟨_, [], hfile, hsamples, hbase⟩, rfl⟩

/-- Both runs print the same two lines. -/
theorem prints_twice : ∃ lines, lines.length = 2 ∧
    (Report.ofArguments (m := Id) (files "40" "0") (fun _ => .wait) "" arguments).Prints request lines 0 ∧
    (Report.ofArguments (m := Id) (files "4096" "120") .prompt "" arguments).Prints request lines 0 := by
  obtain ⟨e, he, hcatalog, harchitecture, hm, ht⟩ := exists_evaluator
  obtain ⟨s, hbase⟩ := exists_base hcatalog harchitecture
  obtain ⟨requested, hrequested, hlength⟩ := exists_requested (s := s) hm ht
  have hx := read_files load_configuration.1 he hbase
  have hx' := read_files load_configuration.2 he hbase
  have hlog : LogFilter.check "info" = .ok () := by decide +kernel
  have hlines := requestedLines_eq hx.numbered hx.evaluator hrequested
  have hcode : (Report.ofArguments (m := Id) (files "40" "0") (fun _ => .wait) "" arguments).code = 0 := by
    obtain ⟨telemetry, hreport⟩ : (Report.ofArguments (m := Id) (files "40" "0") (fun _ => .wait) "" arguments).Prints
      request _ 0 := prints_of_lossless request_of_arguments rfl hlog rfl hx hrequested hlines rfl
        (Nat.le_refl 40) (Nat.zero_le 40)
    rw [hreport]
  obtain ⟨path, x, lines, hpath, hread, hlines', ⟨printed, drops, hprints, -, -, hlossless⟩, hother⟩ :=
    evaluation_prints_records request_of_arguments rfl hcode
  cases hpath
  obtain rfl := hread.unique hx
  obtain ⟨rfl, rfl⟩ := hlossless rfl
  refine ⟨printed, ?_, hprints,
    hother (files "4096" "120") .prompt arguments "c" none _ request_of_arguments hx' rfl rfl rfl (show 40 ≤ 4096 by decide)
      (show 120 ≤ 4096 by decide)⟩
  rw [← Except.ok.inj (hlines.symm.trans hlines'), List.length_map, hlength]

end NodeNumber

end CommandLine

end PerfCounters
