import Mathlib.Data.List.Nodup
import PerfCounters.Config.Reading

/-! Two ways to a checked configuration: as its text says it, and as the file at a path says it, with the definitions seen
    from the directory of the file. A path that is seen from a named directory is never empty. So the two agree, down to the
    first fault, where the definitions are named; where they are not, only the first notices. -/

namespace PerfCounters

namespace FilePath

variable {directory path : String}

theorem join_eq_empty : join directory path = "" ↔ directory = "" ∧ path = "" := by
  unfold join
  split
  · rename_i h
    rcases Bool.or_eq_true_iff.mp h with h | h
    · have hne : path ≠ "" := by
        rintro rfl
        exact absurd h (by decide)
      simp [hne]
    · simp [String.isEmpty_iff.mp h]
  · rename_i h
    have hdirectory : directory ≠ "" := fun heq => h (by simp [heq])
    split <;> simp [hdirectory]

end FilePath

namespace Config

variable {α : Type} {name : α → String} {fault? : List String → α → Option ConfigError}
  {fits : α → Prop} {seen : List String}
  {l : List α} {c : Config} {path directory text : String}

/-! ### Checks -/

/-- What a configuration has to satisfy besides naming its definitions. -/
structure Consistent (c : Config) : Prop where
  workers : 0 < c.flush.workers
  poll : 0 < c.flush.poll.nanoseconds
  buffers : ∀ b ∈ c.buffers, b.name ≠ "" ∧ 0 < b.size ∧ b.watermark ≤ b.size
  bufferNames : (c.buffers.map BufferEntry.name).Nodup
  agents : ∀ a ∈ c.agents, a.name ≠ "" ∧ a.architecture ≠ ""
  agentNames : (c.agents.map Agent.name).Nodup

/-- Entries that are looked at one after the other are without fault if each fits and has a name of its own. -/
theorem firstFault?_eq_none (h : ∀ seen a, fault? seen a = none ↔ fits a ∧ name a ∉ seen) :
    firstFault? name fault? seen l = none ↔ (∀ a ∈ l, fits a) ∧ (l.map name).Nodup ∧ ∀ a ∈ l, name a ∉ seen := by
  induction l generalizing seen with
  | nil => simp [firstFault?]
  | cons a l ih =>
    have hstep : firstFault? name fault? seen (a :: l) = none ↔
        fault? seen a = none ∧ firstFault? name fault? (name a :: seen) l = none := by
      rw [firstFault?]
      cases fault? seen a <;> simp
    rw [hstep, h, ih, List.map_cons, List.nodup_cons, List.forall_mem_cons, List.forall_mem_cons]
    simp only [List.mem_map, List.mem_cons, not_or, not_exists, not_and, forall_and]
    tauto

/-- What is looked at first of an entry is its name. -/
theorem nameFault_eq_none {name : String} {missing duplicate : ConfigError} {other : Option ConfigError} :
    (if name.isEmpty then some missing else if seen.contains name then some duplicate else other) = none ↔
      name ≠ "" ∧ name ∉ seen ∧ other = none := by
  by_cases hname : name = ""
  · simp [hname]
  · by_cases hseen : name ∈ seen <;> simp [hname, hseen]

theorem bufferFault?_eq_none (seen : List String) (b : BufferEntry) :
    bufferFault? seen b = none ↔ (b.name ≠ "" ∧ 0 < b.size ∧ b.watermark ≤ b.size) ∧ b.name ∉ seen := by
  have hsettings : ((b.settings 0).fault?.map (ConfigError.bufferSettings b.name)) = none ↔
      0 < b.size ∧ b.watermark ≤ b.size := by
    rw [Option.map_eq_none_iff, Settings.fault?, BufferEntry.settings]
    by_cases hsize : b.size = 0
    · simp [hsize]
    · by_cases hwatermark : b.watermark > b.size
      · simp [hsize, hwatermark]
      · simp only [hsize, hwatermark, if_false, true_iff]
        omega
  rw [bufferFault?, nameFault_eq_none, hsettings]
  tauto

theorem agentFault?_eq_none (seen : List String) (a : Agent) :
    agentFault? seen a = none ↔ (a.name ≠ "" ∧ a.architecture ≠ "") ∧ a.name ∉ seen := by
  rw [agentFault?, nameFault_eq_none]
  have harchitecture : (if a.architecture.isEmpty then some (ConfigError.architectureMissing a.name) else none) = none ↔
      a.architecture ≠ "" := by simp
  rw [harchitecture]
  tauto

theorem fault?_of_missing (h : c.metricDefinitions = "") : c.fault? = some .definitionsMissing := by
  simp [Config.fault?, h]

/-- Which path the definitions have does not matter. -/
theorem fault?_congr {named : String} (h : c.metricDefinitions ≠ "") (hnamed : named ≠ "") :
    Config.fault? { c with metricDefinitions := named } = c.fault? := by
  simp [Config.fault?, h, hnamed]

theorem fault?_eq_none : c.fault? = none ↔ c.metricDefinitions ≠ "" ∧ c.Consistent := by
  have hchecks : c.fault? = none ↔ c.metricDefinitions ≠ "" ∧ c.flush.workers ≠ 0 ∧ c.flush.poll.nanoseconds ≠ 0 ∧
      firstFault? BufferEntry.name bufferFault? [] c.buffers = none ∧
        firstFault? Agent.name agentFault? [] c.agents = none := by
    unfold Config.fault?
    by_cases hmissing : c.metricDefinitions = ""
    · simp [hmissing]
    · by_cases hworkers : c.flush.workers = 0
      · simp [hmissing, hworkers]
      · by_cases hpoll : c.flush.poll.nanoseconds = 0
        · simp [hmissing, hworkers, hpoll]
        · cases firstFault? BufferEntry.name bufferFault? [] c.buffers <;> simp [hmissing, hworkers, hpoll]
  rw [hchecks, firstFault?_eq_none bufferFault?_eq_none, firstFault?_eq_none agentFault?_eq_none]
  constructor
  · rintro ⟨hnamed, hworkers, hpoll, ⟨hbuffers, hbufferNames, -⟩, hagents, hagentNames, -⟩
    exact ⟨hnamed, Nat.pos_of_ne_zero hworkers, Nat.pos_of_ne_zero hpoll, hbuffers, hbufferNames, hagents, hagentNames⟩
  · rintro ⟨hnamed, h⟩
    exact ⟨hnamed, Nat.ne_of_gt h.workers, Nat.ne_of_gt h.poll,
      ⟨h.buffers, h.bufferNames, fun _ _ => List.not_mem_nil⟩, h.agents, h.agentNames, fun _ _ => List.not_mem_nil⟩

/-! ### Reading -/

theorem accept_eq (c : Config) : c.accept = match c.fault? with
    | some cause => .error (.faulty cause)
    | none => .ok c := by
  unfold accept validate
  cases c.fault? <;> rfl

theorem accept_ok : (∃ c', c.accept = .ok c') ↔ c.metricDefinitions ≠ "" ∧ c.Consistent := by
  rw [← fault?_eq_none, accept_eq]
  cases c.fault? <;> simp

/-- Seen from a named directory the definitions have a path, whether or not they had one. -/
theorem resolve_named (hparent : FilePath.parent? path = some directory) (hdirectory : directory ≠ "") (c : Config) :
    ∃ named, named ≠ "" ∧ c.resolve path = { c with metricDefinitions := named } := by
  cases hrelative : FilePath.isRelative c.metricDefinitions with
  | true =>
    refine ⟨FilePath.join directory c.metricDefinitions, fun h => hdirectory (FilePath.join_eq_empty.mp h).1, ?_⟩
    rw [resolve, if_pos hrelative, hparent]
  | false =>
    refine ⟨c.metricDefinitions, fun h => ?_, ?_⟩
    · rw [h] at hrelative
      cases hrelative
    · rw [resolve, hrelative, if_neg Bool.false_ne_true]

theorem accept_resolve (hparent : FilePath.parent? path = some directory) (hdirectory : directory ≠ "")
    (h : c.metricDefinitions ≠ "") : (c.resolve path).accept = c.accept.map fun c => c.resolve path := by
  obtain ⟨named, hnamed, heq⟩ := resolve_named hparent hdirectory c
  have hfault : (c.resolve path).fault? = c.fault? := by rw [heq, fault?_congr h hnamed]
  rw [accept_eq, accept_eq, hfault]
  cases c.fault? <;> rfl

theorem accept_resolve_ok (hparent : FilePath.parent? path = some directory) (hdirectory : directory ≠ "") :
    (∃ c', (c.resolve path).accept = .ok c') ↔ c.Consistent := by
  obtain ⟨named, hnamed, heq⟩ := resolve_named hparent hdirectory c
  rw [accept_ok, heq]
  exact ⟨fun ⟨_, h⟩ => ⟨h.workers, h.poll, h.buffers, h.bufferNames, h.agents, h.agentNames⟩,
    fun h => ⟨hnamed, h.workers, h.poll, h.buffers, h.bufferNames, h.agents, h.agentNames⟩⟩

/-- Where a text names its definitions, the file accepts it if the text alone does, with the path of the definitions seen
    from the directory of the file, and the first fault is the same. Where it does not, the text alone is refused for just
    that, and the file accepts whatever is consistent otherwise. -/
theorem load_agrees_unless_missing (hparent : FilePath.parent? path = some directory)
    (hdirectory : directory ≠ "") (text : String) :
    (((∃ c, load path text = .ok c) ↔ ∃ c, parse text = .ok c) ↔
      ¬ ∃ c, ofText? text = some c ∧ c.metricDefinitions = "" ∧ c.Consistent) ∧
    (ofText? text = none → load path text = .error .malformed ∧ parse text = .error .malformed) ∧
    ∀ c, ofText? text = some c →
      (c.metricDefinitions ≠ "" → load path text = (parse text).map fun c => c.resolve path) ∧
      (c.metricDefinitions = "" → parse text = .error (.faulty .definitionsMissing) ∧
        ((∃ c', load path text = .ok c') ↔ c.Consistent)) := by
  cases htext : ofText? text with
  | none =>
    have hload : load path text = .error .malformed := by rw [load, htext]
    have hparse : parse text = .error .malformed := by rw [parse, htext]
    simp [hload, hparse]
  | some c =>
    have hload : load path text = (c.resolve path).accept := by rw [load, htext]
    have hparse : parse text = c.accept := by rw [parse, htext]
    have hmissing : c.metricDefinitions = "" → c.accept = .error (.faulty .definitionsMissing) := by
      intro h
      rw [accept_eq, fault?_of_missing h]
    refine ⟨?_, fun hnone => (by cases hnone), fun c' hc' => ?_⟩
    · rw [hload, hparse, accept_resolve_ok hparent hdirectory, accept_ok]
      simp only [Option.some.injEq, exists_eq_left']
      tauto
    · cases hc'
      rw [hload, hparse]
      exact ⟨accept_resolve hparent hdirectory, fun h => ⟨hmissing h, accept_resolve_ok hparent hdirectory⟩⟩

set_option maxRecDepth 20000 in
theorem ofText?_braces : ofText? "\x7b\x7d" = some {} := by
  decide +kernel

/-- An empty document is a configuration for a file in a directory, and not by itself. -/
theorem load_accepts_missing : FilePath.parent? "etc/config.yaml" = some "etc" ∧ "etc" ≠ "" ∧
    (∃ c, load "etc/config.yaml" "\x7b\x7d" = .ok c) ∧ parse "\x7b\x7d" = .error (.faulty .definitionsMissing) := by
  have hparent : FilePath.parent? "etc/config.yaml" = some "etc" := by decide
  have hconsistent : Consistent {} := ⟨by decide, by decide, by decide, by decide, by decide, by decide⟩
  obtain ⟨hparse, hload⟩ :=
    ((load_agrees_unless_missing hparent (by decide) "\x7b\x7d").2.2 _ ofText?_braces).2 rfl
  exact ⟨hparent, by decide, hload.mpr hconsistent, hparse⟩

end Config

end PerfCounters
