import PerfCounters.Config

/-!
Reading a configuration from YAML. Everything has a default but the names of buffers and the names and
architectures of agents.
-/

namespace PerfCounters

open Yaml Node

/-- The policy with a name. -/
def Policy.ofName? : String → Option Policy
  | "discard" => some .discard
  | "lossless" => some .lossless
  | _ => none

/-- Reads how drains are run. -/
def FlushConfig.ofNode (n : Node) : Decoder FlushConfig := do
  let fields ← n.fields ["workers", "busy_poll_interval"]
  let standard : FlushConfig := {}
  return {
    workers := ← field fields "workers" (nat 64) (some standard.workers)
    poll := ← field fields "busy_poll_interval" (parsed Duration.ofText?) (some standard.poll) }

/-- Reads a buffer. -/
def BufferEntry.ofNode (n : Node) : Decoder BufferEntry := do
  let fields ← n.fields ["name", "size", "watermark", "policy"]
  return {
    name := ← field fields "name" text none
    size := ← field fields "size" (nat 64) (some 1048576)
    watermark := ← field fields "watermark" (nat 64) (some 0)
    policy := ← field fields "policy" (oneOf Policy.ofName?) (some .discard) }

/-- The fields of an agent besides its properties. -/
def Agent.identityFields : List String := ["name", "architecture", "agent_id"]

/-- Reads an agent. -/
def Agent.ofNode (n : Node) : Decoder Agent := do
  let fields ← n.fields (identityFields ++ properties.map Prod.fst)
  let word := fun name => field fields name (nat 64) (some 0)
  let count := fun name => field fields name (nat 32) (some 0)
  return {
    name := ← field fields "name" text none
    architecture := ← field fields "architecture" text none
    agentId := ← word "agent_id"
    nodeId := ← count "node_id"
    cpuCoresCount := ← count "cpu_cores_count"
    simdCount := ← count "simd_count"
    arrayCount := ← count "array_count"
    simdArraysPerEngine := ← count "simd_arrays_per_engine"
    cuCount := ← count "cu_count"
    cuPerSimdArray := ← count "cu_per_simd_array"
    simdPerCu := ← count "simd_per_cu"
    maxWavesPerSimd := ← count "max_waves_per_simd"
    waveFrontSize := ← count "wave_front_size"
    numShaderBanks := ← count "num_shader_banks"
    numXcc := ← count "num_xcc"
    maxEngineClkFcompute := ← count "max_engine_clk_fcompute"
    maxEngineClkCcompute := ← count "max_engine_clk_ccompute"
    ldsSizeInKb := ← count "lds_size_in_kb"
    gfxTargetVersion := ← count "gfx_target_version"
    localMemSize := ← word "local_mem_size"
    maxScratchSlotsPerCu := ← count "max_scratch_slots_per_cu" }

namespace Config

/-- Reads a configuration. -/
def ofNode (n : Node) : Decoder Config := do
  let fields ← n.fields ["log_level", "metric_definitions", "flush", "buffers", "agents"]
  return {
    logLevel := ← field fields "log_level" text (some "info")
    metricDefinitions := ← field fields "metric_definitions" text (some "")
    flush := ← field fields "flush" FlushConfig.ofNode (some {})
    buffers := ← field fields "buffers" (list BufferEntry.ofNode) (some [])
    agents := ← field fields "agents" (list Agent.ofNode) (some []) }

/-- Reads a configuration from YAML, without checking it. -/
def ofText? (text : String) : Option Config :=
  (Document.ofText? text).bind fun d => d.decode? ofNode

/-- Why a configuration could not be had from a text. -/
inductive Refusal where
  /-- The text is not YAML, or not of the form of a configuration. -/
  | malformed
  | faulty (cause : ConfigError)
deriving DecidableEq, Repr

/-- Checks a configuration that was read. -/
def accept (c : Config) : Except Refusal Config := (c.validate).mapError .faulty

/-- The configuration that a text says. -/
def parse (text : String) : Except Refusal Config :=
  match ofText? text with
  | none => .error .malformed
  | some c => c.accept

/-- The configuration that the file at `path` says, where `text` is what it holds. -/
def load (path text : String) : Except Refusal Config :=
  match ofText? text with
  | none => .error .malformed
  | some c => (c.resolve path).accept

end Config

end PerfCounters
