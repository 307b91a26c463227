import PerfCounters.Metric

/-!
Agents: the devices whose counters are read. A constant metric takes its value from a property of
the agent, looked up by name in one table.
-/

namespace PerfCounters

/-- A device: its name, its architecture, the id its samples carry, and its properties. -/
structure Agent where
  name : String
  architecture : String
  agentId : Nat := 0
  nodeId : Nat := 0
  cpuCoresCount : Nat := 0
  simdCount : Nat := 0
  arrayCount : Nat := 0
  simdArraysPerEngine : Nat := 0
  cuCount : Nat := 0
  cuPerSimdArray : Nat := 0
  simdPerCu : Nat := 0
  maxWavesPerSimd : Nat := 0
  waveFrontSize : Nat := 0
  numShaderBanks : Nat := 0
  numXcc : Nat := 0
  maxEngineClkFcompute : Nat := 0
  maxEngineClkCcompute : Nat := 0
  ldsSizeInKb : Nat := 0
  gfxTargetVersion : Nat := 0
  localMemSize : Nat := 0
  maxScratchSlotsPerCu : Nat := 0
deriving DecidableEq, Repr

namespace Agent

/-- The properties a constant metric can name. -/
def properties : List (String × (Agent → Nat)) :=
  [("node_id", nodeId), ("cpu_cores_count", cpuCoresCount), ("simd_count", simdCount),
    ("array_count", arrayCount), ("simd_arrays_per_engine", simdArraysPerEngine),
    ("cu_count", cuCount), ("cu_per_simd_array", cuPerSimdArray), ("simd_per_cu", simdPerCu),
    ("max_waves_per_simd", maxWavesPerSimd), ("wave_front_size", waveFrontSize),
    ("num_shader_banks", numShaderBanks), ("num_xcc", numXcc),
    ("max_engine_clk_fcompute", maxEngineClkFcompute),
    ("max_engine_clk_ccompute", maxEngineClkCcompute), ("lds_size_in_kb", ldsSizeInKb),
    ("gfx_target_version", gfxTargetVersion), ("local_mem_size", localMemSize),
    ("max_scratch_slots_per_cu", maxScratchSlotsPerCu)]

/-- There is a property called `name`. -/
def hasProperty (name : String) : Bool := properties.any fun p => p.1 == name

/-- The property called `name`, as a sample value. -/
def property (agent : Agent) (name : String) : Except CatalogError Float :=
  match properties.find? fun p => p.1 == name with
  | some p => .ok (p.2 agent).toUInt64.toFloat
  | none => .error (.propertyNotFound name)

end Agent

end PerfCounters
