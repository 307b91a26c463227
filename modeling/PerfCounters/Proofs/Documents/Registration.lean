import Mathlib
import PerfCounters.Proofs.Documents.Loading

/-! What a document registers. Loading goes through the entries, their keys and the architectures that a key names, and
    registers a metric for each of these: these metrics are in the catalog, in this order, and no others. A key names the
    parts between its slashes that are not blank. So an entry leaves no trace if its keys consist of slashes and blanks. -/

namespace PerfCounters

open PerfCounters.Parser (bind_eq_ok)

namespace Text

variable {sep ch : Char} {cs : List Char} {s : String}

/-- The pieces hold all characters but the ones they were cut at. -/
theorem mem_flatten_splitChars : ch ∈ (splitChars sep cs).flatten ↔ ch ∈ cs ∧ ch ≠ sep := by
  induction cs with
  | nil => simp [splitChars]
  | cons c cs ih =>
    rw [splitChars]
    split
    · rename_i heq
      rw [List.flatten_cons, List.nil_append, ih, List.mem_cons, heq]
      tauto
    · rename_i hne
      have hcons : ch ∈ c :: (splitChars sep cs).flatten ↔ ch ∈ c :: cs ∧ ch ≠ sep := by
        rw [List.mem_cons, List.mem_cons, ih]
        constructor
        · rintro (rfl | h)
          · exact ⟨.inl rfl, hne⟩
          · exact ⟨.inr h.1, h.2⟩
        · rintro ⟨h | h, h'⟩
          · exact .inl h
          · exact .inr ⟨h, h'⟩
      split <;> rename_i hpieces <;> rw [hpieces] at hcons <;> simpa using hcons

theorem trimChars_eq_nil : trimChars cs = [] ↔ ∀ c ∈ cs, isBlank c = true := by
  rw [trimChars, List.reverse_eq_nil_iff, List.dropWhile_eq_nil_iff]
  simp only [List.mem_reverse]
  refine ⟨fun h c hc => ?_, fun h c hc => h c (List.dropWhile_subset _ hc)⟩
  rw [← List.takeWhile_append_dropWhile (p := isBlank) (l := cs)] at hc
  rcases List.mem_append.mp hc with hc | hc
  · exact List.mem_takeWhile_imp hc
  · exact h c hc

theorem trim_eq_empty : trim s = "" ↔ ∀ c ∈ s.toList, isBlank c = true := by
  rw [← trimChars_eq_nil, trim, String.ofList_eq_empty_iff]

end Text

namespace MetricEntry

/-- The catalog has this metric for the entry, with what a key says for the architecture. -/
structure Registered (c : Catalog) (m : MetricEntry) (e : ArchitectureEntry)
    (architecture : String) (x : Metric) : Prop where
  found : c.byName? architecture m.name = some x
  block : x.block = e.block
  event : x.event = e.event
  expression : x.expression = Text.trim e.expression
  constant : x.constant = Text.trim e.constant
  description : x.description = e.description.getD m.description

end MetricEntry

namespace DefinitionDocument

open Catalog MetricEntry

variable {c c' : Catalog} {d : DefinitionDocument} {m : MetricEntry} {e : ArchitectureEntry} {key architecture : String}

/-- A key names an architecture: it is one of the parts between the slashes, without blanks around it. -/
def Names (key architecture : String) : Prop :=
  architecture ≠ "" ∧ ∃ part ∈ Text.split '/' key, Text.trim part = architecture

theorem mem_architecturesOf : architecture ∈ architecturesOf key ↔ Names key architecture := by
  simp [architecturesOf, Names, and_comm]

/-- A key names something unless it consists of slashes and blanks. -/
theorem exists_names : (∃ architecture, Names key architecture) ↔
    ∃ ch ∈ key.toList, ch ≠ '/' ∧ Text.isBlank ch = false := by
  have hsplit : ∀ ch, (∃ part ∈ Text.split '/' key, ch ∈ part.toList) ↔ ch ∈ key.toList ∧ ch ≠ '/' := by
    intro ch
    rw [← Text.mem_flatten_splitChars, List.mem_flatten]
    simp [Text.split]
  constructor
  · rintro ⟨_, hne, part, hpart, rfl⟩
    rw [ne_eq, Text.trim_eq_empty] at hne
    push Not at hne
    obtain ⟨ch, hch, hblank⟩ := hne
    obtain ⟨hmem, hslash⟩ := (hsplit ch).mp ⟨part, hpart, hch⟩
    exact ⟨ch, hmem, hslash, by simpa using hblank⟩
  · rintro ⟨ch, hmem, hslash, hblank⟩
    obtain ⟨part, hpart, hch⟩ := (hsplit ch).mpr ⟨hmem, hslash⟩
    refine ⟨Text.trim part, fun hempty => ?_, part, hpart, rfl⟩
    rw [Text.trim_eq_empty.mp hempty ch hch] at hblank
    cases hblank

/-! ### Loading -/

theorem registerBlocks_keeps {blocks : List (String × List (Dimension × Nat))}
    (h : registerBlocks architecture blocks c = .ok c') : (c.Built → c'.Built) ∧ c'.metrics = c.metrics := by
  induction blocks generalizing c with
  | nil =>
    cases h
    exact ⟨id, rfl⟩
  | cons q blocks ih =>
    obtain ⟨l, -, h⟩ := bind_eq_ok h
    obtain ⟨hbuilt, hmetrics⟩ := ih h
    exact ⟨fun hc => hbuilt (hc.block _), hmetrics⟩

theorem registerAllBlocks_keeps {blocks : List (String × List (String × List (Dimension × Nat)))}
    (h : registerAllBlocks blocks c = .ok c') : (c.Built → c'.Built) ∧ c'.metrics = c.metrics := by
  induction blocks generalizing c with
  | nil =>
    cases h
    exact ⟨id, rfl⟩
  | cons p blocks ih =>
    obtain ⟨c₁, hc₁, h⟩ := bind_eq_ok h
    obtain ⟨hbuilt, hmetrics⟩ := ih h
    obtain ⟨hbuilt₁, hmetrics₁⟩ := registerBlocks_keeps hc₁
    exact ⟨hbuilt ∘ hbuilt₁, hmetrics.trans hmetrics₁⟩

theorem definitions_of_catalog (h : d.catalog = .ok c) : c.Built ∧ c.definitions = d.metrics.flatMap definitionsOf := by
  obtain ⟨c₁, hblocks, h⟩ := bind_eq_ok h
  obtain ⟨c₂, hmetrics, h⟩ := bind_eq_ok h
  obtain ⟨_, -, h⟩ := bind_eq_ok h
  cases h
  obtain ⟨hbuilt, hnone⟩ := registerAllBlocks_keeps hblocks
  have hregisters := registers_registerMetrics hmetrics
  refine ⟨hregisters.built (hbuilt .empty), ?_⟩
  rw [hregisters.definitions, Catalog.definitions, hnone]
  rfl

theorem mem_definitionsOf {x : Definition} : x ∈ definitionsOf m ↔
    ∃ p ∈ m.architectures, Names p.1 x.architecture ∧ x = definition m p.2 x.architecture := by
  simp only [definitionsOf, List.mem_flatMap, List.mem_map, mem_architecturesOf]
  constructor
  · rintro ⟨p, hp, architecture, hnames, rfl⟩
    exact ⟨p, hp, hnames, rfl⟩
  · rintro ⟨p, hp, hnames, hx⟩
    exact ⟨p, hp, x.architecture, hnames, hx.symm⟩

/-- A document that is accepted is registered entry by entry and key by key: on every architecture that a key names there
    is a metric with what the entry says, and there are no other metrics. An entry that is not registered anywhere is one
    all of whose keys consist of slashes and blanks. -/
theorem registers_what_keys_name (h : d.catalog = .ok c) :
    (∀ m ∈ d.metrics, ∀ p ∈ m.architectures, ∀ architecture, Names p.1 architecture →
      ∃ x, m.Registered c p.2 architecture x) ∧
    (∀ x, c.Holds x → ∃ m ∈ d.metrics, ∃ p ∈ m.architectures, Names p.1 x.architecture ∧
      m.Registered c p.2 x.architecture x) ∧
    c.metrics.toList.map Metric.toDefinition = d.metrics.flatMap definitionsOf ∧
    ∀ m ∈ d.metrics, (∃ p ∈ m.architectures, ∃ architecture x, Names p.1 architecture ∧ m.Registered c p.2 architecture x) ↔
      ∃ p ∈ m.architectures, ∃ ch ∈ p.1.toList, ch ≠ '/' ∧ Text.isBlank ch = false := by
  obtain ⟨hbuilt, hdefinitions⟩ := definitions_of_catalog h
  have hnumbered := hbuilt.numbered
  have hregistered : ∀ m ∈ d.metrics, ∀ p ∈ m.architectures, ∀ architecture, Names p.1 architecture →
      ∃ x, m.Registered c p.2 architecture x := by
    intro m hm p hp architecture hnames
    have hmem : definition m p.2 architecture ∈ c.definitions := by
      rw [hdefinitions]
      exact List.mem_flatMap.mpr ⟨m, hm, mem_definitionsOf.mpr ⟨p, hp, hnames, rfl⟩⟩
    obtain ⟨x, hfound, hx⟩ := hnumbered.exists_byName? hmem
    exact ⟨x, hfound, congrArg Definition.block hx, congrArg Definition.event hx, congrArg Definition.expression hx,
      congrArg Definition.constant hx, congrArg Definition.description hx⟩
  refine ⟨hregistered, fun x hx => ?_, hdefinitions, fun m hm => ?_⟩
  · have hmem : x.toDefinition ∈ c.definitions := List.mem_map_of_mem (Catalog.mem_of_byId? hx)
    rw [hdefinitions] at hmem
    obtain ⟨m, hm, hmem⟩ := List.mem_flatMap.mp hmem
    obtain ⟨p, hp, hnames, hdefinition⟩ := mem_definitionsOf.mp hmem
    have hname : x.name = m.name := congrArg Definition.name hdefinition
    exact ⟨m, hm, p, hp, hnames, hname ▸ hnumbered.byName?_iff.mpr ⟨hx, rfl, rfl⟩, congrArg Definition.block hdefinition,
      congrArg Definition.event hdefinition, congrArg Definition.expression hdefinition,
      congrArg Definition.constant hdefinition, congrArg Definition.description hdefinition⟩
  · constructor
    · rintro ⟨p, hp, architecture, -, hnames, -⟩
      exact ⟨p, hp, exists_names.mp ⟨architecture, hnames⟩⟩
    · rintro ⟨p, hp, hch⟩
      obtain ⟨architecture, hnames⟩ := exists_names.mpr hch
      obtain ⟨x, hx⟩ := hregistered m hm p hp architecture hnames
      exact ⟨p, hp, architecture, x, hnames, hx⟩

namespace SlashKey

/-- An entry whose key names nothing, and one whose key names two architectures. -/
def text : String := "metrics: [\x7bname: X, architectures: \x7b'/': \x7bblock: S\x7d\x7d\x7d, " ++
  "\x7bname: Y, architectures: \x7b'g/ h /': \x7bblock: S\x7d\x7d\x7d]"

def document : DefinitionDocument where
  metrics := [⟨"X", "", [("/", { block := "S" })]⟩, ⟨"Y", "", [("g/ h /", { block := "S" })]⟩]

set_option maxRecDepth 20000 in
theorem ofText?_text : ofText? text = some document := by
  unfold ofText? Yaml.Document.ofText? Yaml.Token.ofText? Yaml.Glyph.ofText? text
  simp only [String.toList_append, String.reduceToList]
  decide +kernel

/-- The document is accepted, and one of its entries is nowhere in the catalog. -/
theorem entry_not_registered : ∃ c x y, document.metrics = [x, y] ∧ Catalog.ofText text = .ok c ∧ document.catalog = .ok c ∧
    (¬ ∃ p ∈ x.architectures, ∃ architecture z, Names p.1 architecture ∧ x.Registered c p.2 architecture z) ∧
    ∃ p ∈ y.architectures, ∃ z, y.Registered c p.2 "h" z := by
  have heval : (do let c ← document.catalog; return c.size) = .ok 2 := by
    rw [catalog_eq]
    cbv
  obtain ⟨c, hc, -⟩ := bind_eq_ok heval
  obtain ⟨hnamed, -, -, hiff⟩ := registers_what_keys_name hc
  have htext : Catalog.ofText text = .ok c := (Catalog.ofText_of_document ofText?_text).trans hc
  refine ⟨c, _, _, rfl, htext, hc, fun hregistered => ?_, _, List.mem_cons_self, ?_⟩
  · obtain ⟨p, hp, ch, hch, hslash, -⟩ := (hiff _ List.mem_cons_self).mp hregistered
    cases List.mem_singleton.mp hp
    have hkey : "/".toList = ['/'] := rfl
    rw [hkey] at hch
    exact hslash (List.mem_singleton.mp hch)
  · exact hnamed _ (List.mem_cons_of_mem _ List.mem_cons_self) _ List.mem_cons_self "h"
      ⟨by decide, " h ", by decide, by decide⟩

end SlashKey

end DefinitionDocument

end PerfCounters
