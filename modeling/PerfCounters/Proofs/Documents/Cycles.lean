import PerfCounters.Proofs.Documents.Loading
import PerfCounters.Proofs.Trees.Requirements

/-! Definitions that lead back to themselves. Expansion follows what a definition refers to, and the metrics that
    are required follow what it accumulates as well. So no definition of a catalog that was loaded refers to
    itself in the end, but it may read itself; whether it does is all that decides if its required metrics
    can be told. -/

namespace PerfCounters

open Relation
open PerfCounters.Parser (bind_eq_ok)

namespace Evaluator

open PerfCounters.Tree

variable {c : Catalog} {architecture : String} {e : Evaluator} {m : Metric} {t : Tree}

theorem exists_definition (hc : c.Numbered) (he : ofCatalog c architecture = .ok e) (hm : c.Holds m)
    (harch : m.architecture = architecture) : ∃ t, ofMetric c m = .ok t := by
  obtain ⟨_, -, htree⟩ := tree_of_holds hc he hm harch
  obtain ⟨_, _, _, ⟨t, ht, -⟩, -⟩ := htree.inlined
  exact ⟨t, ht⟩

theorem required_of_tree (hc : c.Numbered) (he : ofCatalog c architecture = .ok e) (ht : e.tree m.name = .ok t) :
    e.required m.name = match (t.required c).2 with
      | some failure => .error failure
      | none => .ok (t.required c).1 := by
  unfold Evaluator.required
  rw [ht, (ofCatalog_ok hc he).1]
  simp only [bind, Except.bind]
  rcases t.required c with ⟨found, _ | failure⟩ <;> rfl

theorem not_refers_itself (hc : c.Numbered) (he : ofCatalog c architecture = .ok e) (hm : c.Holds m)
    (harch : m.architecture = architecture) : ¬ TransGen c.Refers m m := by
  refine not_transGen_of_acc ⟨_, fun x ⟨_, t, ht, hx⟩ => ?_⟩
  obtain ⟨_, -, htree⟩ := tree_of_holds hc he hm harch
  obtain ⟨t', -, -, ⟨definition, hdefinition, hinlines⟩, -⟩ := htree.inlined
  cases hdefinition.symm.trans ht
  exact hinlines.acc_refers x hx

theorem required_iff_acyclic (hc : c.Numbered) (he : ofCatalog c architecture = .ok e) (hm : c.Holds m)
    (harch : m.architecture = architecture) :
    ((∃ ms, e.required m.name = .ok ms) ↔ ∀ x, ReflTransGen c.Reads m x → ¬ TransGen c.Reads x x) ∧
    ∀ failure, e.required m.name = .error failure →
      ∃ names name, failure = .cyclicDefinition (names ++ [name]) ∧ name ∈ names := by
  obtain ⟨t, ht, htree⟩ := tree_of_holds hc he hm harch
  have hstands := htree.stands hc
  have hdefined : ∀ x, ReflTransGen c.Reads m x → ∃ t, ofMetric c x = .ok t := by
    intro x hx
    obtain ⟨harch', rfl | hholds⟩ := known_of_reads hc hx
    · exact exists_definition hc he hm harch
    · exact exists_definition hc he hholds (harch'.trans harch)
  rw [required_of_tree hc he ht]
  by_cases hacyclic : ∀ x, ReflTransGen c.Reads m x → ¬ TransGen c.Reads x x
  · obtain ⟨ms, hresult, -⟩ := hstands.required_of_acyclic hc hdefined hacyclic
    rw [hresult]
    exact ⟨⟨fun _ => hacyclic, fun _ => ⟨ms, rfl⟩⟩, fun failure hfailure => (by cases hfailure)⟩
  · have ⟨x, hx⟩ := not_forall.mp hacyclic
    obtain ⟨hmx, hcycle⟩ := Classical.not_imp.mp hx
    obtain ⟨found, names, name, hresult, hname⟩ := hstands.required_of_cycle hc hdefined hmx (not_not.mp hcycle)
    rw [hresult]
    refine ⟨⟨fun ⟨ms, hms⟩ => (by cases hms), fun h => absurd h hacyclic⟩, fun failure hfailure => ?_⟩
    cases hfailure
    exact ⟨names, name, rfl, hname⟩

/-- In a document that was loaded, no definition refers to itself in the end. A metric's required metrics can be told
    if and only if nothing that it reads, through `accumulate` as well, reads itself. -/
theorem required_of_loaded {text : String} (hc : Catalog.ofText text = .ok c) (harch : architecture ∈ c.architectures) :
    ∃ e, ofCatalog c architecture = .ok e ∧ ∀ m, c.Holds m → m.architecture = architecture →
      ¬ TransGen c.Refers m m ∧
      ((∃ ms, e.required m.name = .ok ms) ↔ ∀ x, ReflTransGen c.Reads m x → ¬ TransGen c.Reads x x) ∧
      ∀ failure, e.required m.name = .error failure →
        ∃ names name, failure = .cyclicDefinition (names ++ [name]) ∧ name ∈ names := by
  obtain ⟨hsound, hevaluators⟩ := Catalog.ofText_ok hc
  obtain ⟨e, he⟩ := hevaluators architecture harch
  have hnumbered := hsound.built.numbered
  exact ⟨e, he, fun m hm hm' =>
    ⟨not_refers_itself hnumbered he hm hm', required_iff_acyclic hnumbered he hm hm'⟩⟩

namespace SelfAccumulating

/-- A metric that accumulates itself. -/
def text : String := "metrics: [\x7bname: X, architectures: \x7bg: \x7bexpression: 'accumulate(X, HIGH_RES)'\x7d\x7d\x7d]"

def x : Metric := { name := "X", architecture := "g", expression := "accumulate(X, HIGH_RES)", id := 1 }

def document : DefinitionDocument where
  blocks := []
  metrics := [⟨"X", "", [("g", { expression := "accumulate(X, HIGH_RES)" })]⟩]

set_option maxRecDepth 20000 in
theorem ofText?_text : DefinitionDocument.ofText? text = some document := by
  decide +kernel

theorem exists_catalog : ∃ c, Catalog.ofText text = .ok c ∧ "g" ∈ c.architectures ∧ c.Holds x ∧
    ofMetric c x = .ok (.accumulate {} x .highRes) := by
  have heval : (do
      let c ← document.catalog
      return (c.occurring, c.byId? 1, ofMetric c x)) = .ok (["g"], some x, .ok (.accumulate {} x .highRes)) := by
    rw [DefinitionDocument.catalog_eq]
    cbv
  obtain ⟨c, hc, h⟩ := bind_eq_ok heval
  obtain ⟨harchs, h⟩ := Prod.mk.inj (Except.ok.inj h)
  obtain ⟨hholds, hdefinition⟩ := Prod.mk.inj h
  have harch : "g" ∈ c.architectures := by
    rw [DefinitionDocument.architectures_of_catalog hc, harchs]
    exact List.mem_cons_self
  exact ⟨c, (Catalog.ofText_of_document ofText?_text).trans hc, harch, hholds, hdefinition⟩

/-- The document is loaded, and what the metric requires cannot be told. -/
theorem required_fails : ∃ c e names, Catalog.ofText text = .ok c ∧ "g" ∈ c.architectures ∧ ofCatalog c "g" = .ok e ∧
    c.Holds x ∧ TransGen c.Reads x x ∧ ¬ TransGen c.Refers x x ∧
    ∃ name ∈ names, e.required "X" = .error (.cyclicDefinition (names ++ [name])) := by
  obtain ⟨c, htext, harch, hx, hdefinition⟩ := exists_catalog
  have hcycle : TransGen c.Reads x x := .single ⟨by decide, _, hdefinition, List.mem_cons_self⟩
  obtain ⟨e, he, h⟩ := required_of_loaded htext harch
  obtain ⟨hrefers, hiff, hfailures⟩ := h x hx rfl
  cases hrequired : e.required "X" with
  | ok ms => exact absurd hcycle (hiff.mp ⟨ms, hrequired⟩ x .refl)
  | error failure =>
    obtain ⟨names, name, rfl, hname⟩ := hfailures failure hrequired
    exact ⟨c, e, names, htext, harch, he, hx, hcycle, hrefers, name, hname, hrequired⟩

end SelfAccumulating
end Evaluator

end PerfCounters
