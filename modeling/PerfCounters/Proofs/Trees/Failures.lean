import PerfCounters.Proofs.Trees.Expanders

/-! What an expander remembers of failures. A cycle makes it forget its path; after any other failure the path stays as it
    was, down to the metric whose definition is at fault. From then on everything that leads to a metric on this path is
    reported as a cycle. None of these metrics could be expanded anyway, so it is only the reason that is wrong: a call
    succeeds where it would on an expander that was never asked, with the same tree.

    Both expanders are compared along one run: the path of the used one is what was left on it, followed by the path of
    the fresh one. -/

namespace PerfCounters

open Relation
open PerfCounters.Tree

namespace Tree

variable {c : Catalog} {architecture : String} {m : Metric} {e : Expr} {failure : EvalError}

/-- All that can be wrong with the names of an expression is that one of them is not known. -/
theorem ofExpr_error (h : ofExpr c architecture e = .error failure) :
    ∃ name, failure = .unknownMetric architecture name := by
  have hlookUp : ∀ name, lookUp c architecture name = .error failure →
      ∃ name, failure = .unknownMetric architecture name := by
    intro name h
    unfold lookUp at h
    split at h
    · cases h
    · exact ⟨name, (Except.error.inj h).symm⟩
  induction e with
  | number v => cases h
  | metric name | accumulate name mode =>
    rw [ofExpr] at h
    cases hname : lookUp c architecture name with
    | ok m => rw [hname] at h; cases h
    | error e => rw [hname] at h; cases h; exact hlookUp name hname
  | binary op lhs rhs ihl ihr =>
    rw [ofExpr] at h
    cases hl : ofExpr c architecture lhs with
    | error e => rw [hl] at h; cases h; exact ihl hl
    | ok l =>
      cases hr : ofExpr c architecture rhs with
      | error e => rw [hl, hr] at h; cases h; exact ihr hr
      | ok r => rw [hl, hr] at h; cases h
  | reduce child op ds ih | select child filters ih =>
    rw [ofExpr] at h
    cases hchild : ofExpr c architecture child with
    | error e => rw [hchild] at h; cases h; exact ih hchild
    | ok t => rw [hchild] at h; cases h

/-- A definition at fault is not reported as a cycle. -/
theorem ofMetric_error (h : ofMetric c m = .error failure) (chain : List String) : failure ≠ .cyclicDefinition chain := by
  unfold ofMetric at h
  split at h
  · split at h
    · obtain ⟨name, rfl⟩ := ofExpr_error h
      exact EvalError.noConfusion
    · cases h
      exact EvalError.noConfusion
  · cases h

end Tree

namespace Expander

variable {c : Catalog} {m x : Metric} {t : Tree} {path : List Nat} {finished : List (Nat × Tree)} {e : EvalError}

/-! ### One step of the expansion -/

theorem expandMetric_finished (h : finished.lookup m.id = some t) :
    expandMetric c path finished m = ⟨t, finished, none⟩ := by
  rw [expandMetric, h]

theorem expandMetric_again (h : finished.lookup m.id = none) (hpath : path.contains m.id = true) :
    expandMetric c path finished m =
      ⟨.reference {} m, finished, some (.cyclicDefinition (names c path ++ [m.name]), [])⟩ := by
  rw [expandMetric, h, dif_pos hpath]

theorem expandMetric_fault (h : finished.lookup m.id = none) (hpath : ¬path.contains m.id = true) (hm : holds c m)
    (he : ofMetric c m = .error e) :
    expandMetric c path finished m = ⟨.reference {} m, finished, some (e, path ++ [m.id])⟩ := by
  rw [expandMetric, h, dif_neg hpath, dif_pos hm, he]

/-- A metric that is entered fails as its definition does, or has the tree of its definition. -/
theorem expandMetric_enter (h : finished.lookup m.id = none) (hpath : ¬path.contains m.id = true) (hm : holds c m)
    (ht : ofMetric c m = .ok t) :
    (expandMetric c path finished m).failure = (expandTree c (path ++ [m.id]) finished t).failure ∧
    (expandMetric c path finished m).tree =
      if (expandTree c (path ++ [m.id]) finished t).failure.isSome then .reference {} m
      else (expandTree c (path ++ [m.id]) finished t).tree := by
  rw [expandMetric, h, dif_neg hpath, dif_pos hm, ht]
  simp only
  cases (expandTree c (path ++ [m.id]) finished t).failure <;> exact ⟨rfl, rfl⟩

theorem expandTree_reference (c : Catalog) (path : List Nat) (finished : List (Nat × Tree)) (n : Note)
    (hderived : m.isDerived = true) :
    (expandTree c path finished (.reference n m)).failure = (expandMetric c path finished m).failure ∧
    (expandTree c path finished (.reference n m)).tree =
      if (expandMetric c path finished m).failure.isSome then .reference n m
      else (expandMetric c path finished m).tree.inPlaceOf n := by
  rw [expandTree, if_pos hderived]
  simp only
  cases (expandMetric c path finished m).failure <;> exact ⟨rfl, rfl⟩

/-! ### Metrics that cannot be expanded -/

theorem reflTransGen_end {r : Metric → Metric → Prop} {walk : List Metric} (h : (walk ++ [x]).IsChain r)
    (hm : m ∈ walk ++ [x]) : ReflTransGen r m x := by
  rcases List.mem_append.mp hm with hm | hm
  · have htrans := List.isChain_iff_pairwise.mp (h.imp fun _ _ => TransGen.single)
    exact ((List.pairwise_append.mp htrans).2.2 m hm x List.mem_cons_self).to_reflTransGen
  · rw [List.mem_singleton.mp hm]

/-- No tree is the inlined definition of the metric. -/
def Barren (c : Catalog) (m : Metric) : Prop := ∀ t, ¬ Inlined c m t

/-- What leads to a definition at fault cannot be expanded. -/
theorem barren_of_refers (hx : ReflTransGen c.Refers m x) (he : ofMetric c x = .error e) : Barren c m := by
  intro t ht
  obtain ⟨definition, hdefinition⟩ := resolves_iff.mp (ht.sound.1 x (hx.lift id fun _ _ => pointsTo_of_refers))
  rw [he] at hdefinition
  cases hdefinition

theorem barren_of_fault {walk : List Metric} (hwalk : (walk ++ [x]).IsChain c.Refers) (he : ofMetric c x = .error e)
    (hm : m ∈ walk ++ [x]) : Barren c m :=
  barren_of_refers (reflTransGen_end hwalk hm) he

/-- Nor can what is on a walk that meets one of its metrics again. -/
theorem barren_of_cycle {walk : List Metric} (hwalk : (walk ++ [x]).IsChain c.Refers) (hx : x ∈ walk)
    (hm : m ∈ walk ++ [x]) : Barren c m := by
  have hwalk := hwalk.imp fun _ _ => pointsTo_of_refers
  exact fun t ht => ht.sound.2 x (reflTransGen_end hwalk hm) (transGen_of_walk hwalk hx)

/-- Whatever stops a metric, it has no tree. -/
theorem Stopped.barren {ms : List Metric} (h : Stopped c ms [m] e) : Barren c m := by
  cases h with
  | @fault y x _ hy hx he =>
    cases List.mem_singleton.mp hy
    exact barren_of_refers hx he
  | @cycle y walk last hy hstart hwalk hlast =>
    cases List.mem_singleton.mp hy
    exact barren_of_cycle hwalk hlast (hstart.subset (List.mem_append_right _ List.mem_cons_self))

section Walk

variable {ms : List Metric} (hc : c.Numbered) (hpath : OnWalk c ms path) (hfinished : Finished c finished) (hm : c.Holds m)
  (hwalk : (ms ++ [m]).IsChain c.Refers)

include hc hpath hfinished hm hwalk

/-- What can be inlined is expanded, whichever metrics are finished. -/
theorem expandMetric_of_inlined (ht : Inlined c m t) :
    (expandMetric c path finished m).failure = none ∧ (expandMetric c path finished m).tree = t := by
  cases hf : (expandMetric c path finished m).failure with
  | some f => exact absurd ht (((stopped_expand hc).2 path finished m ms hpath hm hwalk f hf).barren t)
  | none =>
    obtain ⟨s, hs, hinlines⟩ := ((keeps_expand hc).2 path finished m hfinished hm).2 hf
    obtain ⟨s', hs', hinlines'⟩ := ht
    cases hs.symm.trans hs'
    exact ⟨rfl, hinlines.unique hinlines'⟩

omit hpath hwalk in
theorem expandMetric_of_barren (hbarren : Barren c m) : ∃ f, (expandMetric c path finished m).failure = some f := by
  cases hf : (expandMetric c path finished m).failure with
  | some f => exact ⟨f, rfl⟩
  | none =>
    obtain ⟨definition, hdefinition⟩ := ((keeps_expand hc).2 path finished m hfinished hm).2 hf
    exact absurd ⟨definition, hdefinition⟩ (hbarren _)

omit hc hpath hwalk in
theorem lookup_of_barren (hbarren : Barren c m) : finished.lookup m.id = none := by
  cases hlookup : finished.lookup m.id with
  | none => rfl
  | some t => exact absurd (hfinished.of_lookup hm hlookup) (hbarren t)

end Walk

/-! ### A used expander beside a fresh one -/

/-- How an expansion ends with `left` in front of its path, and without. Both have the same tree, stop at the same fault or
    meet the same cycle; or the first one meets something in `left`, and the second one does not succeed either. -/
inductive Trails (c : Catalog) (left : List Nat) (used fresh : Expansion) : Prop where
  | done (hused : used.failure = none) (hfresh : fresh.failure = none) (htree : used.tree = fresh.tree)
  | fault {walk : List Metric} {last : Metric} {e : EvalError} (hwalk : (walk ++ [last]).IsChain c.Refers)
      (hlast : c.Holds last) (hholds : ∀ m ∈ walk, c.Holds m) (he : ofMetric c last = .error e)
      (hused : used.failure = some (e, left ++ (walk ++ [last]).map Metric.id))
      (hfresh : fresh.failure = some (e, (walk ++ [last]).map Metric.id)) (htree : used.tree = fresh.tree)
  | cycle {chain : List String} (hused : used.failure = some (.cyclicDefinition (names c left ++ chain), []))
      (hfresh : fresh.failure = some (.cyclicDefinition chain, [])) (htree : used.tree = fresh.tree)
  | again {chain : List String} {f : EvalError × List Nat} (hleft : left ≠ [])
      (hused : used.failure = some (.cyclicDefinition (names c left ++ chain), [])) (hfresh : fresh.failure = some f)

variable {left : List Nat} {used fresh used' fresh' : Expansion}

/-- Whatever ends as they do ends alike. -/
theorem Trails.congr (h : Trails c left used fresh) (hused : used'.failure = used.failure)
    (hfresh : fresh'.failure = fresh.failure)
    (htree : used.failure.isSome = fresh.failure.isSome → used.tree = fresh.tree → used'.tree = fresh'.tree) :
    Trails c left used' fresh' := by
  cases h with
  | done h h' ht => exact .done (hused.trans h) (hfresh.trans h') (htree (by rw [h, h']) ht)
  | fault hwalk hlast hholds he h h' ht =>
    exact .fault hwalk hlast hholds he (hused.trans h) (hfresh.trans h') (htree (by rw [h, h']; rfl) ht)
  | cycle h h' ht => exact .cycle (hused.trans h) (hfresh.trans h') (htree (by rw [h, h']; rfl) ht)
  | again hleft h h' => exact .again hleft (hused.trans h) (hfresh.trans h')

theorem Trails.of_none (h : Trails c left used fresh) (hused : used.failure = none) :
    fresh.failure = none ∧ used.tree = fresh.tree := by
  cases h with
  | done _ hfresh htree => exact ⟨hfresh, htree⟩
  | fault _ _ _ _ h => rw [hused] at h; cases h
  | cycle h => rw [hused] at h; cases h
  | again _ h => rw [hused] at h; cases h

theorem Trails.of_some (h : Trails c left used fresh) {f : EvalError × List Nat} (hused : used.failure = some f) :
    ∃ f', fresh.failure = some f' := by
  cases h with
  | done h => rw [hused] at h; cases h
  | fault _ _ _ _ _ hfresh => exact ⟨_, hfresh⟩
  | cycle _ hfresh => exact ⟨_, hfresh⟩
  | again _ _ hfresh => exact ⟨_, hfresh⟩

/-- The path of the used expander is what was left on it, followed by the walk that both are on. What is left cannot be
    expanded. -/
structure Resumes (c : Catalog) (left : List Nat) (ms : List Metric) (path : List Nat)
    (finished finished' : List (Nat × Tree)) : Prop where
  path_eq : path = left ++ ms.map Metric.id
  holds : ∀ m ∈ ms, c.Holds m
  barren : ∀ m, c.Holds m → m.id ∈ left → Barren c m
  used : Finished c finished
  fresh : Finished c finished'

section Resumes

variable {ms : List Metric} {finished' : List (Nat × Tree)} (h : Resumes c left ms path finished finished')

include h

theorem Resumes.onWalk : OnWalk c ms (ms.map Metric.id) := ⟨rfl, h.holds⟩

theorem Resumes.enter (hm : c.Holds m) : Resumes c left (ms ++ [m]) (path ++ [m.id]) finished finished' where
  path_eq := by simp [h.path_eq]
  holds := (h.onWalk.enter hm).holds
  barren := h.barren
  used := h.used
  fresh := h.fresh

theorem Resumes.names_eq : names c path = names c left ++ names c (ms.map Metric.id) := by
  rw [h.path_eq, names, List.filterMap_append, List.map_append]
  rfl

theorem Resumes.not_contains (hpath : ¬path.contains m.id = true) : ¬(ms.map Metric.id).contains m.id = true := by
  rw [h.path_eq] at hpath
  simp only [List.contains_eq_mem, decide_eq_true_eq, List.mem_append, not_or] at hpath ⊢
  exact hpath.2

end Resumes

/-- A tree that is expanded after something was left on the path. -/
def TrailsTree (c : Catalog) (path : List Nat) (finished : List (Nat × Tree)) (t : Tree) : Prop :=
  ∀ left ms finished', Resumes c left ms path finished finished' → (∀ m ∈ t.leaves, c.Holds m) →
    (∀ y ∈ t.references, (ms ++ [y]).IsChain c.Refers) →
    Trails c left (expandTree c path finished t) (expandTree c (ms.map Metric.id) finished' t)

/-- A metric that is expanded after something was left on the path. -/
def TrailsMetric (c : Catalog) (path : List Nat) (finished : List (Nat × Tree)) (m : Metric) : Prop :=
  ∀ left ms finished', Resumes c left ms path finished finished' → c.Holds m → (ms ++ [m]).IsChain c.Refers →
    Trails c left (expandMetric c path finished m) (expandMetric c (ms.map Metric.id) finished' m)

theorem trails_reference {n : Note} (hderived : m.isDerived = true) (h : TrailsMetric c path finished m) :
    TrailsTree c path finished (.reference n m) := by
  intro left ms finished' hresumes ht hwalk
  obtain ⟨hused, hutree⟩ := expandTree_reference c path finished n hderived
  obtain ⟨hfresh, hftree⟩ := expandTree_reference c (ms.map Metric.id) finished' n hderived
  refine (h left ms finished' hresumes (ht m List.mem_cons_self) (hwalk m List.mem_cons_self)).congr hused hfresh
    fun hsome htree => ?_
  rw [hutree, hftree, hsome, htree]

/-- A metric that is met again: on the walk by both, or in what is left. -/
theorem trails_again (hc : c.Numbered) (hlookup : finished.lookup m.id = none) (hpath : path.contains m.id = true) :
    TrailsMetric c path finished m := by
  intro left ms finished' hresumes hm hwalk
  have hused := expandMetric_again (c := c) hlookup hpath
  rw [hresumes.names_eq, List.append_assoc] at hused
  by_cases hmem : (ms.map Metric.id).contains m.id = true
  · have hbarren := barren_of_cycle hwalk (hresumes.onWalk.mem hm hmem) (List.mem_append_right _ List.mem_cons_self)
    have hfresh := expandMetric_again (c := c) (lookup_of_barren hresumes.fresh hm hbarren) hmem
    exact .cycle (by rw [hused]) (by rw [hfresh]) (by rw [hused, hfresh])
  · have hleft : m.id ∈ left := by
      rw [hresumes.path_eq] at hpath
      simp only [List.contains_eq_mem, decide_eq_true_eq, List.mem_append] at hpath hmem
      exact hpath.resolve_right hmem
    obtain ⟨f, hf⟩ := expandMetric_of_barren hc hresumes.fresh hm (hresumes.barren m hm hleft)
    exact .again (List.ne_nil_of_mem hleft) (by rw [hused]) hf

/-- A metric that is expanded is expanded by both. -/
theorem trails_done (hc : c.Numbered) (h : (expandMetric c path finished m).failure = none) :
    TrailsMetric c path finished m := by
  intro left ms finished' hresumes hm hwalk
  have hinlined := ((keeps_expand hc).2 path finished m hresumes.used hm).2 h
  obtain ⟨hfresh, htree⟩ := expandMetric_of_inlined hc hresumes.onWalk hresumes.fresh hm hwalk hinlined
  exact .done h hfresh htree.symm

theorem trails_expand (hc : c.Numbered) :
    (∀ path finished t, TrailsTree c path finished t) ∧ ∀ path finished m, TrailsMetric c path finished m := by
  apply expandTree.mutual_induct c (TrailsTree c) (TrailsMetric c)
  -- number and accumulate
  · intro path finished n v left ms finished' hresumes ht hwalk
    rw [expandTree, expandTree]
    exact .done rfl rfl rfl
  · intro path finished n m mode left ms finished' hresumes ht hwalk
    rw [expandTree, expandTree]
    exact .done rfl rfl rfl
  -- references
  · intro path finished n m hderived x f hf ih
    exact trails_reference hderived ih
  · intro path finished n m hderived x hx ih
    exact trails_reference hderived ih
  · intro path finished n m hmeasured left ms finished' hresumes ht hwalk
    rw [expandTree, expandTree, if_neg hmeasured, if_neg hmeasured]
    exact .done rfl rfl rfl
  -- binary: a failure on the left is met by both
  · intro path finished n op lhs rhs l f hf ih left ms finished' hresumes ht hwalk
    have h := ih left ms finished' hresumes (fun m hm => ht m (List.mem_append_left _ hm))
      fun y hy => hwalk y (List.mem_append_left _ hy)
    have hf : (expandTree c path finished lhs).failure = some f := hf
    obtain ⟨f', hf'⟩ := h.of_some hf
    rw [expandTree, expandTree, hf, hf']
    exact h.congr hf.symm hf'.symm fun _ htree => by rw [htree]
  · intro path finished n op lhs rhs l hl ihl ihr left ms finished' hresumes ht hwalk
    have hl : (expandTree c path finished lhs).failure = none := hl
    have hleaves : ∀ m ∈ lhs.leaves, c.Holds m := fun m hm => ht m (List.mem_append_left _ hm)
    obtain ⟨hl', htree⟩ := (ihl left ms finished' hresumes hleaves
      fun y hy => hwalk y (List.mem_append_left _ hy)).of_none hl
    have hnext : Resumes c left ms path (expandTree c path finished lhs).finished
        (expandTree c (ms.map Metric.id) finished' lhs).finished :=
      ⟨hresumes.path_eq, hresumes.holds, hresumes.barren,
        ((keeps_expand hc).1 path finished lhs hresumes.used hleaves).1,
        ((keeps_expand hc).1 _ finished' lhs hresumes.fresh hleaves).1⟩
    have h := ihr left ms _ hnext (fun m hm => ht m (List.mem_append_right _ hm))
      fun y hy => hwalk y (List.mem_append_right _ hy)
    rw [expandTree, expandTree, hl, hl']
    exact h.congr rfl rfl fun _ htree' => congrArg₂ (Tree.binary n op) htree htree'
  -- reduce and select
  · intro path finished n child op ds ih left ms finished' hresumes ht hwalk
    rw [expandTree, expandTree]
    exact (ih left ms finished' hresumes ht hwalk).congr rfl rfl fun _ htree => by rw [htree]
  · intro path finished n child filters ih left ms finished' hresumes ht hwalk
    rw [expandTree, expandTree]
    exact (ih left ms finished' hresumes ht hwalk).congr rfl rfl fun _ htree => by rw [htree]
  -- metrics: one that is finished, one met again, one at fault, and one entered
  · intro path finished m t hlookup
    exact trails_done hc (by rw [expandMetric_finished hlookup])
  · intro path finished m hlookup hpath
    exact trails_again hc hlookup hpath
  · intro path finished m hlookup hpath hholds e he left ms finished' hresumes hm hwalk
    have hlookup' : finished'.lookup m.id = none := lookup_of_barren hresumes.fresh hm
      (barren_of_fault hwalk he (List.mem_append_right _ List.mem_cons_self))
    rw [expandMetric_fault hlookup hpath hholds he, expandMetric_fault hlookup' (hresumes.not_contains hpath) hholds he]
    refine .fault hwalk hm hresumes.holds he ?_ ?_ rfl
    · simp [hresumes.path_eq]
    · simp
  · intro path finished m hlookup hpath hholds t ht x f hf ih left ms finished' hresumes hm hwalk
    have hf : (expandTree c (path ++ [m.id]) finished t).failure = some f := hf
    have hderived := derived_of_failure ht hf
    have hleaves : ∀ y ∈ t.leaves, c.Holds y := fun y hy => ((ofMetric_ok hc hm ht).known y hy).1
    have hwalk' := isChain_references hwalk hderived ht
    have h := ih left (ms ++ [m]) finished' (hresumes.enter hm) hleaves hwalk'
    rw [List.map_append, List.map_singleton] at h
    obtain ⟨f', hf'⟩ := h.of_some hf
    -- the definition stops the fresh expander as well, so neither has finished the metric
    have hstopped := (stopped_expand hc).1 _ finished' t (ms ++ [m]) (hresumes.onWalk.enter hm) hleaves hwalk' f' hf'
    have hlookup' := lookup_of_barren hresumes.fresh hm (hstopped.of_definition hderived ht).barren
    obtain ⟨hused, hutree⟩ := expandMetric_enter hlookup hpath hholds ht
    obtain ⟨hfresh, hftree⟩ := expandMetric_enter hlookup' (hresumes.not_contains hpath) hholds ht
    refine h.congr hused hfresh fun hsome htree => ?_
    rw [hutree, hftree, hsome, htree]
  · intro path finished m hlookup hpath hholds t ht x hf ih
    exact trails_done hc ((expandMetric_enter hlookup hpath hholds ht).1.trans hf)
  · intro path finished m hlookup hpath hholds left ms finished' hresumes hm hwalk
    exact absurd hm hholds

/-! ### Calls -/

/-- What an expander can be asked for: the tree of a metric, or a tree to be expanded. -/
inductive Request where
  | metric (m : Metric)
  | tree (t : Tree)

/-- What it answers: the tree or why there is none, or the tree as far as it was expanded and what stopped it. -/
inductive Reply where
  | metric (answer : Except EvalError Tree)
  | tree (expanded : Tree) (failure : Option EvalError)

/-- Why a call failed, if it did. -/
def Reply.failure : Reply → Option EvalError
  | .metric (.ok _) => none
  | .metric (.error e) => some e
  | .tree _ failure => failure

/-- One call. -/
def ask (x : Expander) (c : Catalog) : Request → Expander × Reply
  | .metric m => ((x.expanded c m).1, .metric (x.expanded c m).2)
  | .tree t => ((x.expand c t).1, .tree (x.expand c t).2.1 (x.expand c t).2.2)

/-- The request is about metrics of the catalog. -/
def Request.Of (c : Catalog) : Request → Prop
  | .metric m => c.Holds m
  | .tree t => ∀ m ∈ t.leaves, c.Holds m

/-- The expanders that any calls lead to, with the failure of the last call that failed. -/
inductive Asked (c : Catalog) : Expander → Option EvalError → Prop where
  | fresh : Asked c {} none
  | ask {x : Expander} {last : Option EvalError} {r : Request} (h : Asked c x last) (hr : r.Of c) :
      Asked c (x.ask c r).1 ((x.ask c r).2.failure.or last)

/-- The expansion that is behind a call. -/
def Request.expansion (c : Catalog) (x : Expander) : Request → Expansion
  | .metric m => expandMetric c x.path x.finished m
  | .tree t => expandTree c x.path x.finished t

/-- What is answered when an expansion has ended. -/
def Request.reply (r : Request) (y : Expansion) : Reply :=
  match r with
  | .metric _ => .metric (match y.failure.map Prod.fst with
    | some e => .error e
    | none => .ok y.tree)
  | .tree _ => .tree y.tree (y.failure.map Prod.fst)

variable {r : Request} {x : Expander}

theorem ask_eq (r : Request) (x : Expander) (c : Catalog) :
    x.ask c r = (x.after (r.expansion c x), r.reply (r.expansion c x)) := by
  cases r with
  | metric m =>
    simp only [ask, Expander.expanded, Request.reply, Request.expansion]
    cases (expandMetric c x.path x.finished m).failure <;> rfl
  | tree t => rfl

theorem failure_reply (r : Request) (y : Expansion) : (r.reply y).failure = y.failure.map Prod.fst := by
  cases r with
  | metric m =>
    unfold Request.reply
    cases y.failure.map Prod.fst <;> rfl
  | tree t => rfl

theorem reply_congr {y y' : Expansion} (hfailure : y.failure.map Prod.fst = y'.failure.map Prod.fst)
    (htree : y.tree = y'.tree) : r.reply y = r.reply y' := by
  unfold Request.reply
  rw [hfailure, htree]

/-- Both answer alike, or the first one with a cycle through what was left, and the second one with a failure. -/
theorem Trails.reply (h : Trails c left used fresh) (r : Request) : r.reply used = r.reply fresh ∨
    left ≠ [] ∧ (∃ chain, (r.reply used).failure = some (.cyclicDefinition (names c left ++ chain))) ∧
      ∃ e, (r.reply fresh).failure = some e := by
  rw [failure_reply, failure_reply]
  cases h with
  | done hused hfresh htree => exact .inl (reply_congr (by rw [hused, hfresh]) htree)
  | fault _ _ _ _ hused hfresh htree => exact .inl (reply_congr (by rw [hused, hfresh]; rfl) htree)
  | cycle hused hfresh htree =>
    by_cases hleft : left = []
    · subst hleft
      exact .inl (reply_congr (by rw [hused, hfresh]; rfl) htree)
    · exact .inr ⟨hleft, ⟨_, by rw [hused]; rfl⟩, _, by rw [hfresh]; rfl⟩
  | again hleft hused hfresh => exact .inr ⟨hleft, ⟨_, by rw [hused]; rfl⟩, _, by rw [hfresh]; rfl⟩

/-- What is true of an expander after any calls: what is finished can be relied on, what is left on the path cannot be
    expanded, and the end of it is a definition at fault. -/
structure Worn (c : Catalog) (x : Expander) : Prop where
  finished : Finished c x.finished
  barren : ∀ m, c.Holds m → m.id ∈ x.path → Barren c m
  fault : x.path ≠ [] → ∃ before m e, x.path = before ++ [m.id] ∧ c.Holds m ∧ ofMetric c m = .error e

theorem worn_fresh (c : Catalog) : Worn c {} where
  finished := fun p hp => (by cases hp)
  barren := fun m _ hm => (by cases hm)
  fault := fun h => absurd rfl h

theorem Worn.trails (hc : c.Numbered) (h : Worn c x) (hr : r.Of c) :
    Trails c x.path (r.expansion c x) (r.expansion c {}) := by
  have hresumes : Resumes c x.path [] x.path x.finished [] :=
    ⟨(List.append_nil _).symm, fun m hm => (by cases hm), h.barren, h.finished, (worn_fresh c).finished⟩
  cases r with
  | metric m => exact (trails_expand hc).2 _ _ m x.path [] [] hresumes hr (List.isChain_singleton m)
  | tree t => exact (trails_expand hc).1 _ _ t x.path [] [] hresumes hr fun y _ => List.isChain_singleton y

theorem Worn.finished_expansion (hc : c.Numbered) (h : Worn c x) (hr : r.Of c) : Finished c (r.expansion c x).finished := by
  cases r with
  | metric m => exact ((keeps_expand hc).2 _ _ m h.finished hr).1
  | tree t => exact ((keeps_expand hc).1 _ _ t h.finished hr).1

theorem Worn.ask (hc : c.Numbered) (h : Worn c x) (hr : r.Of c) : Worn c (x.ask c r).1 := by
  have hfinished := h.finished_expansion hc hr
  rw [ask_eq]
  unfold after
  cases h.trails hc hr with
  | done hused =>
    rw [hused]
    exact ⟨hfinished, h.barren, h.fault⟩
  | @fault walk last e hwalk hlast hholds he hused =>
    rw [hused]
    refine ⟨hfinished, fun m hm hmem => ?_, fun _ => ⟨x.path ++ walk.map Metric.id, last, e, by simp, hlast, he⟩⟩
    rcases List.mem_append.mp hmem with hmem | hmem
    · exact h.barren m hm hmem
    · obtain ⟨y, hy, hid⟩ := List.mem_map.mp hmem
      have hy' : c.Holds y := by
        rcases List.mem_append.mp hy with hy | hy
        · exact hholds y hy
        · rwa [List.mem_singleton.mp hy]
      exact (hy'.eq_of_id hm hid) ▸ barren_of_fault hwalk he hy
  | cycle hused =>
    rw [hused]
    exact ⟨hfinished, fun m _ hm => (by cases hm), fun h => absurd rfl h⟩
  | again _ hused =>
    rw [hused]
    exact ⟨hfinished, fun m _ hm => (by cases hm), fun h => absurd rfl h⟩

/-- A call clears the path, lengthens it, or leaves it as it is, by the way it ends. -/
theorem Worn.path_ask (hc : c.Numbered) (h : Worn c x) (hr : r.Of c) :
    match (x.ask c r).2.failure with
    | none => (x.ask c r).1.path = x.path
    | some e => (x.ask c r).1.path = [] ↔ ∃ chain, e = .cyclicDefinition chain := by
  rw [ask_eq, failure_reply]
  unfold after
  cases h.trails hc hr with
  | done hused =>
    rw [hused]
    rfl
  | fault _ _ _ he hused =>
    rw [hused]
    simp [ofMetric_error he]
  | cycle hused =>
    rw [hused]
    simp
  | again _ hused =>
    rw [hused]
    simp

theorem Asked.worn (hc : c.Numbered) {last : Option EvalError} (h : Asked c x last) : Worn c x := by
  induction h with
  | fresh => exact worn_fresh c
  | ask _ hr ih => exact ih.ask hc hr

/-- The path is empty unless the last failure was at fault for something else than a cycle. -/
theorem Asked.path_eq_nil (hc : c.Numbered) {last : Option EvalError} (h : Asked c x last) :
    x.path = [] ↔ ∀ e, last = some e → ∃ chain, e = .cyclicDefinition chain := by
  induction h with
  | fresh => simp
  | @ask x last r h hr ih =>
    have hpath := (h.worn hc).path_ask hc hr
    cases hfailure : (x.ask c r).2.failure with
    | none =>
      simp only [hfailure] at hpath
      rw [hpath, ih, Option.none_or]
    | some e =>
      simp only [hfailure] at hpath
      rw [hpath, Option.some_or]
      simp

/-- With nothing left on the path, nothing is answered differently. -/
theorem Worn.reply_eq (hc : c.Numbered) (h : Worn c x) (hpath : x.path = []) (hr : r.Of c) :
    (x.ask c r).2 = (({} : Expander).ask c r).2 := by
  rw [ask_eq, ask_eq]
  exact ((h.trails hc hr).reply r).resolve_right fun hleft => hleft.1 hpath

/-- The metric at the end of what is left is at fault for a fresh expander, and met again by this one. -/
theorem Worn.exists_reply_ne (h : Worn c x) (hpath : x.path ≠ []) :
    ∃ r : Request, r.Of c ∧ (x.ask c r).2 ≠ (({} : Expander).ask c r).2 := by
  obtain ⟨before, m, e, heq, hm, he⟩ := h.fault hpath
  have hmem : m.id ∈ x.path := by simp [heq]
  have hused := expandMetric_again (c := c) (lookup_of_barren h.finished hm (h.barren m hm hmem))
    (List.contains_iff_mem.mpr hmem)
  have hfresh : expandMetric c [] [] m = _ := expandMetric_fault rfl (by simp) hm he
  refine ⟨.metric m, hm, fun hreply => ?_⟩
  have hfailure := congrArg Reply.failure hreply
  rw [ask_eq, ask_eq, failure_reply, failure_reply] at hfailure
  simp only [Request.expansion] at hfailure
  rw [hused, hfresh] at hfailure
  exact ofMetric_error he _ (Option.some.inj hfailure).symm

/-- After any calls, an expander answers every request as one that was never asked does if and only if the last call that
    failed, if any did, met a cycle. What it answers otherwise is that there is a cycle, through the metrics it was
    working on, and this only where the other expander fails as well. -/
theorem asked_like_fresh_iff (hc : c.Built) {last : Option EvalError} (hx : Asked c x last) :
    ((∀ r : Request, r.Of c → (x.ask c r).2 = (({} : Expander).ask c r).2) ↔
      ∀ e, last = some e → ∃ chain, e = .cyclicDefinition chain) ∧
    ∀ r : Request, r.Of c → (x.ask c r).2 = (({} : Expander).ask c r).2 ∨
      x.path ≠ [] ∧ (∃ chain, (x.ask c r).2.failure = some (.cyclicDefinition (names c x.path ++ chain))) ∧
        ∃ e, (({} : Expander).ask c r).2.failure = some e := by
  have hnumbered := hc.numbered
  have hworn := hx.worn hnumbered
  refine ⟨⟨fun hall => ?_, fun hlast r hr => ?_⟩, fun r hr => ?_⟩
  · rw [← hx.path_eq_nil hnumbered]
    by_contra hpath
    obtain ⟨r, hr, hne⟩ := hworn.exists_reply_ne hpath
    exact hne (hall r hr)
  · exact hworn.reply_eq hnumbered ((hx.path_eq_nil hnumbered).mpr hlast) hr
  · rw [ask_eq, ask_eq]
    exact (hworn.trails hnumbered hr).reply r

/-- A metric whose expression names another one that there is not. -/
def dangling : Catalog := (Catalog.empty.registerAll [{ name := "X", architecture := "g", expression := "Y" }]).1

def danglingX : Metric := { name := "X", architecture := "g", expression := "Y", id := 1 }

theorem asked_dangling : ∃ x e, dangling.Built ∧ Asked dangling x (some e) ∧ (∀ chain, e ≠ .cyclicDefinition chain) ∧
    ∃ r : Request, r.Of dangling ∧ (x.ask dangling r).2 ≠ (({} : Expander).ask dangling r).2 := by
  have hbuilt : dangling.Built := Catalog.Built.empty.registerAll _
  have hx : dangling.Holds danglingX := by
    show dangling.byId? 1 = some danglingX
    cbv
  have hfailure : (({} : Expander).ask dangling (.metric danglingX)).2.failure = some (.unknownMetric "g" "Y") := by cbv
  have hasked := Asked.ask (Asked.fresh (c := dangling)) (r := .metric danglingX) hx
  rw [hfailure, Option.some_or] at hasked
  have hiff := (asked_like_fresh_iff hbuilt hasked).1
  refine ⟨_, _, hbuilt, hasked, fun chain => EvalError.noConfusion, ?_⟩
  by_contra hsame
  obtain ⟨chain, hchain⟩ := hiff.mp (fun r hr => by_contra fun hne => hsame ⟨r, hr, hne⟩) _ rfl
  cases hchain

end Expander

end PerfCounters
