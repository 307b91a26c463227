import PerfCounters.Definitions
import PerfCounters.Proofs.Catalog.Histories
import PerfCounters.Proofs.Instances.Layouts

/-! What is known of a catalog that was loaded. It comes of registering metrics and blocks, every block has a
    layout that ids can tell apart, and each of its architectures has an evaluator. The dimensions of a block
    differ because a table is in the order of its keys. -/

namespace PerfCounters

open PerfCounters.Parser (bind_eq_ok)

namespace Yaml

/-! ### Decoders -/

/-- Every value that the decoder answers is of this kind. -/
def Decoder.Ensures {α : Type} (x : Decoder α) (P : α → Prop) : Prop :=
  ∀ d followed a followed', (x.run d).run followed = some (a, followed') → P a

namespace Decoder

variable {α β κ : Type} {P : α → Prop} {Q : β → Prop} {x : Decoder α} {f : α → Decoder β}

theorem ensures_true (x : Decoder α) : x.Ensures fun _ => True := fun _ _ _ _ _ => trivial

theorem Ensures.pure {a : α} (h : P a) : Decoder.Ensures (Pure.pure a) P := by
  intro d followed b followed' hrun
  cases hrun
  exact h

theorem Ensures.failure : Decoder.Ensures (α := α) failure P := by
  intro d followed b followed' hrun
  cases hrun

theorem Ensures.bind (hx : x.Ensures P) (hf : ∀ a, P a → (f a).Ensures Q) : Decoder.Ensures (x >>= f) Q := by
  intro d followed b followed' hrun
  have hrun' : ((x.run d).run followed).bind (fun r => ((f r.1).run d).run r.2) = some (b, followed') := hrun
  obtain ⟨⟨a, next⟩, hfirst, hnext⟩ := Option.bind_eq_some_iff.mp hrun'
  exact hf a (hx d followed a next hfirst) d next b followed' hnext

theorem Ensures.mapM {g : α → Decoder β} (hg : ∀ a, (g a).Ensures Q) (l : List α) :
    Decoder.Ensures (l.mapM g) fun bs => ∀ b ∈ bs, Q b := by
  induction l with
  | nil =>
    rw [List.mapM_nil]
    exact Ensures.pure fun b hb => (by cases hb)
  | cons a l ih =>
    rw [List.mapM_cons]
    refine (hg a).bind fun b hb => ih.bind fun bs hbs => Ensures.pure fun b' hb' => ?_
    rcases List.mem_cons.mp hb' with rfl | hb'
    · exact hb
    · exact hbs b' hb'

end Decoder

namespace Node

variable {α κ : Type} {P : α → Prop}

theorem ensures_field {fields : List (String × Node)} {name : String} {value : Node → Decoder α} {default? : Option α}
    (hvalue : ∀ n, (value n).Ensures P) (hdefault : ∀ a, default? = some a → P a) :
    (field fields name value default?).Ensures P := by
  unfold field
  split
  · exact hvalue _
  · cases default? with
    | none => exact Decoder.Ensures.failure
    | some a => exact Decoder.Ensures.pure (hdefault a rfl)

/-! ### Tables -/

section Tables

variable {β : Type} [BEq κ] {before : κ → κ → Bool} {k : κ} {v : α} {entries : List (κ × α)}

theorem mem_insert {e : κ × α} (h : e ∈ insert before k v entries) : e = (k, v) ∨ e ∈ entries := by
  induction entries with
  | nil => exact Or.inl (List.mem_singleton.mp h)
  | cons x entries ih =>
    unfold insert at h
    split at h
    · rcases List.mem_cons.mp h with rfl | h
      · exact Or.inl rfl
      · exact Or.inr (List.mem_cons_of_mem _ h)
    · split at h
      · exact List.mem_cons.mp h
      · rcases List.mem_cons.mp h with rfl | h
        · exact Or.inr List.mem_cons_self
        · rcases ih h with heq | hmem
          · exact Or.inl heq
          · exact Or.inr (List.mem_cons_of_mem _ hmem)

/-- The keys stand in order. -/
def Ascending (before : κ → κ → Bool) (entries : List (κ × α)) : Prop :=
  (entries.map Prod.fst).Pairwise fun k k' => before k k' = true

/-- What an order of keys has to satisfy for tables to keep it. -/
structure Orders (before : κ → κ → Bool) : Prop where
  trans : ∀ {a b c}, before a b = true → before b c = true → before a c = true
  total : ∀ {a b}, (a == b) = false → before b a = false → before a b = true
  eq_of_beq : ∀ {a b : κ}, (a == b) = true → a = b

theorem Ascending.insert (h : Ascending before entries) (ho : Orders before) (k : κ) (v : α) :
    Ascending before (insert before k v entries) := by
  induction entries with
  | nil => exact List.pairwise_singleton _ _
  | cons x entries ih =>
    obtain ⟨hhead, htail⟩ := List.pairwise_cons.mp h
    unfold Node.insert
    split
    · rename_i heq
      have hk := ho.eq_of_beq heq
      exact List.pairwise_cons.mpr ⟨hk ▸ hhead, htail⟩
    · rename_i hne
      split
      · rename_i hbefore
        refine List.pairwise_cons.mpr ⟨fun k' hk' => ?_, h⟩
        rcases List.mem_cons.mp hk' with rfl | hk'
        · exact hbefore
        · exact ho.trans hbefore (hhead k' hk')
      · rename_i hnot
        refine List.pairwise_cons.mpr ⟨fun k' hk' => ?_, ih htail⟩
        obtain ⟨e, he, rfl⟩ := List.mem_map.mp hk'
        rcases mem_insert he with rfl | he
        · exact ho.total (by simpa using hne) (by simpa using hnot)
        · exact hhead e.1 (List.mem_map_of_mem he)

/-- A table is in the order of its keys, and its values are those that were read. -/
theorem ensures_table {key : Node → Decoder κ} {value : Node → Decoder α} (hvalue : ∀ n, (value n).Ensures P) (n : Node) :
    (n.table before key value).Ensures fun table =>
      (∀ e ∈ table, P e.2) ∧ (Orders before → Ascending before table) := by
  have hentry : ∀ entry : Node × Node,
      Decoder.Ensures (do return (← key entry.1, ← value entry.2)) fun e : κ × α => P e.2 := fun entry =>
    (Decoder.ensures_true _).bind fun _ _ => (hvalue entry.2).bind fun _ hv => Decoder.Ensures.pure hv
  have hfold : ∀ (read entries : List (κ × α)), (∀ e ∈ read, P e.2) → (∀ e ∈ entries, P e.2) →
      (Orders before → Ascending before entries) →
      (∀ e ∈ read.foldl (fun table entry => insert before entry.1 entry.2 table) entries, P e.2) ∧
        (Orders before → Ascending before
          (read.foldl (fun table entry => insert before entry.1 entry.2 table) entries)) := by
    intro read
    induction read with
    | nil => exact fun entries _ hentries horder => ⟨hentries, horder⟩
    | cons x read ih =>
      intro entries hread hentries horder
      refine ih _ (fun e he => hread e (List.mem_cons_of_mem _ he)) (fun e he => ?_) (fun ho => (horder ho).insert ho _ _)
      rcases mem_insert he with heq | hmem
      · rw [heq]
        exact hread x List.mem_cons_self
      · exact hentries e hmem
  exact (Decoder.ensures_true _).bind fun _ _ => (Decoder.Ensures.mapM hentry _).bind fun read hread =>
    Decoder.Ensures.pure (hfold read [] hread (fun e he => (by cases he)) (fun _ => List.Pairwise.nil))

end Tables

end Node

end Yaml

/-! ### Documents -/

open Yaml

theorem orders_index : Node.Orders fun a b : Dimension => decide (a.index < b.index) := by
  refine ⟨fun {a b c} hab hbc => ?_, fun {a b} hne hnot => ?_, fun {a b} h => by simpa using h⟩
  · have hab' : a.index < b.index := of_decide_eq_true hab
    have hbc' : b.index < c.index := of_decide_eq_true hbc
    exact decide_eq_true (Nat.lt_trans hab' hbc')
  · revert hne hnot
    cases a <;> cases b <;> decide

theorem Dimension.nodup_of_ascending {ds : List Dimension} (h : ds.Pairwise fun a b => a.index < b.index) : ds.Nodup :=
  h.imp fun hlt heq => Nat.ne_of_lt hlt (congrArg index heq)

namespace Catalog

variable {c c' : Catalog} {P : Layout → Prop} {b : Block}

/-- The layouts that were set for blocks are all of this kind. -/
def EachLayout (c : Catalog) (P : Layout → Prop) : Prop := ∀ architecture name l, c.layout? architecture name = some l → P l

theorem eachLayout_empty (P : Layout → Prop) : empty.EachLayout P := fun architecture name l h => by
  simp [layout?, empty] at h

theorem layout?_registerBlock (c : Catalog) (b : Block) (architecture name : String) :
    (c.registerBlock b).layout? architecture name =
      if b.architecture = architecture ∧ b.name = name then some b.layout else c.layout? architecture name := by
  unfold layout? registerBlock
  rw [Std.HashMap.getElem?_insert, Std.HashMap.getD_eq_getD_getElem?]
  by_cases harch : b.architecture = architecture
  · subst harch
    by_cases hname : b.name = name <;> cases c.blocks[b.architecture]? <;> simp [Std.HashMap.getElem?_insert, hname]
  · simp [harch]

theorem EachLayout.registerBlock (h : c.EachLayout P) (hb : P b.layout) : (c.registerBlock b).EachLayout P :=
  fun architecture name l hl => by
    rw [layout?_registerBlock] at hl
    split at hl
    · cases hl
      exact hb
    · exact h architecture name l hl

theorem EachLayout.of_blocks (h : c.EachLayout P) (hblocks : c'.blocks = c.blocks) : c'.EachLayout P :=
  fun architecture name l hl => h architecture name l (by rwa [layout?, hblocks] at hl)

end Catalog

namespace DefinitionDocument

/-- The sizes are in the order of their slots. -/
def InOrder (sizes : List (Dimension × Nat)) : Prop := (sizes.map Prod.fst).Pairwise fun a b => a.index < b.index

/-- The sizes of each block are in the order of their slots. -/
def Ordered (d : DefinitionDocument) : Prop := ∀ p ∈ d.blocks, ∀ q ∈ p.2, InOrder q.2

theorem ensures_sizes (n : Node) : (Dimension.sizes n).Ensures InOrder := by
  intro d followed sizes followed' hrun
  obtain ⟨-, hascending⟩ := Node.ensures_table (fun n => Decoder.ensures_true _) n d followed sizes followed' hrun
  exact (hascending orders_index).imp fun hlt => of_decide_eq_true hlt

theorem ensures_textTable {α : Type} {P : α → Prop} {value : Node → Decoder α}
    (hvalue : ∀ n, (value n).Ensures P) (n : Node) :
    (n.textTable value).Ensures fun table => ∀ e ∈ table, P e.2 := fun d followed table followed' hrun =>
  (Node.ensures_table hvalue n d followed table followed' hrun).1

theorem ensures_ofNode (n : Node) : (ofNode n).Ensures Ordered := by
  have hnil : ∀ blocks : List (String × List (String × List (Dimension × Nat))), some [] = some blocks →
      ∀ p ∈ blocks, ∀ q ∈ p.2, InOrder q.2 := by
    rintro _ ⟨⟩ p hp
    cases hp
  exact (Decoder.ensures_true _).bind fun _ _ =>
    (Node.ensures_field (ensures_textTable (ensures_textTable ensures_sizes)) hnil).bind fun _ hblocks =>
      (Decoder.ensures_true _).bind fun _ _ => Decoder.Ensures.pure hblocks

/-- All that is used of how a document is read: whatever the text, the blocks that are read of it are ordered. -/
theorem ordered_of_ofText? {text : String} {doc : DefinitionDocument} (h : ofText? text = some doc) : doc.Ordered := by
  obtain ⟨d, -, hdecode⟩ := Option.bind_eq_some_iff.mp h
  have hrun : (((ofNode d.root).run d).run 0).map Prod.fst = some doc := hdecode
  obtain ⟨⟨_, followed⟩, hfirst, rfl⟩ := Option.map_eq_some_iff.mp hrun
  exact ensures_ofNode d.root d 0 _ followed hfirst

/-! ### Catalogs -/

variable {c c' : Catalog} {architecture block : String}

/-- A catalog of blocks that ids can tell apart. -/
structure Sound (c : Catalog) : Prop where
  built : c.Built
  proper : c.EachLayout Layout.Proper

theorem sound_empty : Sound Catalog.empty := ⟨Catalog.Built.empty, Catalog.eachLayout_empty _⟩

theorem axes_ok {sizes : List (Dimension × Nat)} {l : Layout} (hdistinct : (sizes.map Prod.fst).Nodup)
    (h : axes architecture block sizes = .ok l) : l.Proper ∧ l.map Axis.dimension = sizes.map Prod.fst := by
  induction sizes generalizing l with
  | nil =>
    cases h
    exact ⟨⟨fun a ha => (by cases ha), List.nodup_nil⟩, rfl⟩
  | cons x sizes ih =>
    obtain ⟨d, size⟩ := x
    unfold axes at h
    simp only at h
    split at h
    · rename_i hencodable
      cases hrest : axes architecture block sizes with
      | error e => rw [hrest] at h; cases h
      | ok rest =>
        rw [hrest] at h
        cases h
        obtain ⟨hproper, hdims⟩ := ih (List.nodup_cons.mp hdistinct).2 hrest
        have hmap : List.map Axis.dimension (⟨d, size⟩ :: rest) = d :: sizes.map Prod.fst := by
          rw [List.map_cons, hdims]
        refine ⟨⟨fun a ha => ?_, hmap ▸ hdistinct⟩, hmap⟩
        rcases List.mem_cons.mp ha with rfl | ha
        · exact hencodable
        · exact hproper.encodable a ha
    · cases h

/-! What holds of the layouts that are accepted holds of the layouts of the blocks. -/

section Layouts

variable {P : Layout → Prop}

theorem registerBlocks_layouts {blocks : List (String × List (Dimension × Nat))} (h : c.EachLayout P)
    (haxes : ∀ q ∈ blocks, ∀ l, axes architecture q.1 q.2 = .ok l → P l)
    (hok : registerBlocks architecture blocks c = .ok c') : c'.EachLayout P := by
  induction blocks generalizing c with
  | nil =>
    cases hok
    exact h
  | cons q blocks ih =>
    obtain ⟨l, hl, hok⟩ := bind_eq_ok hok
    exact ih (h.registerBlock (haxes q List.mem_cons_self l hl)) (fun q' hq' => haxes q' (List.mem_cons_of_mem _ hq')) hok

theorem registerAllBlocks_layouts {blocks : List (String × List (String × List (Dimension × Nat)))}
    (h : c.EachLayout P) (haxes : ∀ p ∈ blocks, ∀ q ∈ p.2, ∀ l, axes p.1 q.1 q.2 = .ok l → P l)
    (hok : registerAllBlocks blocks c = .ok c') : c'.EachLayout P := by
  induction blocks generalizing c with
  | nil =>
    cases hok
    exact h
  | cons p blocks ih =>
    obtain ⟨c₁, hc₁, hok⟩ := bind_eq_ok hok
    exact ih (registerBlocks_layouts h (haxes p List.mem_cons_self) hc₁)
      (fun p' hp' => haxes p' (List.mem_cons_of_mem _ hp')) hok

end Layouts

theorem registerBlocks_built {blocks : List (String × List (Dimension × Nat))} (h : c.Built)
    (hok : registerBlocks architecture blocks c = .ok c') : c'.Built := by
  induction blocks generalizing c with
  | nil =>
    cases hok
    exact h
  | cons q blocks ih =>
    obtain ⟨l, -, hok⟩ := bind_eq_ok hok
    exact ih (h.block _) hok

theorem registerAllBlocks_built {blocks : List (String × List (String × List (Dimension × Nat)))} (h : c.Built)
    (hok : registerAllBlocks blocks c = .ok c') : c'.Built := by
  induction blocks generalizing c with
  | nil =>
    cases hok
    exact h
  | cons p blocks ih =>
    obtain ⟨c₁, hc₁, hok⟩ := bind_eq_ok hok
    exact ih (registerBlocks_built h hc₁) hok

theorem registerAllBlocks_ok {blocks : List (String × List (String × List (Dimension × Nat)))} (h : Sound c)
    (hdistinct : ∀ p ∈ blocks, ∀ q ∈ p.2, (q.2.map Prod.fst).Nodup) (hok : registerAllBlocks blocks c = .ok c') :
    Sound c' :=
  ⟨registerAllBlocks_built h.built hok,
    registerAllBlocks_layouts h.proper (fun p hp q hq _ hl => (axes_ok (hdistinct p hp q hq) hl).1) hok⟩

theorem registers_registerKey {m : MetricEntry} {key : String} {e : ArchitectureEntry}
    (h : registerKey m key e c = .ok c') :
    Catalog.Registers c c' ((architecturesOf key).map (definition m e)) := by
  unfold registerKey at h
  simp only at h
  split at h
  · cases h
  · split at h
    · cases h
    · rename_i heq
      cases h
      exact Catalog.registers_registerAll heq

theorem registers_registerKeys {m : MetricEntry} {keys : List (String × ArchitectureEntry)}
    (h : registerKeys m keys c = .ok c') :
    Catalog.Registers c c' (keys.flatMap fun p => (architecturesOf p.1).map (definition m p.2)) := by
  induction keys generalizing c with
  | nil =>
    cases h
    exact .refl _
  | cons p keys ih =>
    obtain ⟨c₁, hc₁, h⟩ := bind_eq_ok h
    exact (registers_registerKey hc₁).trans (ih h)

/-- What an entry defines, key by key and on each architecture that the key names. -/
def definitionsOf (m : MetricEntry) : List Definition :=
  m.architectures.flatMap fun p => (architecturesOf p.1).map (definition m p.2)

/-- Every entry is registered, in order. -/
theorem registers_registerMetrics {ms : List MetricEntry} (h : registerMetrics ms c = .ok c') :
    Catalog.Registers c c' (ms.flatMap definitionsOf) := by
  induction ms generalizing c with
  | nil =>
    cases h
    exact .refl _
  | cons m ms ih =>
    unfold registerMetrics at h
    split at h
    · cases h
    · obtain ⟨c₁, hc₁, h⟩ := bind_eq_ok h
      exact (registers_registerKeys hc₁).trans (ih h)

theorem Sound.registers {ds : List Definition} (h : Sound c) (hregisters : Catalog.Registers c c' ds) : Sound c' :=
  ⟨hregisters.built h.built, h.proper.of_blocks hregisters.blocks⟩

theorem check_ok {names : List String} (h : check c names = .ok ()) :
    ∀ architecture ∈ names, ∃ e, Evaluator.ofCatalog c architecture = .ok e := by
  induction names with
  | nil => exact fun a ha => (by cases ha)
  | cons name names ih =>
    unfold check at h
    split at h
    · rename_i e he
      intro a ha
      rcases List.mem_cons.mp ha with rfl | ha
      · exact ⟨e, he⟩
      · exact ih h a ha
    · cases h

theorem catalog_ok {d : DefinitionDocument} (hordered : d.Ordered) (h : d.catalog = .ok c) :
    Sound c ∧ ∀ architecture ∈ c.architectures, ∃ e, Evaluator.ofCatalog c architecture = .ok e := by
  have hdistinct : ∀ p ∈ d.blocks, ∀ q ∈ p.2, (q.2.map Prod.fst).Nodup :=
    fun p hp q hq => Dimension.nodup_of_ascending (hordered p hp q hq)
  obtain ⟨c₁, hblocks, h⟩ := bind_eq_ok h
  obtain ⟨c₂, hmetrics, h⟩ := bind_eq_ok h
  obtain ⟨_, hcheck, h⟩ := bind_eq_ok h
  cases h
  exact ⟨(registerAllBlocks_ok sound_empty hdistinct hblocks).registers (registers_registerMetrics hmetrics),
    check_ok hcheck⟩

theorem built_of_registered {d : DefinitionDocument} (hblocks : registerAllBlocks d.blocks Catalog.empty = .ok c)
    (hmetrics : registerMetrics d.metrics c = .ok c') : c'.Built :=
  (registers_registerMetrics hmetrics).built (registerAllBlocks_built .empty hblocks)

/-- The architectures that are checked are those of the metrics. -/
theorem catalog_eq (d : DefinitionDocument) : d.catalog = do
    let c ← registerMetrics d.metrics (← registerAllBlocks d.blocks Catalog.empty)
    check c c.occurring
    return c := by
  unfold catalog
  cases hblocks : registerAllBlocks d.blocks Catalog.empty with
  | error e => rfl
  | ok c₁ =>
    cases hmetrics : registerMetrics d.metrics c₁ with
    | error e => simp only [bind, Except.bind, hmetrics]
    | ok c₂ =>
      have harchs := (built_of_registered hblocks hmetrics).numbered.architectures_eq
      simp only [bind, Except.bind, hmetrics, harchs]

theorem architectures_of_catalog {d : DefinitionDocument} (h : d.catalog = .ok c) : c.architectures = c.occurring := by
  obtain ⟨c₁, hblocks, h⟩ := bind_eq_ok h
  obtain ⟨c₂, hmetrics, h⟩ := bind_eq_ok h
  obtain ⟨_, -, h⟩ := bind_eq_ok h
  cases h
  exact (built_of_registered hblocks hmetrics).numbered.architectures_eq

theorem layouts_of_catalog {P : Layout → Prop} {d : DefinitionDocument}
    (haxes : ∀ p ∈ d.blocks, ∀ q ∈ p.2, ∀ l, axes p.1 q.1 q.2 = .ok l → P l) (h : d.catalog = .ok c) :
    c.EachLayout P := by
  obtain ⟨c₁, hblocks, h⟩ := bind_eq_ok h
  obtain ⟨c₂, hmetrics, h⟩ := bind_eq_ok h
  obtain ⟨_, -, h⟩ := bind_eq_ok h
  cases h
  exact (registerAllBlocks_layouts (Catalog.eachLayout_empty P) haxes hblocks).of_blocks
    (registers_registerMetrics hmetrics).blocks

end DefinitionDocument

namespace Catalog

variable {c : Catalog}

/-- The layout of every block is one that ids can tell apart, also if the block is not known. -/
theorem proper_blockLayout (h : c.EachLayout Layout.Proper) (architecture name : String) :
    (c.blockLayout architecture name).Proper := by
  unfold blockLayout
  split
  · rename_i l hl
    exact (h architecture name l hl).orScalar
  · exact Layout.proper_scalar

theorem proper_metricLayout (h : c.EachLayout Layout.Proper) (m : Metric) : (Tree.metricLayout c m).Proper := by
  unfold Tree.metricLayout
  split
  · exact Layout.proper_scalar
  · exact proper_blockLayout h m.architecture m.block

theorem ofText_of_document {text : String} {d : DefinitionDocument} (h : DefinitionDocument.ofText? text = some d) :
    ofText text = d.catalog := by
  rw [ofText, h]

/-- A catalog that was loaded is that of an ordered document. -/
theorem exists_document {text : String} (h : ofText text = .ok c) :
    ∃ d : DefinitionDocument, d.Ordered ∧ d.catalog = .ok c := by
  unfold ofText at h
  split at h
  · cases h
  · rename_i d hd
    exact ⟨d, DefinitionDocument.ordered_of_ofText? hd, h⟩

theorem ofText_ok {text : String} (h : ofText text = .ok c) :
    DefinitionDocument.Sound c ∧ ∀ architecture ∈ c.architectures, ∃ e, Evaluator.ofCatalog c architecture = .ok e := by
  obtain ⟨d, hordered, hd⟩ := exists_document h
  exact DefinitionDocument.catalog_ok hordered hd

end Catalog

end PerfCounters
