import PerfCounters.CommandLine.Delivery
import PerfCounters.Proofs.Buffering.Outcomes

/-! What is delivered. The program is a caller of the service like any other, so its run is a run of a session: what
    the consumer was given when the buffer is gone are the samples that were stored, in order, and those that were not
    stored were counted.

    A schedule lets drains go on between two stores only. That loses no generality: a drain works on the side that
    takes no records, so it does the same before a store as between it and the look at the watermark; and while a call
    waits for a drain, nothing else can happen to its buffer. -/

namespace PerfCounters

namespace CommandLine

open Session Service Delivering

variable {settings : Settings} {s : Session (Sample Float)} {outcomes : List (Record (Sample Float) × Outcome)}

/-- A session in which these records were brought to the buffer of the program, and became this. -/
structure Carries (settings : Settings) (s : Session (Sample Float))
    (outcomes : List (Record (Sample Float) × Outcome)) : Prop where
  balanced : s.Balanced
  regular : s.Regular
  untouched : s.Untouched
  counted : s.Counted
  bound : s.Bound 1 settings
  idle : s.pending = none
  emplaced : s.emplaced 1 = outcomes
  others : ∀ id, id ≠ 1 → s.emplaced id = []

/-- Events that end with no call under way and that bring nothing new. -/
theorem Carries.reaches {s' : Session (Sample Float)} {more : List (Record (Sample Float) × Outcome)}
    (h : Carries settings s outcomes) (hreaches : s.Reaches s') (hidle : s'.pending = none)
    (hemplaced : ∀ id, s'.emplaced id = s.emplaced id ++ if id = 1 then more else []) :
    Carries settings s' (outcomes ++ more) := by
  obtain ⟨events, rfl⟩ := hreaches
  refine ⟨h.balanced.run events, h.regular.run events, ?_, h.counted.run h.regular h.untouched events,
    h.bound.run h.regular events, hidle, ?_, fun id hid => ?_⟩
  · exact h.untouched.run h.regular events
  · rw [hemplaced, h.emplaced, if_pos rfl]
  · rw [hemplaced, h.others id hid, if_neg hid, List.append_nil]

theorem emplaced_after (hidle : s.pending = none) (service : Service (Sample Float)) (call : Call (Sample Float))
    (result : Except BufferError Answer) (id : BufferId) :
    (s.after service call result).emplaced id = s.emplaced id ++ (emplacedBy? id (call, result)).toList := by
  rw [emplaced_eq, emplaced_eq, hidle]
  simp only [Session.after, List.filterMap_append, Option.bind_none, Option.toList_none, List.append_nil]
  cases h : emplacedBy? id (call, result) <;> simp [h]

theorem Carries.emplace (h : Carries settings s outcomes) {r : Record (Sample Float)} (halign : r.type.align ∈ alignments)
    {service : Service (Sample Float)} {outcome : Outcome} (hcall : s.service.emplace 1 r = (service, .ok outcome)) :
    Carries settings (s.after service (.emplace 1 r) (.ok (.emplaced outcome))) (outcomes ++ [(r, outcome)]) := by
  have hreaches := reaches_emplace h.idle h.regular.sound 1 halign
  simp only [perform, hcall, Except.map] at hreaches
  refine h.reaches hreaches rfl fun id => ?_
  rw [emplaced_after h.idle, emplacedBy?]
  by_cases hid : id = 1
  · simp [hid]
  · have hne : ¬1 = id := fun heq => hid heq.symm
    simp [hid, hne]

theorem Carries.progress (h : Carries settings s outcomes) (schedule : Schedule) (stores : Nat) :
    ∃ s', s'.service = Delivering.progress schedule 1 ⟨s.service, stores⟩ ∧ Carries settings s' outcomes := by
  have hevent : ∀ e, (s.step e).pending = none → (∀ id, (s.step e).emplaced id = s.emplaced id) →
      Carries settings (s.step e) outcomes := fun e hidle hsame => by
    have hcarries : Carries settings (s.step e) (outcomes ++ []) :=
      h.reaches (.of_step s e) hidle fun id => by rw [hsame, ite_self, List.append_nil]
    rwa [List.append_nil] at hcarries
  unfold Delivering.progress
  cases schedule stores with
  | wait => exact ⟨s, rfl, h⟩
  | enter => exact ⟨s.step (.enter 1), rfl, hevent (.enter 1) h.idle fun _ => rfl⟩
  | finish =>
    have hfinish : s.step (.finish 1) = { s with service := (s.service.finish 1).1 } := finish_idle h.idle 1
    refine ⟨s.step (.finish 1), by rw [hfinish], hevent (.finish 1) ?_ fun _ => ?_⟩
    · rw [hfinish]
      exact h.idle
    · rw [hfinish]
      rfl

theorem storeAll_carries (schedule : Schedule) {records : List (Record (Sample Float))} {d d' : Delivering}
    (h : Carries settings s outcomes) (hs : s.service = d.service) (haligned : ∀ r ∈ records, r.type.align ∈ alignments)
    (hcall : storeAll schedule 1 records d = .ok d') :
    ∃ s' more, s'.service = d'.service ∧ Carries settings s' (outcomes ++ more) ∧ more.map Prod.fst = records := by
  induction records generalizing s outcomes d with
  | nil =>
    cases hcall
    exact ⟨s, [], hs, by rwa [List.append_nil], rfl⟩
  | cons r rest ih =>
    rw [storeAll] at hcall
    split at hcall
    · cases hcall
    · rename_i service outcome hemplace
      rw [← hs] at hemplace
      have hstored := h.emplace (haligned r List.mem_cons_self) hemplace
      obtain ⟨s₁, hs₁, h₁⟩ := hstored.progress schedule d.stores
      obtain ⟨s₂, more, hs₂, h₂, hmore⟩ := ih h₁ hs₁ (fun r hr => haligned r (List.mem_cons_of_mem _ hr)) hcall
      exact ⟨s₂, (r, outcome) :: more, hs₂, by simpa using h₂, by rw [List.map_cons, hmore]⟩

/-! ### What the consumer was given -/

/-- A sample with the number of its metric, as it comes out of a batch. -/
def sampleOf? (r : Record (Sample Float)) : Option (Nat × Sample Float) := (r.payload? sampleType).map fun v => (r.kind, v)

theorem sampleOf?_sampleRecord (metric : Nat) (v : Sample Float) :
    sampleOf? (sampleRecord metric v) = some (metric, v) := by
  simp [sampleOf?, Record.payload?, sampleRecord]

/-- If only one buffer had records, all samples come from it. -/
theorem samplesOf_log (service : Service (Sample Float)) (hothers : ∀ id, id ≠ 1 → service.delivered id = []) :
    Delivered.samplesOf service.log = (service.delivered 1).filterMap sampleOf? := by
  have hnone : ∀ d ∈ service.log, d.accepted = true → d.batch.buffer ≠ 1 → d.batch.records = [] := fun d hd ha hid => by
    have hnil := hothers _ hid
    rw [delivered, List.flatMap_eq_nil_iff] at hnil
    exact hnil d (List.mem_filter.mpr ⟨hd, by simp [ha]⟩)
  unfold Delivered.samplesOf delivered
  generalize service.log = log at hnone
  induction log with
  | nil => rfl
  | cons d rest ih =>
    have hrest := ih fun d' hd' => hnone d' (List.mem_cons_of_mem _ hd')
    have hd := hnone d List.mem_cons_self
    cases ha : d.accepted with
    | false => simpa [ha] using hrest
    | true =>
      by_cases hid : d.batch.buffer = 1
      · simp only [List.filter_cons, ha, hid, if_true, List.flatMap_cons, List.filterMap_append, hrest, beq_self_eq_true,
          Bool.and_self]
        rfl
      · simp only [List.filter_cons, ha, if_true, List.flatMap_cons, hd ha hid, List.filterMap_nil, List.nil_append, hrest]
        simp [hid]

/-- When the buffer is gone, what was stored in it has been delivered. -/
theorem Carries.destroy (h : Carries settings s outcomes) {service : Service (Sample Float)}
    (hcall : s.service.destroy 1 = (service, .ok ())) :
    Delivered.samplesOf service.log = (outcomes.filterMap kept?).filterMap sampleOf? := by
  have hreaches := reaches_destroy h.idle h.regular.sound 1
  simp only [perform, hcall, Except.map] at hreaches
  obtain ⟨events, hrun⟩ := hreaches
  have hbalanced := h.balanced.run events
  rw [hrun] at hbalanced
  have hstored : ∀ id, (s.after service (.destroy 1) (.ok .done)).stored id =
      (s.emplaced id).filterMap kept? := fun id => by
    rw [stored_eq_kept, emplaced_after h.idle]
    simp [emplacedBy?]
  have hledger : ∀ id, service.delivered id ++ service.held id = (s.emplaced id).filterMap kept? := fun id =>
    (hbalanced.ledger id).trans (hstored id)
  have hreturned : (s.after service (.destroy 1) (.ok .done)).Returned (.destroy 1) (.ok .done) :=
    ⟨rfl, by simp [Session.after]⟩
  have hheld : service.held 1 = [] := hbalanced.returned hreturned rfl
  have hdelivered := hledger 1
  rw [hheld, List.append_nil, h.emplaced] at hdelivered
  rw [samplesOf_log service fun id hid => ?_, hdelivered]
  have hnone := hledger id
  rw [h.others id hid] at hnone
  exact (List.append_eq_nil_iff.mp hnone).1

/-! ### What was requested -/

/-- The samples of metrics in order, each with the number of its metric. -/
def requestedSamples (e : Evaluator) (base : BaseSamples) : List String → Except Failure (List (Nat × Sample Float))
  | [] => .ok []
  | name :: rest => do
    let m ← (e.metric name).mapError Failure.ofEval
    let samples ← (e.evaluate name base).mapError Failure.ofEval
    let others ← requestedSamples e base rest
    return samples.map (fun v => (m.id, v)) ++ others

def recordOf (x : Nat × Sample Float) : Record (Sample Float) := sampleRecord x.1 x.2

theorem bind_eq_ok_iff {ε α β : Type} {x : Except ε α} {f : α → Except ε β} {b : β} :
    x >>= f = .ok b ↔ ∃ a, x = .ok a ∧ f a = .ok b :=
  ⟨Parser.bind_eq_ok, fun ⟨_, hx, hf⟩ => by rw [hx]; exact hf⟩

theorem mapError_eq_ok {ε ε' α : Type} {x : Except ε α} {f : ε → ε'} {a : α} : x.mapError f = .ok a ↔ x = .ok a := by
  cases x <;> simp [Except.mapError]

theorem requestedSamples_cons {e : Evaluator} {base : BaseSamples} {name : String} {rest : List String}
    {requested : List (Nat × Sample Float)} :
    requestedSamples e base (name :: rest) = .ok requested ↔ ∃ m samples others, e.metric name = .ok m ∧
      e.evaluate name base = .ok samples ∧ requestedSamples e base rest = .ok others ∧
      requested = samples.map (fun v => (m.id, v)) ++ others := by
  simp only [requestedSamples, bind_eq_ok_iff, mapError_eq_ok]
  constructor
  · rintro ⟨m, hm, samples, hsamples, others, hothers, h⟩
    exact ⟨m, samples, others, hm, hsamples, hothers, (Except.ok.inj h).symm⟩
  · rintro ⟨m, samples, others, hm, hsamples, hothers, rfl⟩
    exact ⟨m, hm, samples, hsamples, others, hothers, rfl⟩

theorem storeAll_append {schedule : Schedule} {id : BufferId} {first second : List (Record (Sample Float))}
    {d d' : Delivering} :
    storeAll schedule id (first ++ second) d = .ok d' ↔
      ∃ d₁, storeAll schedule id first d = .ok d₁ ∧ storeAll schedule id second d₁ = .ok d' := by
  induction first generalizing d with
  | nil => simp [storeAll]
  | cons r rest ih =>
    simp only [List.cons_append, storeAll]
    split
    · simp
    · exact ih

/-- Evaluating and storing in turns succeeds if evaluating everything does and then storing everything does. -/
theorem storeMetrics_eq_ok {schedule : Schedule} {e : Evaluator} {base : BaseSamples} {metrics : List String}
    {d d' : Delivering} :
    storeMetrics schedule 1 e base metrics d = .ok d' ↔ ∃ requested, requestedSamples e base metrics = .ok requested ∧
      storeAll schedule 1 (requested.map recordOf) d = .ok d' := by
  induction metrics generalizing d with
  | nil => simp [storeMetrics, requestedSamples, storeAll]
  | cons name rest ih =>
    have hrecords : ∀ (m : Metric) (samples : Records Float), (samples.map fun v => (m.id, v)).map recordOf =
        samples.map (sampleRecord m.id) := fun m samples => List.map_map
    simp only [storeMetrics, bind_eq_ok_iff, mapError_eq_ok, ih]
    constructor
    · rintro ⟨m, hm, samples, hsamples, d₁, hfirst, others, hothers, hsecond⟩
      refine ⟨_, requestedSamples_cons.mpr ⟨m, samples, others, hm, hsamples, hothers, rfl⟩, ?_⟩
      rw [List.map_append, hrecords]
      exact storeAll_append.mpr ⟨d₁, hfirst, hsecond⟩
    · rintro ⟨requested, hrequested, hstore⟩
      obtain ⟨m, samples, others, hm, hsamples, hothers, rfl⟩ := requestedSamples_cons.mp hrequested
      rw [List.map_append, hrecords] at hstore
      obtain ⟨d₁, hfirst, hsecond⟩ := storeAll_append.mp hstore
      exact ⟨m, hm, samples, hsamples, d₁, hfirst, others, hothers, hsecond⟩

/-! ### The whole delivery -/

/-- The service of the program when its buffer is configured. -/
def opened (settings : Settings) : Service (Sample Float) :=
  (({} : Service (Sample Float)).allocate.1.configure 1 settings).1

theorem configure_first (hfault : settings.fault? = none) :
    ({} : Service (Sample Float)).allocate.1.configure 1 settings = (opened settings, .ok ()) ∧
      ∃ handles, (opened settings).buffer? 1 = some (.ofSettings 1 settings handles) := by
  have hnew : ({} : Service (Sample Float)).allocate.1.lookup? 1 = some none := rfl
  unfold opened
  simp only [configure, hfault, hnew]
  exact ⟨trivial, _, rfl⟩

theorem carries_opened (hfault : settings.fault? = none) : ∃ s, s.service = opened settings ∧ Carries settings s [] := by
  obtain ⟨hconfigure, handles, hb⟩ := configure_first hfault
  let first : Session (Sample Float) := ofReplies []
  let second := first.after ({} : Service (Sample Float)).allocate.1 .allocate (.ok (.allocated 1))
  let third := second.after (opened settings) (.configure 1 settings) (.ok .done)
  have hallocate : first.Reaches second := reaches_answered rfl rfl
  have hreaches : first.Reaches third := hallocate.trans (reaches_answered rfl (by
    simp only [receive]
    rw [show second.service.configure 1 settings = (opened settings, .ok ()) from hconfigure]
    rfl))
  obtain ⟨events, hrun⟩ := hreaches
  have hregular : first.Regular := regular_ofReplies []
  have huntouched : first.Untouched := untouched_ofReplies []
  refine ⟨third, rfl, ?_⟩
  refine ⟨?_, ?_, ?_, ?_, Or.inl ⟨_, hb, Buffer.made_ofSettings 1 settings handles⟩,
    rfl, rfl, fun _ _ => rfl⟩ <;> rw [← hrun]
  · exact (balanced_ofReplies fun _ h => (by cases h)).run events
  · exact hregular.run events
  · exact huntouched.run hregular events
  · exact (counted_ofReplies []).run hregular huntouched events

/-- The steps of a delivery that succeeds. -/
structure Delivers (schedule : Schedule) (settings : Settings) (requested : List (Nat × Sample Float))
    (delivered : Delivered) (d : Delivering) (service : Service (Sample Float)) : Prop where
  stores : storeAll schedule 1 (requested.map recordOf) ⟨opened settings, 0⟩ = .ok d
  drops : d.service.dropCount 1 = .ok delivered.drops
  destroys : d.service.destroy 1 = (service, .ok ())
  samples : Delivered.samplesOf service.log = delivered.samples
  telemetry : service.telemetry = delivered.telemetry

theorem deliver_refused {cause : SettingsError} (hfault : settings.fault? = some cause) (schedule : Schedule)
    (e : Evaluator) (base : BaseSamples) (metrics : List String) :
    deliver schedule settings e base metrics = .error (.ofBuffer (.invalidSettings 1 cause)) := by
  simp only [deliver, configure, hfault]
  rfl

theorem deliver_opened (hfault : settings.fault? = none) (schedule : Schedule) (e : Evaluator) (base : BaseSamples)
    (metrics : List String) :
    deliver schedule settings e base metrics = do
      let d ← storeMetrics schedule 1 e base metrics ⟨opened settings, 0⟩
      let drops ← (d.service.dropCount 1).mapError Failure.ofBuffer
      (d.service.destroy 1).2.mapError Failure.ofBuffer
      return ⟨Delivered.samplesOf (d.service.destroy 1).1.log, drops, (d.service.destroy 1).1.telemetry⟩ := by
  have hallocate : ({} : Service (Sample Float)).allocate = (({} : Service (Sample Float)).allocate.1, 1) := rfl
  unfold deliver
  rw [hallocate]
  simp only [(configure_first hfault).1]
  rfl

/-- A delivery succeeds if each of its steps does. -/
theorem deliver_eq_ok {schedule : Schedule} {e : Evaluator} {base : BaseSamples} {metrics : List String}
    {delivered : Delivered} :
    deliver schedule settings e base metrics = .ok delivered ↔ settings.fault? = none ∧
      ∃ requested d service, requestedSamples e base metrics = .ok requested ∧
        Delivers schedule settings requested delivered d service := by
  cases hfault : settings.fault? with
  | some cause => simp [deliver_refused hfault]
  | none =>
    simp only [deliver_opened hfault, bind_eq_ok_iff, mapError_eq_ok, storeMetrics_eq_ok]
    constructor
    · rintro ⟨d, ⟨requested, hrequested, hstores⟩, drops, hdrops, _, hdestroy, h⟩
      cases h
      exact ⟨trivial, requested, d, _, hrequested, hstores, hdrops, Prod.ext rfl hdestroy, rfl, rfl⟩
    · rintro ⟨-, requested, d, service, hrequested, hstores, hdrops, hdestroy, hsamples, htelemetry⟩
      refine ⟨d, ⟨requested, hrequested, hstores⟩, delivered.drops, hdrops, (), by rw [hdestroy], ?_⟩
      rw [hdestroy]
      simp only [hsamples, htelemetry]
      rfl

theorem recordOf_aligned {requested : List (Nat × Sample Float)} :
    ∀ r ∈ requested.map recordOf, r.type.align ∈ alignments := fun r hr => by
  obtain ⟨x, -, rfl⟩ := List.mem_map.mp hr
  simp [recordOf, sampleRecord, sampleType, alignments]

/-- The samples that were stored come in order; the others were dropped. -/
theorem kept_samples {requested : List (Nat × Sample Float)} (h : outcomes.map Prod.fst = requested.map recordOf) :
    ((outcomes.filterMap kept?).filterMap sampleOf?).Sublist requested ∧
      ((outcomes.filterMap kept?).filterMap sampleOf?).length + outcomes.countP (fun x => x.2 == .dropped) =
        requested.length := by
  induction outcomes generalizing requested with
  | nil =>
    cases requested with
    | nil => exact ⟨.slnil, rfl⟩
    | cons x rest => cases h
  | cons o outcomes ih =>
    cases requested with
    | nil => cases h
    | cons x requested =>
      obtain ⟨r, outcome⟩ := o
      obtain ⟨rfl, hrest⟩ := List.cons.inj h
      obtain ⟨hsub, hcount⟩ := ih hrest
      cases outcome with
      | stored =>
        have hsample : sampleOf? (recordOf x) = some x := sampleOf?_sampleRecord x.1 x.2
        simp only [List.filterMap_cons, kept?, hsample, List.length_cons]
        exact ⟨hsub.cons_cons x, by rw [← hcount, List.countP_cons]; simp; omega⟩
      | dropped =>
        simp only [List.filterMap_cons, kept?, List.length_cons]
        exact ⟨hsub.cons x, by rw [← hcount, List.countP_cons]; simp; omega⟩

/-- What is delivered are requested samples, in order. The others were dropped and counted, and a lossless buffer
drops none. -/
theorem deliver_accounts {schedule : Schedule} {e : Evaluator} {base : BaseSamples} {metrics : List String}
    {delivered : Delivered} (h : deliver schedule settings e base metrics = .ok delivered) :
    ∃ requested, requestedSamples e base metrics = .ok requested ∧ delivered.samples.Sublist requested ∧
      delivered.samples.length + delivered.drops = requested.length ∧
      (settings.policy = .lossless → delivered.drops = 0) := by
  obtain ⟨hfault, requested, d, service, hrequested, hd⟩ := deliver_eq_ok.mp h
  obtain ⟨s, hs, hcarries⟩ := carries_opened hfault
  obtain ⟨s', outcomes, hs', hcarries', houtcomes⟩ := storeAll_carries schedule hcarries hs recordOf_aligned hd.stores
  have hdestroys := hd.destroys
  have hdrops := hd.drops
  rw [← hs'] at hdestroys hdrops
  rw [List.nil_append] at hcarries'
  have hsamples := hcarries'.destroy hdestroys
  rw [hd.samples] at hsamples
  obtain ⟨hsub, hcount⟩ := kept_samples houtcomes
  obtain ⟨b, hb, hdrops⟩ : ∃ b, s'.service.buffer? 1 = some b ∧ b.drops = delivered.drops := by
    unfold dropCount at hdrops
    cases hb : s'.service.configured 1 with
    | error e => rw [hb] at hdrops; cases hdrops
    | ok b =>
      rw [hb] at hdrops
      exact ⟨b, configured_eq_ok.mp hb, Except.ok.inj hdrops⟩
  obtain ⟨hcounted, hlossless⟩ := hcarries'.counted 1 b hb
  rw [hdrops, hcarries'.emplaced] at hcounted
  rw [hdrops, (hcarries'.bound.made hb).settings_eq] at hlossless
  refine ⟨requested, hrequested, by rwa [hsamples], ?_, hlossless⟩
  rw [hsamples, hcounted, hcount]

theorem isSome_progress {service : Service (Sample Float)} (hs : service.Sound) (schedule : Schedule) (stores : Nat) :
    ((Delivering.progress schedule 1 ⟨service, stores⟩).buffer? 1).isSome = (service.buffer? 1).isSome := by
  unfold Delivering.progress
  cases schedule stores with
  | wait => rfl
  | enter => exact (Turned.enter hs 1 1).isSome
  | finish => exact (Turned.finish hs 1 1).isSome

/-- A lossless buffer that is large enough stores every sample. -/
theorem storeAll_lossless (schedule : Schedule) (hpolicy : settings.policy = .lossless)
    (hsize : sampleType.size ≤ settings.size) (requested : List (Nat × Sample Float)) {d : Delivering}
    (h : Carries settings s outcomes) (hs : s.service = d.service) (hexists : (s.service.buffer? 1).isSome = true) :
    ∃ d', storeAll schedule 1 (requested.map recordOf) d = .ok d' ∧ (d'.service.buffer? 1).isSome = true := by
  induction requested generalizing s outcomes d with
  | nil => exact ⟨d, rfl, by rwa [← hs]⟩
  | cons x rest ih =>
    obtain ⟨b, hb⟩ := Option.isSome_iff_exists.mp hexists
    have hmade := h.bound.made hb
    have halign : (recordOf x).type.align ∈ alignments := by simp [recordOf, sampleRecord, sampleType, alignments]
    have hcan : b.canHold (recordOf x).type = true := by
      have hfits : (40 : Nat) ≤ settings.size := hsize
      rw [Buffer.canHold_current (h.regular.sound.sound hb), RecordBuffer.canHold, hmade.capacity_eq]
      simp [recordOf, sampleRecord, sampleType, RecordType.footprint, RecordType.minFootprint]
      omega
    obtain ⟨hstored, hstill⟩ := emplace_lossless halign h.balanced.orderly hb (by rw [hmade.settings_eq, hpolicy]) hcan
    have hcall : s.service.emplace 1 (recordOf x) =
        ((s.service.emplace 1 (recordOf x)).1, .ok .stored) := Prod.ext rfl hstored
    have hafter := h.emplace halign hcall
    obtain ⟨s', hs', h'⟩ := hafter.progress schedule d.stores
    simp only [List.map_cons, storeAll]
    rw [← hs, hcall]
    refine ih h' hs' ?_
    rw [hs', isSome_progress hafter.regular.sound]
    exact hstill

/-- A lossless buffer that is large enough delivers all that is requested. -/
theorem deliver_lossless (schedule : Schedule) {e : Evaluator} {base : BaseSamples} {metrics : List String}
    {requested : List (Nat × Sample Float)} (hrequested : requestedSamples e base metrics = .ok requested)
    (hfault : settings.fault? = none) (hpolicy : settings.policy = .lossless) (hsize : sampleType.size ≤ settings.size) :
    ∃ delivered, deliver schedule settings e base metrics = .ok delivered ∧ delivered.samples = requested ∧
      delivered.drops = 0 := by
  obtain ⟨s, hs, hcarries⟩ := carries_opened hfault
  obtain ⟨-, handles, hb⟩ := configure_first hfault
  obtain ⟨d, hstores, hexists⟩ := storeAll_lossless schedule hpolicy hsize requested (d := ⟨opened settings, 0⟩) hcarries hs
    (by rw [hs, hb]; rfl)
  obtain ⟨s', outcomes, hs', hcarries', -⟩ := storeAll_carries schedule hcarries hs recordOf_aligned hstores
  obtain ⟨b, hb⟩ := Option.isSome_iff_exists.mp hexists
  have hdestroys : (d.service.destroy 1).2 = .ok () := by
    rw [← hs'] at hb ⊢
    exact destroy_ok hcarries'.balanced.orderly hb
  have hdrops : d.service.dropCount 1 = .ok b.drops := by rw [dropCount, configured_eq_ok.mpr hb]; rfl
  have hdelivers : deliver schedule settings e base metrics =
      .ok ⟨Delivered.samplesOf (d.service.destroy 1).1.log, b.drops, (d.service.destroy 1).1.telemetry⟩ :=
    deliver_eq_ok.mpr ⟨hfault, requested, d, _, hrequested, hstores, hdrops, Prod.ext rfl hdestroys, rfl, rfl⟩
  obtain ⟨requested', hrequested', hsub, hcount, hlossless⟩ := deliver_accounts hdelivers
  obtain rfl := Except.ok.inj (hrequested.symm.trans hrequested')
  have hnone := hlossless hpolicy
  rw [hnone, Nat.add_zero] at hcount
  exact ⟨_, hdelivers, hsub.eq_of_length hcount, hnone⟩

end CommandLine

end PerfCounters
