import PerfCounters.Proofs.Buffering.Postings

/-! The series of a buffer and what other buffers do to them. They are shown from when the buffer is made until its
    label is removed, which only destroying a buffer of this label does; and whether they are shown or not, they count
    what becomes of its records and drains. -/

namespace PerfCounters

open Service

variable {α : Type}

/-- What is shown under the label, in the tables and in the text. -/
def Telemetry.Renders (t : Telemetry Nat) (label : String) (r : Readings) : Prop :=
  t.readings? label = some r ∧ ∀ line ∈ r.lines label, line ∈ t.lines

theorem Telemetry.renders {t : Telemetry Nat} {label : String} {r : Readings} (h : t.readings? label = some r) :
    t.Renders label r :=
  ⟨h, mem_lines h⟩

namespace Session

variable {s s' : Session α} {id : BufferId} {b b' : Buffer α} {e : Event α} {events : List (Event α)}
  {handles : SeriesHandles} {label : String}

/-! ### Where postings come from -/

/-- What posts in an event: a buffer that is made, a buffer whose record or drain is tallied, or a call that destroys
a buffer. -/
inductive Origin (s : Session α) (e : Event α) : Posting → Prop where
  | made (label : String) : s.Origin e (.made label)
  | tallied {id : BufferId} {b : Buffer α} (hb : s.service.buffer? id = some b) (n : Tally) :
      s.Origin e (.tallied id b.handles n)
  | removed {p : Pending α} {gone : BufferId} {g : Buffer α} (he : e = .advance) (hp : s.pending = some p)
      (hcall : p.call = .destroy gone) (hg : s.service.buffer? gone = some g) : s.Origin e (.removed g.label)

theorem origin {x : Posting} (hregular : s.Regular) (h : s.posting? e = some x) : s.Origin e x := by
  cases e with
  | begin call =>
    cases call with
    | configure target settings =>
      simp only [posting?] at h
      split at h
      · cases h
        exact .made _
      · cases h
    | allocate | emplace | flush | flushAll | destroy => cases h
  | advance =>
    obtain ⟨p, hp, hposting⟩ := Option.bind_eq_some_iff.mp h
    unfold Pending.posting? at hposting
    split at hposting
    · obtain ⟨b, hb, htally⟩ := Option.bind_eq_some_iff.mp hposting
      obtain ⟨n, -, rfl⟩ := Option.map_eq_some_iff.mp htally
      exact .tallied hb n
    · rename_i gone hstage
      split at hposting
      · rename_i g _ hg _
        cases hposting
        exact .removed rfl hp ((hregular.prompt p hp).destroys (by rw [hstage]; rfl)) hg
      · cases hposting
    · cases hposting
  | enter target => cases h
  | finish target =>
    rcases drained?_cases hregular.sound target with ⟨hnone, -⟩ | ⟨b, n, seconds, hb, hsome, -⟩
    · cases hnone.symm.trans h
    · cases hsome.symm.trans h
      exact .tallied hb _

/-- Every posting of a run comes from one of its events. -/
theorem exists_origin {x : Posting} (hregular : s.Regular) (h : x ∈ s.postings events) :
    ∃ first e rest, events = first ++ e :: rest ∧ (s.run first).Origin e x := by
  induction events generalizing s with
  | nil => cases h
  | cons e events ih =>
    rcases List.mem_append.mp h with h | h
    · exact ⟨[], e, events, rfl, origin hregular (Option.mem_toList.mp h)⟩
    · obtain ⟨first, e', rest, rfl, horigin⟩ := ih (hregular.step e) h
      exact ⟨e :: first, e', rest, rfl, horigin⟩

/-- A buffer counts in the same series as long as it is there. -/
theorem handles_of_tallied {n : Tally} (hregular : s.Regular) (hb : s.service.buffer? id = some b)
    (h : .tallied id handles n ∈ s.postings events) : handles = b.handles := by
  obtain ⟨first, e, rest, -, horigin⟩ := exists_origin hregular h
  cases horigin with
  | tallied hb' =>
    have hstays : s.Stays id b.CountsAs := Or.inl ⟨b, hb, rfl, rfl⟩
    exact ((hstays.run (Buffer.lasting_countsAs b) hregular first).holds hb').handles

/-! ### Every buffer has its series -/

/-- The tables go in step, and every buffer holds a place under its label. -/
structure Labelled (s : Session α) : Prop where
  inStep : s.service.telemetry.InStep
  holder : ∀ {id b}, s.service.buffer? id = some b → s.service.telemetry.Holder b.label b.handles

theorem labelled_ofReplies (replies : List Reply) : (ofReplies replies : Session α).Labelled :=
  ⟨Telemetry.inStep_empty, fun h => by cases h⟩

/-- A buffer that is there after an event was there before, or was made by it. -/
theorem made_or_before (hregular : s.Regular) (hb' : (s.step e).service.buffer? id = some b') :
    (∃ b, s.service.buffer? id = some b ∧ b.CountsAs b') ∨ Configured s.service (s.step e).service id := by
  cases hb : s.service.buffer? id with
  | some b =>
    have hstays : s.Stays id b.CountsAs := Or.inl ⟨b, hb, rfl, rfl⟩
    exact Or.inl ⟨b, rfl, (hstays.step (Buffer.lasting_countsAs b) hregular e).holds hb'⟩
  | none =>
    cases (hregular.happens e).changes hregular.sound id with
    | turned hturned =>
      have hsome := hturned.isSome
      rw [hb, hb'] at hsome
      cases hsome
    | configured hnew => exact Or.inr hnew
    | forgotten _ hnone => rw [hnone] at hb'; cases hb'
    | stored hb'' => rw [hb] at hb''; cases hb''
    | dropped hb'' => rw [hb] at hb''; cases hb''

/-- A buffer that was just made holds a place, and its series are shown. -/
theorem Labelled.configured (h : s.Labelled) (hnew : Configured s.service s'.service id)
    (hb' : s'.service.buffer? id = some b') :
    s'.service.telemetry.Holder b'.label b'.handles ∧ s'.service.telemetry.Shows b'.label b'.handles := by
  obtain ⟨settings, handles, -, hb, htelemetry⟩ := hnew.buffer
  obtain rfl := Option.some.inj (hb'.symm.trans hb)
  have hmade := h.inStep.holder_made (settings.label id)
  rwa [htelemetry] at hmade

theorem Labelled.step (h : s.Labelled) (hregular : s.Regular) (e : Event α) : (s.step e).Labelled := by
  have htelemetry := (posts_step hregular e).telemetry
  refine ⟨by rw [htelemetry]; exact h.inStep.postAll _, fun {id b'} hb' => ?_⟩
  rcases made_or_before hregular hb' with ⟨b, hb, hcounts⟩ | hnew
  · rw [htelemetry, hcounts.label, hcounts.handles]
    exact (h.holder hb).postAll _
  · exact (h.configured hnew hb').1

theorem Labelled.run (h : s.Labelled) (hregular : s.Regular) (events : List (Event α)) : (s.run events).Labelled :=
  hregular.run_keeps Labelled.step h events

theorem Labelled.placed (h : s.Labelled) (hregular : s.Regular) : ∀ x ∈ s.postings events, x.Placed := by
  intro x hx
  obtain ⟨first, e, rest, -, horigin⟩ := exists_origin hregular hx
  cases horigin with
  | made | removed => trivial
  | tallied hb n =>
    obtain ⟨place, hplace, -⟩ := (h.run hregular first).holder hb
    exact ⟨place, hplace⟩

/-! ### Runs -/

/-- What becomes of the series of a buffer in a run, whatever is called and whichever drains go on. -/
structure Tracks (s : Session α) (id : BufferId) (b : Buffer α) (events : List (Event α)) : Prop where
  /-- The buffer keeps its label and its series. -/
  kept : ∀ {b'}, (s.run events).service.buffer? id = some b' → b.CountsAs b'
  shown : (s.run events).service.telemetry.Shows b.label b.handles ↔
    s.service.telemetry.Shows b.label b.handles ∧ .removed b.label ∉ s.postings events
  /-- Nothing but a call that destroys a buffer of this label removes it. -/
  removed : .removed b.label ∈ s.postings events → ∃ first rest p gone g, events = first ++ .advance :: rest ∧
    (s.run first).pending = some p ∧ p.call = .destroy gone ∧ (s.run first).service.buffer? gone = some g ∧
    g.label = b.label
  /-- While they are shown, they show what was tallied in them since. -/
  counted : (s.run events).service.telemetry.Shows b.label b.handles → ∃ r, s.service.telemetry.Renders b.label r ∧
    (s.run events).service.telemetry.Renders b.label
      (((s.postings events).filterMap (Posting.tallyIn? b.handles)).foldl Readings.after r)
  /-- What is tallied of this buffer is tallied in them. -/
  own : ∀ x ∈ s.postings events, ∀ n, x.tallyBy? id = some n → x.tallyIn? b.handles = some n
  posts : s.Posts (s.run events) (s.postings events)

theorem tracks (hregular : s.Regular) (hlabelled : s.Labelled) (hb : s.service.buffer? id = some b)
    (events : List (Event α)) : s.Tracks id b events := by
  have hposts := posts_run hregular events
  have hholder := hlabelled.holder hb
  have hshown : (s.run events).service.telemetry.Shows b.label b.handles ↔
      s.service.telemetry.Shows b.label b.handles ∧ .removed b.label ∉ s.postings events := by
    rw [hposts.telemetry]
    exact Telemetry.shows_postAll hlabelled.inStep hholder _
  refine ⟨fun hb' => ?_, hshown, fun hremoved => ?_, fun hshows => ?_, fun x hx n hn => ?_, hposts⟩
  · have hstays : s.Stays id b.CountsAs := Or.inl ⟨b, hb, rfl, rfl⟩
    exact (hstays.run (Buffer.lasting_countsAs b) hregular events).holds hb'
  · generalize hx : Posting.removed b.label = x at hremoved
    obtain ⟨first, e, rest, rfl, horigin⟩ := exists_origin hregular hremoved
    cases horigin with
    | made | tallied => cases hx
    | removed he hp hcall hg =>
      subst he
      exact ⟨first, rest, _, _, _, rfl, hp, hcall, hg, (Posting.removed.inj hx).symm⟩
  · obtain ⟨hbefore, hnot⟩ := hshown.mp hshows
    obtain ⟨r, hr, hr'⟩ := Telemetry.readings_postAll hlabelled.inStep hholder (hlabelled.placed hregular) hbefore hnot
    rw [← hposts.telemetry] at hr'
    exact ⟨r, Telemetry.renders hr, Telemetry.renders hr'⟩
  · cases x with
    | made | removed => cases hn
    | tallied target handles m =>
      simp only [Posting.tallyBy?] at hn
      split at hn
      · rename_i heq
        subst heq
        rw [handles_of_tallied hregular hb hx]
        simpa [Posting.tallyIn?] using hn
      · cases hn

/-- The buffer was made by some event of the run, with its series shown; they are shown unless its label was removed
since. -/
def ShownSince (s : Session α) (events : List (Event α)) (id : BufferId) (b : Buffer α) : Prop :=
  ∃ first e more settings, events = first ++ e :: more ∧ (s.run first).service.buffer? id = none ∧
    ((s.run first).step e).service.buffer? id = some (.ofSettings id settings b.handles) ∧ settings.label id = b.label ∧
    ((s.run first).step e).service.telemetry.Shows b.label b.handles ∧
    ((s.run events).service.telemetry.Shows b.label b.handles ↔ .removed b.label ∉ ((s.run first).step e).postings more)

theorem run_append_cons (s : Session α) (first : List (Event α)) (e : Event α) (more : List (Event α)) :
    s.run (first ++ e :: more) = ((s.run first).step e).run more := run_append s first (e :: more)

/-- Where there was no buffer before, one that is there was made on the way. -/
theorem exists_configured (hregular : s.Regular) (hnone : s.service.buffer? id = none)
    (hb : (s.run events).service.buffer? id = some b) :
    ∃ first e more, events = first ++ e :: more ∧ Configured (s.run first).service ((s.run first).step e).service id := by
  induction events generalizing s with
  | nil =>
    rw [run_nil, hnone] at hb
    cases hb
  | cons e events ih =>
    cases hb' : (s.step e).service.buffer? id with
    | some b' =>
      rcases made_or_before hregular hb' with ⟨b, hb, -⟩ | hnew
      · rw [hnone] at hb
        cases hb
      · exact ⟨[], e, events, rfl, hnew⟩
    | none =>
      obtain ⟨first, e', more, rfl, hnew⟩ := ih (hregular.step e) hb' hb
      exact ⟨e :: first, e', more, rfl, hnew⟩

theorem shownSince (hregular : s.Regular) (hlabelled : s.Labelled) (hnone : s.service.buffer? id = none)
    (hb : (s.run events).service.buffer? id = some b) : s.ShownSince events id b := by
  obtain ⟨first, e, more, rfl, hnew⟩ := exists_configured hregular hnone hb
  have hregular' := hregular.run first
  have hlabelled' := hlabelled.run hregular first
  obtain ⟨settings, handles, -, hmade, -⟩ := hnew.buffer
  have hshown := (hlabelled'.configured hnew hmade).2
  have htracks := tracks (hregular'.step e) (hlabelled'.step hregular' e) hmade more
  rw [run_append_cons] at hb
  have hcounts := htracks.kept hb
  have hshown' := htracks.shown
  rw [← hcounts.label, ← hcounts.handles] at hshown hshown'
  refine ⟨first, e, more, settings, rfl, by rw [buffer?, hnew.unset]; rfl, ?_, hcounts.label.symm, hshown, ?_⟩
  · rw [hcounts.handles]
    exact hmade
  · rw [run_append_cons, hshown', and_iff_right hshown]

end Session

/-! ### Destroying a buffer -/

namespace Service

variable {s s' s'' : Service α} {id gone : BufferId} {b b' : Buffer α}

/-- Only tallies of one buffer were posted, which is still there. -/
structure Tallies (s s' : Service α) (id : BufferId) (b : Buffer α) : Prop where
  sound : s'.Sound
  buffer : ∃ b', s'.buffer? id = some b' ∧ b.CountsAs b'
  telemetry : ∃ xs, s'.telemetry = s.telemetry.postAll xs ∧ ∀ x ∈ xs, ∃ n, x = .tallied id b.handles n

theorem Tallies.refl (hs : s.Sound) (hb : s.buffer? id = some b) : s.Tallies s id b :=
  ⟨hs, ⟨b, hb, rfl, rfl⟩, [], rfl, fun _ h => by cases h⟩

theorem Tallies.trans (h : s.Tallies s' id b) (hcounts : b.CountsAs b') (h' : s'.Tallies s'' id b') :
    s.Tallies s'' id b := by
  obtain ⟨xs, hxs, htallied⟩ := h.telemetry
  obtain ⟨ys, hys, htallied'⟩ := h'.telemetry
  obtain ⟨b'', hb'', hcounts'⟩ := h'.buffer
  rw [hcounts.handles] at htallied'
  exact ⟨h'.sound, ⟨b'', hb'', hcounts.trans hcounts'⟩, xs ++ ys, by rw [hys, hxs, Telemetry.postAll_append],
    List.forall_mem_append.mpr ⟨htallied, htallied'⟩⟩

theorem tallies_start (hs : s.Sound) (hb : s.buffer? id = some b) (hd : b.drain = none) : s.Tallies (s.start b) id b := by
  have hrep := replaces_start (s := s) (b := b) (by rwa [hs.named hb])
  have hself := hrep.self
  have hid : b.id = id := hs.named hb
  rw [show b.startDrain.id = id from hid] at hself
  exact ⟨hs.replaces hrep (Buffer.sound_startDrain (hs.sound hb) hd), ⟨_, hself, rfl, rfl⟩, [], rfl,
    fun _ h => by cases h⟩

theorem tallies_finish (hs : s.Sound) (hb : s.buffer? id = some b) : s.Tallies (s.finish id).1 id b := by
  obtain ⟨hentered, -⟩ := Buffer.enterDrain_kept (hs.sound hb)
  have hsound : (s.finish id).1.Sound := by
    rcases finish_cases hs id with ⟨heq, -⟩ | ⟨b', batch, h⟩
    · rw [heq]
      exact hs.replaces (replaces_enter hs hb) hentered
    · obtain rfl := Option.some.inj (hb.symm.trans h.buffer)
      exact hs.replaces h.replaces (Buffer.endDrain_kept hentered h.entered _).1
  refine ⟨hsound, ?_, ?_⟩
  · cases Turned.finish hs id id with
    | absent hnone => rw [hnone] at hb; cases hb
    | buffer hb' hb'' hturns =>
      obtain rfl := Option.some.inj (hb.symm.trans hb')
      exact ⟨_, hb'', (Buffer.lasting_countsAs b).turns ⟨rfl, rfl⟩ (hs.sound hb) hturns⟩
  · rcases drained?_cases hs id with ⟨-, htelemetry, -⟩ | ⟨b', n, seconds, hb', -, htelemetry, -⟩
    · exact ⟨[], htelemetry, fun _ h => by cases h⟩
    · obtain rfl := Option.some.inj (hb.symm.trans hb')
      exact ⟨[.tallied id b.handles (.drained n seconds)], htelemetry, fun x hx => ⟨_, List.mem_singleton.mp hx⟩⟩

/-- A call that waits for a drain of its own posts what this drain and the one before deliver. -/
theorem tallies_flushBuffer (hs : s.Sound) (hb : s.buffer? id = some b) : s.Tallies (s.flushBuffer b true).1 id b := by
  have hid := hs.named hb
  have hidled : s.Tallies (s.idled b) id b := by
    unfold idled
    split
    · rw [hid]
      exact tallies_finish hs hb
    · exact .refl hs hb
  -- No drain is in flight now, so its own one starts, and ends.
  obtain ⟨b₁, hrep, -, hkeeps, hnone, -⟩ := idled_spec hs hb
  have hid₁ : b₁.id = id := hkeeps.id.trans hid
  have hb₁ := hrep.self
  rw [hid₁] at hb₁
  obtain ⟨b₁', hb₁', hcounts⟩ := hidled.buffer
  obtain rfl := Option.some.inj (hb₁.symm.trans hb₁')
  have hstarted := tallies_start hidled.sound hb₁ hnone
  obtain ⟨b₂, hb₂, hcounts₂⟩ := hstarted.buffer
  rw [flushBuffer_eq hid hid₁ hb₁]
  exact (hidled.trans hcounts hstarted).trans (hcounts.trans hcounts₂) (tallies_finish hstarted.sound hb₂)

theorem tallies_drainBoth (hs : s.Sound) (hb : s.buffer? id = some b) : s.Tallies (s.drainBoth id).1 id b := by
  have hflush : ∀ {s : Service α} {b}, s.Sound → s.buffer? id = some b → s.Tallies (s.flush id true).1 id b :=
    fun hs hb => by
      simp only [flush, configured_eq_ok.mpr hb]
      exact tallies_flushBuffer hs hb
  have hfirst := hflush hs hb
  unfold drainBoth
  cases hcall : s.flush id true with
  | mk s₁ outcome =>
    rw [hcall] at hfirst
    cases outcome with
    | error e => exact hfirst
    | ok _ =>
      obtain ⟨b₁, hb₁, hcounts⟩ := hfirst.buffer
      exact hfirst.trans hcounts (hflush hfirst.sound hb₁)

/-- A buffer is drained and forgotten, and its label removed if all was delivered. -/
theorem destroy_configured {g : Buffer α} (hg : s.buffer? gone = some g) :
    ((s.drainBoth gone).2 = .ok () ∧ s.destroy gone = ({ (s.drainBoth gone).1 with
        telemetry := (s.drainBoth gone).1.telemetry.removeBuffer g.label }.unregister gone, .ok ())) ∨
      ∃ e, (s.drainBoth gone).2 = .error e ∧ s.destroy gone = ((s.drainBoth gone).1.unregister gone, .error e) := by
  simp only [destroy, lookup?_of_buffer? hg]
  cases s.drainBoth gone with
  | mk s₁ outcome =>
    cases outcome with
    | error e => exact Or.inr ⟨e, rfl, rfl⟩
    | ok _ => exact Or.inl ⟨rfl, rfl⟩

theorem destroy_unconfigured (hnone : s.buffer? gone = none) :
    (s.destroy gone).1 = s ∨ (s.destroy gone).1 = s.unregister gone := by
  unfold destroy
  split
  · exact Or.inl rfl
  · exact Or.inr rfl
  · rename_i g hlookup
    rw [buffer?, hlookup] at hnone
    cases hnone

theorem buffer?_destroy_of_ne (hs : s.Sound) (hne : id ≠ gone) : (s.destroy gone).1.buffer? id = s.buffer? id := by
  have hunregister : ∀ t : Service α, (t.unregister gone).buffer? id = t.buffer? id := fun t =>
    (buffer?_unregister t gone id).trans (if_neg hne)
  cases hg : s.buffer? gone with
  | none =>
    rcases destroy_unconfigured hg with heq | heq
    · rw [heq]
    · rw [heq, hunregister]
  | some g =>
    obtain ⟨g', hrep, -, hid, -⟩ := drainBoth_waited hs hg
    have hother : (s.drainBoth gone).1.buffer? id = s.buffer? id := hrep.other (by rwa [hid])
    rcases destroy_configured hg with ⟨-, heq⟩ | ⟨e, -, heq⟩ <;> rw [heq] <;> exact (hunregister _).trans hother

/-- Destroying the buffer delivers all it holds, and so removes this label. -/
structure Removes (s : Service α) (gone : BufferId) (label : String) : Prop where
  labelled : ∃ g, s.buffer? gone = some g ∧ g.label = label
  delivered : (s.destroy gone).2 = .ok ()

theorem removes_iff {label : String} {g : Buffer α} (hg : s.buffer? gone = some g) :
    s.Removes gone label ↔ (s.destroy gone).2 = .ok () ∧ g.label = label := by
  refine ⟨?_, fun h => ⟨⟨g, hg, h.2⟩, h.1⟩⟩
  rintro ⟨⟨g', hg', hlabel⟩, hok⟩
  obtain rfl := Option.some.inj (hg.symm.trans hg')
  exact ⟨hok, hlabel⟩

theorem Removes.telemetry {label : String} (h : s.Removes gone label) :
    ∃ t : Telemetry Nat, (s.destroy gone).1.telemetry = t.removeBuffer label := by
  obtain ⟨⟨g, hg, rfl⟩, hdelivered⟩ := h
  rcases destroy_configured hg with ⟨-, heq⟩ | ⟨e, -, heq⟩
  · rw [heq]
    exact ⟨_, rfl⟩
  · rw [heq] at hdelivered
    cases hdelivered

/-- Destroying a buffer posts what its drains deliver, and then removes its label if that was all of it. -/
theorem destroy_posts (hs : s.Sound) (gone : BufferId) :
    ∃ xs, (s.destroy gone).1.telemetry = s.telemetry.postAll xs ∧ (∀ label, .removed label ∈ xs ↔ s.Removes gone label) ∧
      ∀ x ∈ xs, (∃ label, x = .removed label) ∨ ∃ g n, s.buffer? gone = some g ∧ x = .tallied gone g.handles n := by
  cases hg : s.buffer? gone with
  | none =>
    refine ⟨[], ?_, fun label => ⟨fun h => (by cases h), fun h => ?_⟩, fun x h => by cases h⟩
    · rcases destroy_unconfigured hg with heq | heq <;> rw [heq] <;> rfl
    · obtain ⟨g, hg', -⟩ := h.labelled
      rw [hg] at hg'
      cases hg'
  | some g =>
    obtain ⟨xs, htelemetry, htallied⟩ := (tallies_drainBoth hs hg).telemetry
    have hnot : ∀ label, .removed label ∉ xs := fun label hmem => by
      obtain ⟨n, heq⟩ := htallied _ hmem
      cases heq
    have hxs : ∀ x ∈ xs, (∃ label, x = .removed label) ∨ ∃ g' n, some g = some g' ∧ x = .tallied gone g'.handles n := by
      intro x hx
      obtain ⟨n, rfl⟩ := htallied x hx
      exact Or.inr ⟨g, n, rfl, rfl⟩
    simp only [removes_iff hg]
    rcases destroy_configured hg with ⟨-, heq⟩ | ⟨e, -, heq⟩
    · rw [heq]
      refine ⟨xs ++ [.removed g.label], ?_, fun label => ?_, List.forall_mem_append.mpr ⟨hxs, fun x hx => ?_⟩⟩
      · rw [Telemetry.postAll_append, ← htelemetry]
        rfl
      · simp [hnot, eq_comm]
      · exact Or.inl ⟨_, List.mem_singleton.mp hx⟩
    · rw [heq]
      exact ⟨xs, htelemetry, fun label => ⟨fun h => absurd h (hnot label), fun h => by cases h.1⟩, hxs⟩

/-- What destroying a buffer leaves of the telemetry of another one. -/
structure Spares (s : Service α) (gone id : BufferId) (b : Buffer α) : Prop where
  still : (s.destroy gone).1.buffer? id = some b
  /-- The series are shown as before unless their label is removed. -/
  shown : (s.destroy gone).1.telemetry.Shows b.label b.handles ↔
    s.telemetry.Shows b.label b.handles ∧ ¬s.Removes gone b.label
  /-- Then no number of them is lower than before, and with another label they are the same. -/
  readings : (s.destroy gone).1.telemetry.Shows b.label b.handles →
    ∃ r r', s.telemetry.Renders b.label r ∧ (s.destroy gone).1.telemetry.Renders b.label r' ∧ r.AtMost r' ∧
      ((∀ g, s.buffer? gone = some g → g.label ≠ b.label) → r' = r)
  hidden : s.Removes gone b.label → (s.destroy gone).1.telemetry.Hides b.label

end Service

namespace Session

variable {s : Session α} {gone id : BufferId} {b : Buffer α}

theorem spares (hregular : s.Regular) (hlabelled : s.Labelled) (hb : s.service.buffer? id = some b) (hne : id ≠ gone) :
    s.service.Spares gone id b := by
  obtain ⟨xs, htelemetry, hremoved, hxs⟩ := destroy_posts hregular.sound gone
  have hholder := hlabelled.holder hb
  have hplaced : ∀ x ∈ xs, x.Placed := fun x hx => by
    rcases hxs x hx with ⟨label, rfl⟩ | ⟨g, n, hg, rfl⟩
    · trivial
    · obtain ⟨place, hplace, -⟩ := hlabelled.holder hg
      exact ⟨place, hplace⟩
  have hshown : (s.service.destroy gone).1.telemetry.Shows b.label b.handles ↔
      s.service.telemetry.Shows b.label b.handles ∧ ¬s.service.Removes gone b.label := by
    rw [htelemetry, Telemetry.shows_postAll hlabelled.inStep hholder, hremoved]
  refine ⟨(buffer?_destroy_of_ne hregular.sound hne).trans hb, hshown, fun hshows => ?_, fun hremoves => ?_⟩
  · obtain ⟨hbefore, hnot⟩ := hshown.mp hshows
    obtain ⟨r, hr, hr'⟩ :=
      Telemetry.readings_postAll hlabelled.inStep hholder hplaced hbefore fun h => hnot ((hremoved _).mp h)
    rw [← htelemetry] at hr'
    refine ⟨r, _, Telemetry.renders hr, Telemetry.renders hr', r.atMost_foldl _, fun hother => ?_⟩
    -- The series of the buffer that goes are shown under its own label only, so they are others than these.
    have hnone : xs.filterMap (Posting.tallyIn? b.handles) = [] := List.filterMap_eq_nil_iff.mpr fun x hx => by
      rcases hxs x hx with ⟨label, rfl⟩ | ⟨g, n, hg, rfl⟩
      · rfl
      · refine if_neg fun hsame => hother g hg ?_
        exact ((hlabelled.holder hg).label_eq (hsame ▸ hbefore)).symm
    rw [hnone, List.foldl_nil]
  · obtain ⟨t, ht⟩ := hremoves.telemetry
    have hstep : (s.service.destroy gone).1.telemetry.InStep := by
      rw [htelemetry]
      exact hlabelled.inStep.postAll xs
    exact hstep.hides (by rw [ht]; exact t.readings?_removeBuffer _)

/-- Whatever was called before, and whichever drains went on: a buffer's series are shown from when it is made until a
buffer of the same label is destroyed with all it held delivered. Destroying any other one leaves them as they are; one
of the same label whose drain fails adds what it delivered. And in every run they count what becomes of the records and
drains of their buffer. -/
theorem run_destroy_spares_series (replies : List Reply) (before : List (Event α)) {id : BufferId} {b : Buffer α}
    (hb : ((ofReplies replies : Session α).run before).service.buffer? id = some b) :
    let s := (ofReplies replies : Session α).run before
    (ofReplies replies : Session α).ShownSince before id b ∧ (∀ gone, id ≠ gone → s.service.Spares gone id b) ∧
      (∀ events, s.Tracks id b events) ∧
      (s.pending = none → ∀ gone, ∃ events, (s.run events).service = (s.service.destroy gone).1) := by
  intro s
  have hregular := regular_ofReplies (α := α) replies
  have hlabelled := labelled_ofReplies (α := α) replies
  have hregular' : s.Regular := hregular.run before
  have hlabelled' : s.Labelled := hlabelled.run hregular before
  refine ⟨shownSince hregular hlabelled rfl hb, fun gone hne => spares hregular' hlabelled' hb hne,
    tracks hregular' hlabelled' hb, fun hidle gone => ?_⟩
  obtain ⟨events, hevents⟩ := reaches_destroy hidle hregular'.sound gone
  exact ⟨events, by rw [hevents]; rfl⟩

/-- Two buffers with one label and a third one with its own; the second and the third have a record each. -/
def sharedLabel : List (Event Nat) :=
  let settings := fun name => ({ name, size := 16 } : Settings)
  let record : Record Nat := ⟨3, 5, ⟨"u64", 8, 8⟩, 1⟩
  [.begin .allocate, .advance, .begin .allocate, .advance, .begin .allocate, .advance,
    .begin (.configure 1 (settings "x")), .advance, .begin (.configure 2 (settings "x")), .advance,
    .begin (.configure 3 (settings "y")), .advance,
    .begin (.emplace 2 record), .advance, .advance, .advance, .begin (.emplace 3 record), .advance, .advance, .advance]

theorem destroy_hides_sharedLabel :
    let s := (ofReplies [] : Session Nat).run sharedLabel
    (∃ b, s.service.buffer? 2 = some b ∧ b.label = "x" ∧ s.service.telemetry.Shows b.label b.handles ∧
        (s.service.destroy 1).1.buffer? 2 = some b ∧ (s.service.destroy 1).1.telemetry.Hides b.label) ∧
      ∃ b r, s.service.buffer? 3 = some b ∧ b.label = "y" ∧ r.emplaced = 1 ∧
        s.service.telemetry.Renders b.label r ∧ (s.service.destroy 1).1.telemetry.Renders b.label r := by
  intro s
  have hfind : ∀ id label handles, (s.service.buffer? id).map (fun b => (b.label, b.handles)) = some (label, handles) →
      ∃ b, s.service.buffer? id = some b ∧ b.label = label ∧ b.handles = handles := fun _ _ _ h => by
    obtain ⟨b, hb, heq⟩ := Option.map_eq_some_iff.mp h
    cases heq
    exact ⟨b, hb, rfl, rfl⟩
  obtain ⟨g, hg, hglabel, -⟩ := hfind 1 "x" (.at 0) (by decide +kernel)
  obtain ⟨b, hb, hlabel, hhandles⟩ := hfind 2 "x" (.at 0) (by decide +kernel)
  obtain ⟨c, hc, hclabel, hchandles⟩ := hfind 3 "y" (.at 1) (by decide +kernel)
  have hok : (s.service.destroy 1).2 = .ok () := by decide +kernel
  have hshows : s.service.telemetry.Shows b.label b.handles := by
    rw [hlabel, hhandles]
    exact ⟨by decide +kernel, by decide +kernel, by decide +kernel, by decide +kernel⟩
  have hshows' : s.service.telemetry.Shows c.label c.handles := by
    rw [hclabel, hchandles]
    exact ⟨by decide +kernel, by decide +kernel, by decide +kernel, by decide +kernel⟩
  obtain ⟨-, hspares, -⟩ := run_destroy_spares_series [] sharedLabel hb
  obtain ⟨-, hspares', -⟩ := run_destroy_spares_series [] sharedLabel hc
  have hx := hspares 1 (by decide)
  have hy := hspares' 1 (by decide)
  have hother : ∀ g', s.service.buffer? 1 = some g' → g'.label ≠ c.label := fun g' hg' => by
    obtain rfl := Option.some.inj (hg.symm.trans hg')
    rw [hglabel, hclabel]
    decide
  obtain ⟨r, r', hr, hr', -, hsame⟩ := hy.readings (hy.shown.mpr ⟨hshows', fun h => by
    obtain ⟨⟨g', hg', heq⟩, -⟩ := h
    exact hother g' hg' heq⟩)
  obtain rfl := hsame hother
  have hremoves : s.service.Removes 1 b.label := ⟨⟨g, hg, hglabel.trans hlabel.symm⟩, hok⟩
  refine ⟨⟨b, hb, hlabel, hshows, hx.still, hx.hidden hremoves⟩, c, r', hc, hclabel, ?_, hr, hr'⟩
  have hone : (s.service.telemetry.readings? "y").map Readings.emplaced = some 1 := by decide +kernel
  rw [← hclabel, hr.1] at hone
  exact Option.some.inj hone

end Session

end PerfCounters
