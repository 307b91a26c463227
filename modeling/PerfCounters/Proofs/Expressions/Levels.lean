import PerfCounters.Proofs.Expressions.Agreement
import PerfCounters.Proofs.Expressions.Machine

/-! The levels of the readers. A call that waits was entered with fewer levels than the one it waits for, or with as
    many but later in the order of the readers. So a reader that is entered again is entered deeper, the
    counter never falls below what a waiting call was entered with, and no reader is entered often. -/

namespace PerfCounters.Parser

open Grammar Token

/-- The frame waits for `r`, which was entered with `d` levels. -/
inductive Awaits : Frame → Reader → Nat → Prop where
  | first {c n} : Awaits ⟨.chain c none, n⟩ c.operand n
  | next {c left n d} (deeper : n < d) : Awaits ⟨.chain c (some left), n⟩ c.operand d
  | negation {n} : Awaits ⟨.negation, n⟩ .unary (n + 1)
  | operand {n} : Awaits ⟨.operand, n⟩ .factor n
  | parens {n} : Awaits ⟨.parens, n⟩ .expr (n + 1)
  | call {n r} : Awaits ⟨.call, n⟩ r (n + 1)
  | reduce {n} : Awaits ⟨.reduce, n⟩ .expr n
  | select {n} : Awaits ⟨.select, n⟩ .expr n

/-- Each call waits for the one before it, and the first for `r`. The last was entered with `start` levels. -/
inductive Stacked (start : Nat) : List Frame → Reader → Nat → Prop where
  | nil {r} : Stacked start [] r start
  | cons {f calls r d} (awaits : Awaits f r d) (rest : Stacked start calls f.reader f.entered) :
      Stacked start (f :: calls) r d

section
variable {start d : Nat} {f : Frame} {calls : List Frame} {r : Reader}

theorem Awaits.descends (h : Awaits f r d) : f.entered < d ∨ f.entered = d ∧ r.rank < f.reader.rank := by
  cases h with
  | first => exact .inr ⟨rfl, Chain.rank_lt _⟩
  | next deeper => exact .inl deeper
  | negation | parens | call => exact .inl (Nat.lt_succ_self _)
  | operand => exact .inr ⟨rfl, (by decide : Reader.factor.rank < Reader.unary.rank)⟩
  | reduce => exact .inr ⟨rfl, (by decide : Reader.expr.rank < Reader.reduce.rank)⟩
  | select => exact .inr ⟨rfl, (by decide : Reader.expr.rank < Reader.select.rank)⟩

theorem Stacked.descends (h : Stacked start calls r d) :
    ∀ f ∈ calls, f.entered < d ∨ f.entered = d ∧ r.rank < f.reader.rank := by
  induction h with
  | nil => exact fun f hf => nomatch hf
  | cons awaits _ ih =>
    refine List.forall_mem_cons.mpr ⟨awaits.descends, fun g hg => ?_⟩
    have hf := awaits.descends
    have hg := ih g hg
    omega

theorem Stacked.start_le (h : Stacked start calls r d) : start ≤ d := by
  induction h with
  | nil => exact Nat.le_refl _
  | cons awaits _ ih =>
    have := awaits.descends
    omega

/-- Where a reader waits twice, it was entered deeper the second time. -/
theorem Stacked.pairwise (h : Stacked start calls r d) :
    calls.Pairwise fun inner outer => inner.reader = outer.reader → outer.entered < inner.entered := by
  induction h with
  | nil => exact .nil
  | cons _ rest ih =>
    refine .cons (fun g hg hreader => ?_) ih
    have := rest.descends g hg
    rw [hreader] at this
    omega

/-- A reader does not wait more often than there are levels, but for once if it comes later in the order. -/
theorem Stacked.count_le (h : Stacked start calls r d) (q : Reader) :
    (calls.map Frame.reader).count q + start ≤ d + if r.rank < q.rank then 1 else 0 := by
  induction h with
  | nil => simp
  | @cons f calls r d awaits _ ih =>
    have hbelow := awaits.descends
    rw [List.map_cons, List.count_cons]
    by_cases hq : f.reader = q
    · subst hq
      simp only [beq_self_eq_true, if_true, Nat.lt_irrefl, if_false] at ih ⊢
      split <;> omega
    · simp only [beq_iff_eq, hq, if_false]
      split at ih <;> split <;> omega

theorem Stacked.count_cons_le (h : Stacked start calls r d) (q : Reader) :
    (r :: calls.map Frame.reader).count q + start ≤ d + 1 := by
  have hcount := h.count_le q
  rw [List.count_cons]
  by_cases hq : r = q
  · subst hq
    simp only [beq_self_eq_true, if_true, Nat.lt_irrefl, if_false] at hcount ⊢
    omega
  · simp only [beq_iff_eq, hq, if_false]
    split at hcount <;> omega

end

/-! ### What a step keeps -/

namespace Machine

/-- The calls that wait fit to the counter. An error leaves the counter where it was when it was raised. -/
inductive Kept (start : Nat) : Machine → Prop where
  | enter {r calls ts d} (stacked : Stacked start calls r d) : Kept start ⟨.enter r, calls, ts, d⟩
  | ok {e r calls ts d} (stacked : Stacked start calls r d) : Kept start ⟨.leave (.ok e), calls, ts, d⟩
  | error {e r calls ts d d'} (stacked : Stacked start calls r d) (le : d ≤ d') :
      Kept start ⟨.leave (.error e), calls, ts, d'⟩

/-- What a step with `d` levels may lead to: to one more level if there is room for it. -/
structure Next (start d : Nat) (m : Machine) : Prop where
  kept : Kept start m
  raised : m.depth ≤ d ∨ d < maxNesting ∧ m.depth = d + 1

section
variable {start d entered offset : Nat} {f : Frame} {calls : List Frame} {r : Reader} {c : Chain} {m : Machine}
  {control : Control} {ts : List Token} {e : Expr}

theorem Kept.stay (h : Kept start m) (hdepth : m.depth ≤ d) : Next start d m := ⟨h, .inl hdepth⟩

theorem next_fail (h : Stacked start calls r entered) (hle : entered ≤ d) (e : SyntaxError) :
    Next start d (fail ⟨control, calls, ts, d⟩ e) :=
  (Kept.error h hle).stay (Nat.le_refl _)

theorem next_settle (h : Stacked start calls r d) (x : Except SyntaxError (Expr × List Token)) :
    Next start d (settle ⟨control, calls, ts, d⟩ x) := by
  cases x with
  | ok x => exact (Kept.ok h).stay (Nat.le_refl _)
  | error e => exact next_fail h (Nat.le_refl _) e

theorem next_deeper {enter : Machine → Machine} (h : Stacked start calls r entered) (hle : entered ≤ d)
    (henter : Kept start (enter ⟨control, calls, ts, d + 1⟩))
    (hdepth : (enter ⟨control, calls, ts, d + 1⟩).depth = d + 1) :
    Next start d (deeper ⟨control, calls, ts, d⟩ offset enter) := by
  rw [deeper]
  split
  · rename_i hroom
    exact ⟨henter, .inr ⟨hroom, hdepth⟩⟩
  · exact next_fail h hle _

/-- A loop puts the counter back, wherever its operands left it. -/
theorem next_chain (h : Stacked start calls c.reader entered) (hle : entered ≤ d) (lhs : Expr) :
    Next start d (chain ⟨control, calls, ts, d⟩ c entered lhs) := by
  rw [chain]
  split
  · exact next_deeper h hle (.enter (.cons (.next (Nat.lt_succ_of_le hle)) h)) rfl
  · exact (Kept.ok h).stay hle

theorem next_argument (h : Stacked start calls f.reader d) (hawaits : Stacked start (f :: calls) .expr d) :
    Next start d (argument ⟨control, calls, ts, d⟩ f) := by
  rw [argument]
  split
  · exact (Kept.enter hawaits).stay (Nat.le_refl _)
  · exact next_fail h (Nat.le_refl _) _

theorem next_enter (h : Stacked start calls r d) : Next start d (enter ⟨control, calls, ts, d⟩ r) := by
  cases r with
  | expr => exact (Kept.enter (.cons (.first (c := .sum)) h)).stay (Nat.le_refl _)
  | term => exact (Kept.enter (.cons (.first (c := .product)) h)).stay (Nat.le_refl _)
  | unary =>
    rw [enter]
    split
    · exact next_deeper h (Nat.le_refl _) (.enter (.cons .negation h)) rfl
    · exact (Kept.enter (.cons .operand h)).stay (Nat.le_refl _)
  | factor =>
    rw [enter]
    split
    · split
      · exact next_settle h _
      · exact next_fail h (Nat.le_refl _) _
    · exact next_deeper h (Nat.le_refl _) (.enter (.cons .parens h)) rfl
    · rename_i text offset at' rest heq
      refine next_deeper h (Nat.le_refl _) ?_ ?_
      · rcases Reader.ofName? text with _ | r
        · exact .error h (Nat.le_succ _)
        · exact .enter (.cons .call h)
      · rcases Reader.ofName? text with _ | r <;> rfl
    · exact next_settle h _
    · exact next_settle h _
  | reduce => exact next_argument h (.cons .reduce h)
  | select => exact next_argument h (.cons .select h)
  | accumulate => exact next_settle h _

/-- The counter is not at zero where a call lowers it, since it was raised for that call. -/
theorem next_resume (hawaits : Awaits f r d) (h : Stacked start calls f.reader f.entered) :
    Next start d (resume ⟨.leave (.ok e), calls, ts, d⟩ f e) := by
  cases hawaits with
  | first => exact next_chain h (Nat.le_refl _) _
  | next deeper => exact next_chain h (Nat.le_of_lt deeper) _
  | negation => exact (Kept.ok h).stay (Nat.le_succ _)
  | operand => exact (Kept.ok h).stay (Nat.le_refl _)
  | parens =>
    simp only [resume]
    split
    · exact (Kept.ok h).stay (Nat.le_succ _)
    · exact next_fail h (Nat.le_succ _) _
  | call => exact (Kept.ok h).stay (Nat.le_succ _)
  | reduce => exact next_settle h _
  | select => exact next_settle h _

theorem Kept.step (h : Kept start m) : Next start m.depth m.step := by
  cases h with
  | enter stacked => exact next_enter stacked
  | ok stacked =>
    cases stacked with
    | nil => exact (Kept.ok (.nil (r := .expr))).stay (Nat.le_refl _)
    | cons awaits rest => exact next_resume awaits rest
  | error stacked le =>
    cases stacked with
    | nil => exact (Kept.error (.nil (r := .expr)) le).stay (Nat.le_refl _)
    | cons awaits rest =>
      have hentered := awaits.descends
      exact (Kept.error rest (Nat.le_trans (by omega) le)).stay (Nat.le_refl _)

theorem Kept.run (h : Kept start m) (hdepth : m.depth ≤ maxNesting) (n : Nat) :
    Kept start (Machine.step^[n] m) ∧ (Machine.step^[n] m).depth ≤ maxNesting := by
  induction n with
  | zero => exact ⟨h, hdepth⟩
  | succ n ih =>
    rw [Function.iterate_succ_apply']
    have hnext := ih.1.step
    refine ⟨hnext.kept, ?_⟩
    have := hnext.raised
    omega

end

/-! ### Whole runs -/

/-- The readers that are at work: the one that is entered, and those that wait. -/
def readers (m : Machine) : List Reader :=
  match m.control with
  | .enter r => r :: m.calls.map Frame.reader
  | _ => m.calls.map Frame.reader

/-- What holds at every moment of a run that began with `start` levels. -/
structure Disciplined (start : Nat) (m : Machine) : Prop where
  le_maxNesting : m.depth ≤ maxNesting
  start_le : start ≤ m.depth
  entered_le : ∀ f ∈ m.calls, f.entered ≤ m.depth
  noUnderflow : m.control ≠ .underflow
  /-- The counter is raised by one, and only where there is room for it. -/
  raised : m.step.depth ≤ m.depth ∨ m.depth < maxNesting ∧ m.step.depth = m.depth + 1
  /-- A reader that waits was entered with fewer levels than it is entered with again. -/
  again : ∀ r, m.control = .enter r → ∀ f ∈ m.calls, f.reader = r → f.entered < m.depth
  nested : m.calls.Pairwise fun inner outer => inner.reader = outer.reader → outer.entered < inner.entered
  atWork : ∀ r, m.readers.count r ≤ maxNesting - start + 1

section
variable {start : Nat} {m : Machine}

theorem Kept.stacked (h : Kept start m) : ∃ r d, Stacked start m.calls r d ∧ d ≤ m.depth ∧
    (∀ q, m.control = .enter q → q = r ∧ d = m.depth) ∧ m.readers.Sublist (r :: m.calls.map Frame.reader) := by
  cases h with
  | @enter r calls ts d stacked =>
    refine ⟨r, d, stacked, Nat.le_refl _, fun q hq => ?_, .refl _⟩
    cases hq
    exact ⟨rfl, rfl⟩
  | @ok e r calls ts d stacked => exact ⟨r, d, stacked, Nat.le_refl _, nofun, List.sublist_cons_self _ _⟩
  | @error e r calls ts d d' stacked le => exact ⟨r, d, stacked, le, nofun, List.sublist_cons_self _ _⟩

theorem Kept.disciplined (h : Kept start m) (hdepth : m.depth ≤ maxNesting) : Disciplined start m := by
  obtain ⟨r, d, hstacked, hd, henter, hreaders⟩ := h.stacked
  have hentered := hstacked.descends
  refine ⟨hdepth, hstacked.start_le.trans hd, fun f hf => ?_, ?_, h.step.raised, ?_, hstacked.pairwise, fun q => ?_⟩
  · have := hentered f hf
    omega
  · cases h <;> exact nofun
  · intro q hq f hf hreader
    obtain ⟨rfl, rfl⟩ := henter q hq
    have := hentered f hf
    rw [hreader] at this
    omega
  · have hcount := hreaders.count_le q
    have := hstacked.count_cons_le q
    omega

end

end Machine

/-! ### What a reader ends with -/

theorem consumed_of_spells {ts rest : List Token} {us : List Lexeme} (h : Spells ts us rest) (hus : us ≠ []) :
    ∃ used, used ≠ [] ∧ ts = used ++ rest := by
  obtain ⟨used, rfl, rfl⟩ := h
  exact ⟨used, fun hused => hus (by rw [hused, List.map_nil]), rfl⟩

/-- The phrases that are read before any operator. -/
def opens : Phrase → Bool
  | .summands _ | .factors _ => false
  | .expr | .term | .unary | .factor => true

theorem ne_nil_of_derives {p : Phrase} {n : Nat} {us : List Lexeme} {e : Expr} (h : Derives p n us e)
    (hp : opens p = true) : us ≠ [] := by
  induction h with
  | expr _ _ ih _ | term _ _ ih _ => exact List.append_ne_nil_of_left_ne_nil (ih rfl) _
  | sum | product => cases hp
  | unsigned _ ih => exact ih rfl
  | _ => exact List.cons_ne_nil _ _

theorem Reads.consumed {p : Phrase} {depth : Nat} {ts rest : List Token} {e : Expr} (h : Reads p depth ts e rest)
    (hp : opens p = true) : ∃ used, used ≠ [] ∧ ts = used ++ rest := by
  obtain ⟨us, hspells, hderives⟩ := h
  exact consumed_of_spells hspells (ne_nil_of_derives hderives hp)

/-- A call takes its parenthesis at the least. -/
theorem consumed_argument {depth : Nat} {ts rest : List Token} {e : Expr}
    {k : Expr → List Token → Except SyntaxError (Expr × List Token)}
    (hk : ∀ child more, k child more = .ok (e, rest) → ∃ us, Spells more us rest)
    (h : (expect .leftParen ts >>= fun inside => expr depth inside >>= fun r => k r.1 r.2) = .ok (e, rest)) :
    ∃ used, used ≠ [] ∧ ts = used ++ rest := by
  obtain ⟨inside, hparen, hinside⟩ := bind_eq_ok h
  obtain ⟨offset, rfl⟩ := expect_eq_ok.mp hparen
  obtain ⟨⟨child, more⟩, hchild, hmore⟩ := bind_eq_ok hinside
  obtain ⟨us, hus, -⟩ := reads_expr _ _ hchild
  obtain ⟨vs, hvs⟩ := hk child more hmore
  exact consumed_of_spells (.cons offset (hus.append hvs)) (List.cons_ne_nil _ _)

theorem Reader.consumes {r : Reader} {depth : Nat} {ts rest : List Token} {e : Expr}
    (h : r.answer depth ts = .ok (e, rest)) : ∃ used, used ≠ [] ∧ ts = used ++ rest := by
  cases r with
  | expr => exact (reads_expr _ _ h).consumed rfl
  | term => exact (reads_term _ _ h).consumed rfl
  | unary => exact (reads_unary _ _ h).consumed rfl
  | factor => exact (reads_factor _ _ h).consumed rfl
  | reduce =>
    refine consumed_argument (fun child more hmore => ?_) h
    obtain ⟨op, vs, ds, -, -, hvs⟩ := reduceRest_eq_ok.mp hmore
    exact ⟨_, hvs⟩
  | select =>
    refine consumed_argument (fun child more hmore => ?_) h
    obtain ⟨vs, written, filters, -, -, -, hvs⟩ := selectRest_eq_ok.mp hmore
    exact ⟨_, hvs⟩
  | accumulate =>
    obtain ⟨metric, mode, -, hspells⟩ := accumulateCall_eq_ok.mp h
    exact consumed_of_spells hspells (List.cons_ne_nil _ _)

/-- The machine stops with what the reader answers: with the levels that it began with and without some of the tokens,
    or with an error. -/
def Finishes (r : Reader) (depth : Nat) (ts : List Token) : Prop :=
  (∃ e rest, r.answer depth ts = .ok (e, rest) ∧
    Machine.Reaches ⟨.enter r, [], ts, depth⟩ ⟨.leave (.ok e), [], rest, depth⟩ ∧
    ∃ used, used ≠ [] ∧ ts = used ++ rest) ∨
  (∃ e rest d, r.answer depth ts = .error e ∧
    Machine.Reaches ⟨.enter r, [], ts, depth⟩ ⟨.leave (.error e), [], rest, d⟩)

theorem finishes (r : Reader) (depth : Nat) (ts : List Token) : Finishes r depth ts := by
  have hreturns := runs r depth ts []
  rcases hanswer : r.answer depth ts with e | ⟨e, rest⟩
  · rw [hanswer] at hreturns
    obtain ⟨rest, d, hreaches⟩ := hreturns
    exact .inr ⟨e, rest, d, hanswer, hreaches⟩
  · rw [hanswer] at hreturns
    exact .inl ⟨e, rest, hanswer, hreturns, Reader.consumes hanswer⟩

/-- Every reader comes to an end from any tokens and any levels, and all the way there the counter keeps within its
    limits, is lowered only where it was raised, and is raised before a reader is entered again. -/
theorem reader_disciplined (r : Reader) (ts : List Token) {depth : Nat} (h : depth ≤ maxNesting) :
    Finishes r depth ts ∧ ∀ n, (Machine.step^[n] ⟨.enter r, [], ts, depth⟩).Disciplined depth := by
  refine ⟨finishes r depth ts, fun n => ?_⟩
  have hstart : Machine.Kept depth ⟨.enter r, [], ts, depth⟩ := .enter .nil
  obtain ⟨hkept, hdepth⟩ := hstart.run h n
  exact hkept.disciplined hdepth

/-- A name behind a minus, read with all levels but one in use. -/
theorem negation_disciplined :
    let ts : List Token := [⟨.sign .minus, 0⟩, ⟨.name "A", 1⟩]
    255 ≤ maxNesting ∧ Finishes .unary 255 ts ∧
      ∀ n, (Machine.step^[n] ⟨.enter .unary, [], ts, 255⟩).Disciplined 255 :=
  have hroom : 255 ≤ maxNesting := by decide
  ⟨hroom, reader_disciplined .unary _ hroom⟩

end PerfCounters.Parser
