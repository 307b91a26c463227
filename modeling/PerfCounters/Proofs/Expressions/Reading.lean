import PerfCounters.Expr.Parser
import PerfCounters.Proofs.Expressions.Grammar

/-! What the readers answer that do not call each other: those of single tokens, of lists, and of what is in
    a call besides its first argument. Each reads what the grammar says, and all that the grammar says. -/

namespace PerfCounters

open Grammar

/-! ### Names -/

theorem ReduceOp.ofName?_name (op : ReduceOp) : ofName? op.name = some op := by cases op <;> decide

theorem AccumulateMode.ofName?_name (mode : AccumulateMode) : ofName? mode.name = some mode := by cases mode <;> decide

theorem Dimension.eq_name {text : String} {d : Dimension} (h : ofName? text = some d) : text = d.name :=
  (beq_iff_eq.mp (List.find?_some (p := fun d : Dimension => d.name == text) h)).symm

theorem ReduceOp.eq_name {text : String} {op : ReduceOp} (h : ofName? text = some op) : text = op.name :=
  (beq_iff_eq.mp (List.find?_some (p := fun op : ReduceOp => op.name == text) h)).symm

theorem AccumulateMode.eq_name {text : String} {mode : AccumulateMode} (h : ofName? text = some mode) : text = mode.name :=
  (beq_iff_eq.mp (List.find?_some (p := fun mode : AccumulateMode => mode.name == text) h)).symm

/-! ### Spelling -/

namespace Token

variable {ts mid rest : List Token} {us vs : List Lexeme} {u : Lexeme}

/-- The tokens begin with these lexemes, and `rest` is behind them. -/
def Spells (ts : List Token) (us : List Lexeme) (rest : List Token) : Prop :=
  ∃ used, ts = used ++ rest ∧ used.map Token.lexeme = us

theorem spells_nil : Spells ts [] rest ↔ ts = rest := by
  simp [Spells]

theorem spells_cons : Spells ts (u :: us) rest ↔ ∃ offset more, ts = ⟨u, offset⟩ :: more ∧ Spells more us rest := by
  constructor
  · rintro ⟨used, rfl, hused⟩
    obtain ⟨⟨_, offset⟩, more, rfl, rfl, hmore⟩ := List.map_eq_cons_iff.mp hused
    exact ⟨offset, more ++ rest, rfl, more, rfl, hmore⟩
  · rintro ⟨offset, more, rfl, used, rfl, hused⟩
    exact ⟨⟨u, offset⟩ :: used, rfl, by rw [List.map_cons, hused]⟩

theorem spells_append : Spells ts (us ++ vs) rest ↔ ∃ mid, Spells ts us mid ∧ Spells mid vs rest := by
  constructor
  · rintro ⟨used, rfl, hused⟩
    obtain ⟨first, second, rfl, hfirst, hsecond⟩ := List.map_eq_append_iff.mp hused
    exact ⟨second ++ rest, ⟨first, List.append_assoc .., hfirst⟩, second, rfl, hsecond⟩
  · rintro ⟨mid, ⟨first, rfl, hfirst⟩, second, rfl, hsecond⟩
    exact ⟨first ++ second, (List.append_assoc ..).symm, by rw [List.map_append, hfirst, hsecond]⟩

theorem Spells.append (h : Spells ts us mid) (h' : Spells mid vs rest) : Spells ts (us ++ vs) rest :=
  spells_append.mpr ⟨mid, h, h'⟩

theorem Spells.cons (offset : Nat) (h : Spells ts us rest) : Spells (⟨u, offset⟩ :: ts) (u :: us) rest :=
  spells_cons.mpr ⟨offset, ts, rfl, h⟩

theorem Spells.refl (ts : List Token) : Spells ts [] ts := spells_nil.mpr rfl

/-- The next token is not this sign. -/
def Not (s : Sign) (ts : List Token) : Prop := ∀ offset more, ts ≠ ⟨.sign s, offset⟩ :: more

end Token

open Token

namespace Parser

variable {ts rest more : List Token} {us : List Lexeme} {s : Sign} {op : BinaryOp} {d : Dimension} {ds : List Dimension}
  {n offset : Nat} {ns : List Nat} {filters result written : Filters} {child lhs e e' : Expr}

/-! ### Single tokens -/

theorem expect_eq_ok : expect s ts = .ok rest ↔ ∃ offset, ts = ⟨.sign s, offset⟩ :: rest := by
  constructor
  · intro h
    unfold expect at h
    split at h
    · split at h
      · rename_i found offset more heq
        cases h
        exact ⟨offset, by rw [heq]⟩
      · cases h
    · cases ts <;> cases h
  · rintro ⟨offset, rfl⟩
    simp [expect]

theorem name_eq_ok {expected text : String} :
    name expected ts = .ok ((text, offset), rest) ↔ ts = ⟨.name text, offset⟩ :: rest := by
  constructor
  · intro h
    unfold name at h
    split at h
    · cases h
      rfl
    · cases ts <;> cases h
  · rintro rfl
    rfl

theorem dimension_eq_ok : dimension ts = .ok (d, rest) ↔ ∃ us, AxisName us d ∧ Spells ts us rest := by
  constructor
  · intro h
    obtain ⟨⟨⟨text, offset⟩, more⟩, hname, h⟩ := bind_eq_ok h
    rw [name_eq_ok.mp hname]
    simp only at h
    split at h
    · rename_i d' hd
      cases h
      rw [Dimension.eq_name hd]
      exact ⟨_, .name, .cons offset (.refl _)⟩
    · cases h
  · rintro ⟨_, ⟨⟩, hspells⟩
    obtain ⟨offset, more, rfl, hmore⟩ := spells_cons.mp hspells
    cases spells_nil.mp hmore
    simp [dimension, name, Dimension.ofName?_name, bind, Except.bind, pure, Except.pure]

theorem selectValue?_eq_some {text : String} :
    selectValue? text = some n ↔ Decimal.readNat? text.toList = some n ∧ n < 2 ^ 64 := by
  rw [selectValue?, Option.filter_eq_some_iff, decide_eq_true_iff, Nat.pow_eq]

theorem selectValue_eq_ok : selectValue ts = .ok (n, rest) ↔ ∃ us, Position us n ∧ Spells ts us rest := by
  constructor
  · intro h
    unfold selectValue at h
    split at h
    · rename_i text offset more
      split at h
      · rename_i m hm
        cases h
        obtain ⟨hreads, hfits⟩ := selectValue?_eq_some.mp hm
        exact ⟨_, .number hreads hfits, .cons offset (.refl _)⟩
      · cases h
    · cases ts <;> cases h
  · rintro ⟨_, ⟨hreads, hfits⟩, hspells⟩
    obtain ⟨offset, more, rfl, hmore⟩ := spells_cons.mp hspells
    cases spells_nil.mp hmore
    simp only [selectValue, selectValue?_eq_some.mpr ⟨hreads, hfits⟩]

theorem additive?_eq_some : additive? s = some op ↔ Additive s op := by
  constructor
  · intro h
    cases s <;> cases h <;> constructor
  · rintro ⟨⟩ <;> rfl

theorem multiplicative?_eq_some : multiplicative? s = some op ↔ Multiplicative s op := by
  constructor
  · intro h
    cases s <;> cases h <;> constructor
  · rintro ⟨⟩ <;> rfl

theorem negated_iff : Negated e e' ↔ negate e = e' := by
  constructor
  · rintro (_ | hne)
    · rfl
    · cases e <;> first | exact absurd rfl (hne _) | rfl
  · rintro rfl
    cases e <;> first | exact .literal | exact .operand fun v heq => by cases heq

/-! ### Dimensions -/

theorem dimensions_more (h : dimension ts = .ok (d, ⟨.sign .comma, offset⟩ :: more)) :
    dimensions ts = (dimensions more).map fun r => (d :: r.1, r.2) := by
  rw [dimensions]
  split <;> rename_i heq <;> rw [h] at heq <;> cases heq
  · cases dimensions more <;> rfl
  · rename_i hnot
    exact (hnot _ _ rfl).elim

theorem dimensions_last (h : dimension ts = .ok (d, rest)) (hrest : Not .comma rest) : dimensions ts = .ok ([d], rest) := by
  rw [dimensions]
  split <;> rename_i heq <;> rw [h] at heq <;> cases heq
  · exact absurd rfl (hrest _ _)
  · rfl

theorem listed_of_dimensions (h : dimensions ts = .ok (ds, rest)) : ∃ us, Listed AxisName us ds ∧ Spells ts us rest := by
  fun_induction dimensions ts generalizing ds rest with
  | case1 ts e hd => cases h
  | case2 ts d offset more hd e hmore ih => cases h
  | case3 ts d offset more hd ds' rest' hmore ih =>
    cases h
    obtain ⟨us, hus, hspells⟩ := dimension_eq_ok.mp hd
    obtain ⟨vs, hvs, hrest⟩ := ih hmore
    exact ⟨_, .more hus hvs, hspells.append (hrest.cons offset)⟩
  | case4 ts d rest' hnot hd =>
    cases h
    obtain ⟨us, hus, hspells⟩ := dimension_eq_ok.mp hd
    exact ⟨us, .last hus, hspells⟩

theorem dimensions_of_listed (h : Listed AxisName us ds) (hspells : Spells ts us rest) (hrest : Not .comma rest) :
    dimensions ts = .ok (ds, rest) := by
  induction h generalizing ts with
  | last item => exact dimensions_last (dimension_eq_ok.mpr ⟨_, item, hspells⟩) hrest
  | more item _ ih =>
    simp only [spells_append, spells_cons] at hspells
    obtain ⟨mid, hfirst, offset, more, rfl, hmore⟩ := hspells
    rw [dimensions_more (dimension_eq_ok.mpr ⟨_, item, hfirst⟩), ih hmore]
    rfl

/-! ### Filters -/

theorem selectValues_more (h : selectValue ts = .ok (n, ⟨.sign .comma, offset⟩ :: more)) :
    selectValues d filters ts = selectValues d (filters.allow d n) more := by
  rw [selectValues]
  split <;> rename_i heq <;> rw [h] at heq <;> cases heq
  · rfl
  · rename_i hnot
    exact (hnot _ _ rfl).elim

theorem selectValues_last (h : selectValue ts = .ok (n, rest)) (hrest : Not .comma rest) :
    selectValues d filters ts = .ok (filters.allow d n, rest) := by
  rw [selectValues]
  split <;> rename_i heq <;> rw [h] at heq <;> cases heq
  · exact absurd rfl (hrest _ _)
  · rfl

theorem listed_of_selectValues (h : selectValues d filters ts = .ok (result, rest)) :
    ∃ us ns, Listed Position us ns ∧ Spells ts us rest ∧ result = filters.allowAll d ns := by
  fun_induction selectValues d filters ts with
  | case1 filters ts e hn => cases h
  | case2 filters ts n offset more hn ih =>
    obtain ⟨us, hus, hspells⟩ := selectValue_eq_ok.mp hn
    obtain ⟨vs, ns, hvs, hrest, heq⟩ := ih h
    exact ⟨_, n :: ns, .more hus hvs, hspells.append (hrest.cons offset), heq⟩
  | case3 filters ts n rest' hnot hn =>
    cases h
    obtain ⟨us, hus, hspells⟩ := selectValue_eq_ok.mp hn
    exact ⟨us, [n], .last hus, hspells, rfl⟩

theorem selectValues_of_listed (h : Listed Position us ns) (hspells : Spells ts us rest) (hrest : Not .comma rest) :
    selectValues d filters ts = .ok (filters.allowAll d ns, rest) := by
  induction h generalizing ts filters with
  | last item => exact selectValues_last (selectValue_eq_ok.mpr ⟨_, item, hspells⟩) hrest
  | more item _ ih =>
    simp only [spells_append, spells_cons] at hspells
    obtain ⟨mid, hfirst, offset, more, rfl, hmore⟩ := hspells
    rw [selectValues_more (selectValue_eq_ok.mpr ⟨_, item, hfirst⟩), ih hmore]
    rfl

theorem filter_eq_ok : filter filters ts = .ok (result, rest) ↔
    ∃ us x, Filter us x ∧ Spells ts us rest ∧ result = filters.allowAll x.1 x.2 := by
  constructor
  · intro h
    obtain ⟨⟨d, afterName⟩, hd, h⟩ := bind_eq_ok h
    obtain ⟨afterEquals, he, h⟩ := bind_eq_ok h
    obtain ⟨values, hl, h⟩ := bind_eq_ok h
    obtain ⟨⟨kept, afterValues⟩, hv, h⟩ := bind_eq_ok h
    obtain ⟨last, hr, h⟩ := bind_eq_ok h
    cases h
    obtain ⟨us, hus, hname⟩ := dimension_eq_ok.mp hd
    obtain ⟨_, rfl⟩ := expect_eq_ok.mp he
    obtain ⟨_, rfl⟩ := expect_eq_ok.mp hl
    obtain ⟨vs, ns, hvs, hvalues, rfl⟩ := listed_of_selectValues hv
    obtain ⟨_, rfl⟩ := expect_eq_ok.mp hr
    exact ⟨_, (d, ns), .positions hus hvs, hname.append (.cons _ (.cons _ (hvalues.append (.cons _ (.refl _))))), rfl⟩
  · rintro ⟨_, ⟨d, ns⟩, ⟨haxis, hpositions⟩, hspells, rfl⟩
    simp only [spells_append, spells_cons, spells_nil] at hspells
    obtain ⟨_, hname, _, _, rfl, _, _, rfl, _, hvalues, _, _, rfl, rfl⟩ := hspells
    have hread : selectValues d filters _ = .ok (filters.allowAll d ns, _) :=
      selectValues_of_listed hpositions hvalues fun _ _ heq => by cases heq
    simp [filter, dimension_eq_ok.mpr ⟨_, haxis, hname⟩, expect, hread, bind, Except.bind, pure, Except.pure]

theorem filterList_more (h : filter filters ts = .ok (result, ⟨.sign .comma, offset⟩ :: more)) :
    filterList filters ts = filterList result more := by
  rw [filterList]
  split <;> rename_i heq <;> rw [h] at heq <;> cases heq
  · rfl
  · rename_i hnot
    exact (hnot _ _ rfl).elim

theorem filterList_last (h : filter filters ts = .ok (result, rest)) (hrest : Not .comma rest) :
    filterList filters ts = .ok (result, rest) := by
  rw [filterList]
  split <;> rename_i heq <;> rw [h] at heq <;> cases heq
  · exact absurd rfl (hrest _ _)
  · rfl

theorem listed_of_filterList (h : filterList filters ts = .ok (result, rest)) :
    ∃ us written, Listed Filter us written ∧ Spells ts us rest ∧ result = Filters.merge written filters := by
  fun_induction filterList filters ts with
  | case1 filters ts e hx => cases h
  | case2 filters ts kept offset more hx ih =>
    obtain ⟨us, x, hus, hspells, rfl⟩ := filter_eq_ok.mp hx
    obtain ⟨vs, written, hvs, hrest, heq⟩ := ih h
    exact ⟨_, x :: written, .more hus hvs, hspells.append (hrest.cons offset), heq⟩
  | case3 filters ts kept rest' hnot hx =>
    cases h
    obtain ⟨us, x, hus, hspells, rfl⟩ := filter_eq_ok.mp hx
    exact ⟨us, [x], .last hus, hspells, rfl⟩

theorem filterList_of_listed (h : Listed Filter us written) (hspells : Spells ts us rest) (hrest : Not .comma rest) :
    filterList filters ts = .ok (Filters.merge written filters, rest) := by
  induction h generalizing ts filters with
  | last item => exact filterList_last (filter_eq_ok.mpr ⟨_, _, item, hspells, rfl⟩) hrest
  | more item _ ih =>
    simp only [spells_append, spells_cons] at hspells
    obtain ⟨mid, hfirst, offset, more, rfl, hmore⟩ := hspells
    rw [filterList_more (filter_eq_ok.mpr ⟨_, _, item, hfirst, rfl⟩), ih hmore]
    rfl

/-! ### Calls -/

theorem accumulateCall_eq_ok : accumulateCall ts = .ok (e, rest) ↔ ∃ metric mode, e = .accumulate metric mode ∧
    Spells ts [.sign .leftParen, .name metric, .sign .comma, .name mode.name, .sign .rightParen] rest := by
  constructor
  · intro h
    obtain ⟨afterParen, hl, h⟩ := bind_eq_ok h
    obtain ⟨⟨⟨metric, _⟩, afterMetric⟩, hm, h⟩ := bind_eq_ok h
    obtain ⟨afterComma, hc, h⟩ := bind_eq_ok h
    obtain ⟨⟨⟨text, _⟩, afterMode⟩, hn, h⟩ := bind_eq_ok h
    simp only at h
    split at h
    · cases h
    · rename_i mode hmode
      obtain ⟨last, hr, h⟩ := bind_eq_ok h
      cases h
      obtain ⟨_, rfl⟩ := expect_eq_ok.mp hl
      cases name_eq_ok.mp hm
      obtain ⟨_, rfl⟩ := expect_eq_ok.mp hc
      cases name_eq_ok.mp hn
      obtain ⟨_, rfl⟩ := expect_eq_ok.mp hr
      rw [AccumulateMode.eq_name hmode]
      exact ⟨metric, mode, rfl, .cons _ (.cons _ (.cons _ (.cons _ (.cons _ (.refl _)))))⟩
  · rintro ⟨metric, mode, rfl, hspells⟩
    simp only [spells_cons, spells_nil] at hspells
    obtain ⟨_, _, rfl, _, _, rfl, _, _, rfl, _, _, rfl, _, _, rfl, rfl⟩ := hspells
    simp [accumulateCall, expect, name, AccumulateMode.ofName?_name, bind, Except.bind, pure, Except.pure]

theorem reduceRest_eq_ok : reduceRest child ts = .ok (e, rest) ↔ ∃ op vs ds, Along vs ds ∧ e = .reduce child op ds ∧
    Spells ts (.sign .comma :: .name op.name :: (vs ++ [.sign .rightParen])) rest := by
  constructor
  · intro h
    obtain ⟨afterComma, hc, h⟩ := bind_eq_ok h
    obtain ⟨⟨⟨text, _⟩, afterName⟩, hn, h⟩ := bind_eq_ok h
    simp only at h
    split at h
    · cases h
    · rename_i op hop
      obtain ⟨_, heq⟩ := expect_eq_ok.mp hc
      rw [heq, name_eq_ok.mp hn, ReduceOp.eq_name hop]
      split at h
      · obtain ⟨afterBracket, hl, h⟩ := bind_eq_ok h
        obtain ⟨⟨ds, afterDimensions⟩, hds, h⟩ := bind_eq_ok h
        obtain ⟨afterAxes, hb, h⟩ := bind_eq_ok h
        obtain ⟨_, hpure, h⟩ := bind_eq_ok h
        cases hpure
        obtain ⟨last, hr, h⟩ := bind_eq_ok h
        cases h
        obtain ⟨_, rfl⟩ := expect_eq_ok.mp hl
        obtain ⟨vs, hvs, hspells⟩ := listed_of_dimensions hds
        obtain ⟨_, rfl⟩ := expect_eq_ok.mp hb
        obtain ⟨_, rfl⟩ := expect_eq_ok.mp hr
        have haxes := hspells.append (.cons _ (.refl _))
        exact ⟨op, _, ds, .axes hvs, rfl, .cons _ (.cons _ (.append (.cons _ (.cons _ haxes)) (.cons _ (.refl _))))⟩
      · obtain ⟨_, hpure, h⟩ := bind_eq_ok h
        cases hpure
        obtain ⟨last, hr, h⟩ := bind_eq_ok h
        cases h
        obtain ⟨_, rfl⟩ := expect_eq_ok.mp hr
        exact ⟨op, [], [], .everything, rfl, .cons _ (.cons _ (.cons _ (.refl _)))⟩
  · rintro ⟨op, vs, ds, (_ | haxes), rfl, hspells⟩
    · simp only [List.nil_append, spells_cons, spells_nil] at hspells
      obtain ⟨_, _, rfl, _, _, rfl, _, _, rfl, rfl⟩ := hspells
      simp [reduceRest, expect, name, ReduceOp.ofName?_name, bind, Except.bind, pure, Except.pure]
    · simp only [List.cons_append, spells_append, spells_cons, spells_nil] at hspells
      obtain ⟨_, _, rfl, _, _, rfl, _, _, rfl, _, _, rfl, _, ⟨_, hspells, _, _, rfl, rfl⟩, _, _, rfl, rfl⟩ := hspells
      have hread := dimensions_of_listed haxes hspells fun _ _ heq => by cases heq
      simp [reduceRest, expect, name, ReduceOp.ofName?_name, hread, bind, Except.bind, pure, Except.pure]

theorem selectRest_eq_ok : selectRest child ts = .ok (e, rest) ↔ ∃ vs written filters, Listed Filter vs written ∧
    filters.Merges written ∧ e = .select child filters ∧
    Spells ts (.sign .comma :: .sign .leftBracket :: (vs ++ [.sign .rightBracket, .sign .rightParen])) rest := by
  constructor
  · intro h
    obtain ⟨afterComma, hc, h⟩ := bind_eq_ok h
    obtain ⟨afterBracket, hl, h⟩ := bind_eq_ok h
    obtain ⟨⟨filters, afterFilters⟩, hf, h⟩ := bind_eq_ok h
    obtain ⟨afterList, hb, h⟩ := bind_eq_ok h
    obtain ⟨last, hr, h⟩ := bind_eq_ok h
    cases h
    obtain ⟨_, rfl⟩ := expect_eq_ok.mp hc
    obtain ⟨_, rfl⟩ := expect_eq_ok.mp hl
    obtain ⟨vs, written, hvs, hspells, rfl⟩ := listed_of_filterList hf
    obtain ⟨_, rfl⟩ := expect_eq_ok.mp hb
    obtain ⟨_, rfl⟩ := expect_eq_ok.mp hr
    exact ⟨vs, written, _, hvs, Filters.merges_merge written, rfl,
      .cons _ (.cons _ (hspells.append (.cons _ (.cons _ (.refl _)))))⟩
  · rintro ⟨vs, written, filters, hvs, hmerges, rfl, hspells⟩
    simp only [spells_append, spells_cons, spells_nil] at hspells
    obtain ⟨_, _, rfl, _, _, rfl, _, hspells, _, _, rfl, _, _, rfl, rfl⟩ := hspells
    have hread : filterList [] _ = .ok (Filters.merge written [], _) :=
      filterList_of_listed hvs hspells fun _ _ heq => by cases heq
    rw [(Filters.merges_merge written).unique hmerges] at hread
    simp [selectRest, expect, hread, bind, Except.bind, pure, Except.pure]

end Parser

end PerfCounters
