import PerfCounters.Proofs.Expressions.Reading

/-! Reading agrees with the grammar. What is read is a phrase of the tokens that were taken, with the tree that
    was answered. And a phrase is read as such wherever it stands, as long as nothing behind it could belong
    to it as well; it is refused only if it enters too many levels. -/

namespace PerfCounters

open Grammar Token

/-- The signs with which a phrase could go on. A name goes on as a call. -/
def Grammar.Phrase.signs : Phrase → List Sign
  | .unary | .factor => [.leftParen]
  | .term | .factors _ => [.leftParen, .star, .slash]
  | .expr | .summands _ => [.leftParen, .star, .slash, .plus, .minus]

namespace Parser

variable {ts rest more : List Token} {us : List Lexeme} {s : Sign} {op : BinaryOp} {lhs e : Expr} {p : Phrase}
  {n offset depth : Nat}

/-! ### From what is read to the grammar -/

/-- The tokens before `rest` are a phrase with the tree `e`, in no more than the levels that are left. -/
def Reads (p : Phrase) (depth : Nat) (ts : List Token) (e : Expr) (rest : List Token) : Prop :=
  ∃ us, Spells ts us rest ∧ Derives p (maxNesting - depth) us e

theorem levels_succ (h : depth < maxNesting) : maxNesting - depth = maxNesting - (depth + 1) + 1 := by omega

theorem Reads.summand {rhs : Expr} (hop : additive? s = some op) (hroom : depth < maxNesting)
    (hr : Reads .term (depth + 1) ts rhs more) (he : Reads (.summands (.binary op lhs rhs)) (depth + 1) more e rest) :
    Reads (.summands lhs) depth (⟨.sign s, offset⟩ :: ts) e rest := by
  obtain ⟨us, hus, hr⟩ := hr
  obtain ⟨vs, hvs, he⟩ := he
  refine ⟨_, .cons offset (hus.append hvs), ?_⟩
  rw [levels_succ hroom]
  exact .summand (additive?_eq_some.mp hop) hr he

theorem Reads.factor {rhs : Expr} (hop : multiplicative? s = some op) (hroom : depth < maxNesting)
    (hr : Reads .unary (depth + 1) ts rhs more) (he : Reads (.factors (.binary op lhs rhs)) (depth + 1) more e rest) :
    Reads (.factors lhs) depth (⟨.sign s, offset⟩ :: ts) e rest := by
  obtain ⟨us, hus, hr⟩ := hr
  obtain ⟨vs, hvs, he⟩ := he
  refine ⟨_, .cons offset (hus.append hvs), ?_⟩
  rw [levels_succ hroom]
  exact .factor (multiplicative?_eq_some.mp hop) hr he

/-! A factor with an expression inside is read as such if that one is. -/

section Factor

variable {offset' : Nat}

theorem reads_parens (hroom : depth < maxNesting)
    (hinner : ∀ {inner last}, expr (depth + 1) more = .ok (inner, last) → Reads .expr (depth + 1) more inner last)
    (h : (do let (inner, last) ← expr (depth + 1) more
             let last ← expect .rightParen last
             return (inner, last)) = .ok (e, rest)) :
    Reads .factor depth (⟨.sign .leftParen, offset⟩ :: more) e rest := by
  obtain ⟨⟨inner, last⟩, hi, h⟩ := bind_eq_ok h
  obtain ⟨last', hr, h⟩ := bind_eq_ok h
  cases h
  obtain ⟨_, rfl⟩ := expect_eq_ok.mp hr
  obtain ⟨us, hus, hderives⟩ := hinner hi
  refine ⟨_, .cons offset (hus.append (.cons _ (.refl _))), ?_⟩
  rw [levels_succ hroom]
  exact .parens hderives

theorem reads_reduce (hroom : depth < maxNesting)
    (hchild : ∀ {child last}, expr (depth + 1) more = .ok (child, last) → Reads .expr (depth + 1) more child last)
    (h : (do let (child, last) ← expr (depth + 1) more
             reduceRest child last) = .ok (e, rest)) :
    Reads .factor depth (⟨.name "reduce", offset⟩ :: ⟨.sign .leftParen, offset'⟩ :: more) e rest := by
  obtain ⟨⟨child, last⟩, hc, h⟩ := bind_eq_ok h
  obtain ⟨us, hus, hderives⟩ := hchild hc
  obtain ⟨op, vs, ds, halong, rfl, hvs⟩ := reduceRest_eq_ok.mp h
  refine ⟨_, .cons offset (.cons offset' (hus.append hvs)), ?_⟩
  rw [levels_succ hroom]
  exact .reduce hderives halong

theorem reads_select (hroom : depth < maxNesting)
    (hchild : ∀ {child last}, expr (depth + 1) more = .ok (child, last) → Reads .expr (depth + 1) more child last)
    (h : (do let (child, last) ← expr (depth + 1) more
             selectRest child last) = .ok (e, rest)) :
    Reads .factor depth (⟨.name "select", offset⟩ :: ⟨.sign .leftParen, offset'⟩ :: more) e rest := by
  obtain ⟨⟨child, last⟩, hc, h⟩ := bind_eq_ok h
  obtain ⟨us, hus, hderives⟩ := hchild hc
  obtain ⟨vs, written, filters, hitems, hmerges, rfl, hvs⟩ := selectRest_eq_ok.mp h
  refine ⟨_, .cons offset (.cons offset' (hus.append hvs)), ?_⟩
  rw [levels_succ hroom]
  exact .select hderives hitems hmerges

theorem reads_accumulate (hroom : depth < maxNesting) (h : accumulateCall more = .ok (e, rest)) :
    Reads .factor depth (⟨.name "accumulate", offset⟩ :: more) e rest := by
  obtain ⟨metric, mode, rfl, hus⟩ := accumulateCall_eq_ok.mp h
  refine ⟨_, .cons offset hus, ?_⟩
  rw [levels_succ hroom]
  exact .accumulate

end Factor

/-! Each reader answers with what the grammar says if those that it calls do. -/

mutual

theorem reads_expr (depth : Nat) (ts : List Token) {e : Expr} {rest : List Token} (h : expr depth ts = .ok (e, rest)) :
    Reads .expr depth ts e rest := by
  rw [expr] at h
  obtain ⟨⟨lhs, more⟩, hl, h⟩ := bind_eq_ok h
  obtain ⟨us, hus, hderives⟩ := reads_term depth ts hl
  obtain ⟨vs, hvs, hrest⟩ := reads_exprTail depth lhs more h
  exact ⟨_, hus.append hvs, .expr hderives hrest⟩
termination_by (maxNesting - depth, 4)

theorem reads_exprTail (depth : Nat) (lhs : Expr) (ts : List Token) {e : Expr} {rest : List Token}
    (h : exprTail depth lhs ts = .ok (e, rest)) : Reads (.summands lhs) depth ts e rest := by
  rw [exprTail.eq_def] at h
  split at h
  · split at h
    · cases h
      exact ⟨[], .refl _, .sum⟩
    · rename_i hop
      split at h
      · rename_i hroom
        obtain ⟨⟨rhs, more⟩, hr, h⟩ := bind_eq_ok h
        exact .summand hop hroom (reads_term (depth + 1) _ hr) (reads_exprTail (depth + 1) _ more h)
      · cases h
  · cases h
    exact ⟨[], .refl _, .sum⟩
termination_by (maxNesting - depth, 0)

theorem reads_term (depth : Nat) (ts : List Token) {e : Expr} {rest : List Token} (h : term depth ts = .ok (e, rest)) :
    Reads .term depth ts e rest := by
  rw [term] at h
  obtain ⟨⟨lhs, more⟩, hl, h⟩ := bind_eq_ok h
  obtain ⟨us, hus, hderives⟩ := reads_unary depth ts hl
  obtain ⟨vs, hvs, hrest⟩ := reads_termTail depth lhs more h
  exact ⟨_, hus.append hvs, .term hderives hrest⟩
termination_by (maxNesting - depth, 3)

theorem reads_termTail (depth : Nat) (lhs : Expr) (ts : List Token) {e : Expr} {rest : List Token}
    (h : termTail depth lhs ts = .ok (e, rest)) : Reads (.factors lhs) depth ts e rest := by
  rw [termTail.eq_def] at h
  split at h
  · split at h
    · cases h
      exact ⟨[], .refl _, .product⟩
    · rename_i hop
      split at h
      · rename_i hroom
        obtain ⟨⟨rhs, more⟩, hr, h⟩ := bind_eq_ok h
        exact .factor hop hroom (reads_unary (depth + 1) _ hr) (reads_termTail (depth + 1) _ more h)
      · cases h
  · cases h
    exact ⟨[], .refl _, .product⟩
termination_by (maxNesting - depth, 0)

theorem reads_unary (depth : Nat) (ts : List Token) {e : Expr} {rest : List Token} (h : unary depth ts = .ok (e, rest)) :
    Reads .unary depth ts e rest := by
  rw [unary.eq_def] at h
  split at h
  · rename_i offset more
    split at h
    · rename_i hroom
      obtain ⟨⟨operand, last⟩, ho, h⟩ := bind_eq_ok h
      cases h
      obtain ⟨us, hus, hderives⟩ := reads_unary (depth + 1) more ho
      refine ⟨_, .cons offset hus, ?_⟩
      rw [levels_succ hroom]
      exact .minus hderives (negated_iff.mpr rfl)
    · cases h
  · obtain ⟨us, hus, hderives⟩ := reads_factor depth ts h
    exact ⟨us, hus, .unsigned hderives⟩
termination_by (maxNesting - depth, 2)

theorem reads_factor (depth : Nat) (ts : List Token) {e : Expr} {rest : List Token} (h : factor depth ts = .ok (e, rest)) :
    Reads .factor depth ts e rest := by
  rw [factor.eq_def] at h
  split at h
  case h_1 text offset more =>
    split at h
    · rename_i hv
      cases h
      exact ⟨_, .cons offset (.refl _), .number hv⟩
    · cases h
  case h_2 offset more =>
    split at h
    case isTrue hroom => exact reads_parens hroom (fun hi => reads_expr (depth + 1) more hi) h
    case isFalse => cases h
  case h_3 text offset offset' more =>
    split at h
    case isTrue hroom =>
      split at h
      case isTrue hname =>
        cases hname
        exact reads_reduce hroom (fun hc => reads_expr (depth + 1) more hc) h
      case isFalse =>
        split at h
        case isTrue hname =>
          cases hname
          exact reads_select hroom (fun hc => reads_expr (depth + 1) more hc) h
        case isFalse =>
          split at h
          case isTrue hname =>
            cases hname
            exact reads_accumulate hroom h
          case isFalse => cases h
    case isFalse => cases h
  case h_4 text offset more _ =>
    cases h
    exact ⟨_, .cons offset (.refl _), .metric⟩
  case h_5 => cases ts <;> cases h
termination_by (maxNesting - depth, 1)

end

/-! ### From the grammar to what is read -/

def read : Phrase → Nat → List Token → Except SyntaxError (Expr × List Token)
  | .expr, depth, ts => expr depth ts
  | .summands lhs, depth, ts => exprTail depth lhs ts
  | .term, depth, ts => term depth ts
  | .factors lhs, depth, ts => termTail depth lhs ts
  | .unary, depth, ts => unary depth ts
  | .factor, depth, ts => factor depth ts

/-- The answer is `a`, or the levels did not suffice. -/
def Answers {α : Type} (deep : Prop) (x : Except SyntaxError α) (a : α) : Prop :=
  x = .ok a ∨ (deep ∧ ∃ offset, x = .error (.nestingTooDeep offset))

section
variable {α β : Type} {deep : Prop} {x : Except SyntaxError α} {f : α → Except SyntaxError β} {a : α} {b : β}

theorem Answers.ok (deep : Prop) (a : α) : Answers deep (.ok a) a := .inl rfl

theorem Answers.bind (hx : Answers deep x a) (hf : Answers deep (f a) b) : Answers deep (x >>= f) b := by
  rcases hx with rfl | ⟨hdeep, offset, rfl⟩
  · exact hf
  · exact .inr ⟨hdeep, offset, rfl⟩

/-- One level is entered before the rest is read. -/
theorem Answers.deeper (hx : Answers (maxNesting < depth + 1 + n) x a) :
    Answers (maxNesting < depth + (n + 1)) (if depth < maxNesting then x else .error (.nestingTooDeep offset)) a := by
  rw [show depth + (n + 1) = depth + 1 + n by omega]
  by_cases hroom : depth < maxNesting
  · rw [if_pos hroom]
    exact hx
  · rw [if_neg hroom]
    exact .inr ⟨by omega, offset, rfl⟩

end

/-- Nothing that is ahead belongs to the phrase. -/
def Ends (p : Phrase) (ts : List Token) : Prop := ∀ s ∈ p.signs, Not s ts

theorem ends_of_sign (hs : s ∉ p.signs) : Ends p (⟨.sign s, offset⟩ :: ts) := by
  rintro s' hs' offset' more heq
  cases heq
  exact hs hs'

theorem ends_of_spells (h : Spells ts (.sign s :: us) rest) (hs : s ∉ p.signs) : Ends p ts := by
  obtain ⟨offset, more, rfl, -⟩ := spells_cons.mp h
  exact ends_of_sign hs

theorem Ends.mono {q : Phrase} (h : Ends p ts) (hq : q.signs ⊆ p.signs) : Ends q ts := fun s hs => h s (hq hs)

/-- Behind the first operand comes an operator, or what is behind all of them. -/
theorem ends_of_factors (h : Derives (.factors lhs) n us e) (hspells : Spells ts us rest)
    (hends : Ends (.factors lhs) rest) : Ends .unary ts := by
  cases h with
  | product =>
    rw [spells_nil.mp hspells]
    exact hends.mono (by simp [Phrase.signs])
  | factor sign _ _ => cases sign <;> exact ends_of_spells hspells (by decide)

theorem ends_of_summands (h : Derives (.summands lhs) n us e) (hspells : Spells ts us rest)
    (hends : Ends (.summands lhs) rest) : Ends .term ts := by
  cases h with
  | sum =>
    rw [spells_nil.mp hspells]
    exact hends.mono (by simp [Phrase.signs])
  | summand sign _ _ => cases sign <;> exact ends_of_spells hspells (by decide)

theorem exprTail_of_ends (h : Ends (.summands lhs) ts) : exprTail depth lhs ts = .ok (lhs, ts) := by
  rw [exprTail.eq_def]
  split
  · split
    · rfl
    · rename_i hop
      cases additive?_eq_some.mp hop <;> exact absurd rfl (h _ (by simp [Phrase.signs]) _ _)
  · rfl

theorem termTail_of_ends (h : Ends (.factors lhs) ts) : termTail depth lhs ts = .ok (lhs, ts) := by
  rw [termTail.eq_def]
  split
  · split
    · rfl
    · rename_i hop
      cases multiplicative?_eq_some.mp hop <;> exact absurd rfl (h _ (by simp [Phrase.signs]) _ _)
  · rfl

/-- A phrase without a minus before it begins with none. -/
theorem unary_of_derives (h : Derives .factor n us e) (hspells : Spells ts us rest) : unary depth ts = factor depth ts := by
  cases h <;> obtain ⟨offset, more, rfl, -⟩ := spells_cons.mp hspells <;> simp [unary]

theorem factor_of_metric {text : String} (h : Ends .factor ts) :
    factor depth (⟨.name text, offset⟩ :: ts) = .ok (.metric text, ts) := by
  rw [factor.eq_def]
  split
  case h_3 heq =>
    cases heq
    exact absurd rfl (h .leftParen (by decide) _ _)
  case h_4 heq =>
    cases heq
    rfl
  all_goals rename_i heq; first | cases heq | exact (heq _ _ _ rfl).elim

theorem answers_of_derives (h : Derives p n us e) (hspells : Spells ts us rest) (hends : Ends p rest) :
    Answers (maxNesting < depth + n) (read p depth ts) (e, rest) := by
  induction h generalizing depth ts rest with
  | expr first rest' ihFirst ihRest =>
    obtain ⟨mid, hfirst, hrest⟩ := spells_append.mp hspells
    rw [read, expr]
    exact (ihFirst hfirst (ends_of_summands rest' hrest hends)).bind (ihRest hrest hends)
  | sum =>
    rw [spells_nil.mp hspells]
    exact .inl (exprTail_of_ends hends)
  | summand sign operand rest' ihOperand ihRest =>
    obtain ⟨offset, more, rfl, hmore⟩ := spells_cons.mp hspells
    obtain ⟨mid, hfirst, hrest⟩ := spells_append.mp hmore
    simp only [read, exprTail, additive?_eq_some.mpr sign]
    exact .deeper <| (ihOperand hfirst (ends_of_summands rest' hrest hends)).bind (ihRest hrest hends)
  | term first rest' ihFirst ihRest =>
    obtain ⟨mid, hfirst, hrest⟩ := spells_append.mp hspells
    rw [read, term]
    exact (ihFirst hfirst (ends_of_factors rest' hrest hends)).bind (ihRest hrest hends)
  | product =>
    rw [spells_nil.mp hspells]
    exact .inl (termTail_of_ends hends)
  | factor sign operand rest' ihOperand ihRest =>
    obtain ⟨offset, more, rfl, hmore⟩ := spells_cons.mp hspells
    obtain ⟨mid, hfirst, hrest⟩ := spells_append.mp hmore
    simp only [read, termTail, multiplicative?_eq_some.mpr sign]
    exact .deeper <| (ihOperand hfirst (ends_of_factors rest' hrest hends)).bind (ihRest hrest hends)
  | minus operand negation ih =>
    obtain ⟨offset, more, rfl, hmore⟩ := spells_cons.mp hspells
    simp only [read, unary, ← negated_iff.mp negation]
    exact .deeper ((ih hmore hends).bind (.ok _ _))
  | unsigned operand ih =>
    rw [read, unary_of_derives operand hspells]
    exact ih hspells hends
  | number reads =>
    obtain ⟨offset, more, rfl, hmore⟩ := spells_cons.mp hspells
    rw [spells_nil.mp hmore]
    simp only [read, factor, reads]
    exact .ok _ _
  | metric =>
    obtain ⟨offset, more, rfl, hmore⟩ := spells_cons.mp hspells
    rw [spells_nil.mp hmore]
    exact .inl (factor_of_metric hends)
  | parens inner ih =>
    simp only [spells_append, spells_cons, spells_nil] at hspells
    obtain ⟨offset, _, rfl, _, hinner, _, _, rfl, rfl⟩ := hspells
    simp only [read, factor]
    refine .deeper ((ih hinner (ends_of_sign (by decide))).bind (.inl ?_))
    simp [expect, bind, Except.bind, pure, Except.pure]
  | reduce operand along ih =>
    obtain ⟨offset, _, rfl, hcall⟩ := spells_cons.mp hspells
    obtain ⟨offset', _, rfl, hinside⟩ := spells_cons.mp hcall
    obtain ⟨mid, hoperand, hrest⟩ := spells_append.mp hinside
    have hends : Ends .expr mid := ends_of_spells hrest (by decide)
    simp only [read, factor, ↓reduceIte]
    exact .deeper <| (ih hoperand hends).bind (.inl (reduceRest_eq_ok.mpr ⟨_, _, _, along, rfl, hrest⟩))
  | select operand items merged ih =>
    obtain ⟨offset, _, rfl, hcall⟩ := spells_cons.mp hspells
    obtain ⟨offset', _, rfl, hinside⟩ := spells_cons.mp hcall
    obtain ⟨mid, hoperand, hrest⟩ := spells_append.mp hinside
    have hends : Ends .expr mid := ends_of_spells hrest (by decide)
    have hname : "select" ≠ "reduce" := by decide
    simp only [read, factor, if_neg hname, ↓reduceIte]
    exact .deeper <| (ih hoperand hends).bind (.inl (selectRest_eq_ok.mpr ⟨_, _, _, items, merged, rfl, hrest⟩))
  | accumulate =>
    obtain ⟨offset, _, rfl, hrest⟩ := spells_cons.mp hspells
    have hcall := accumulateCall_eq_ok.mpr ⟨_, _, rfl, hrest⟩
    obtain ⟨offset', _, rfl, -⟩ := spells_cons.mp hrest
    have hnames : "accumulate" ≠ "reduce" ∧ "accumulate" ≠ "select" := by decide
    simp only [read, factor, if_neg hnames.1, if_neg hnames.2, ↓reduceIte]
    exact .deeper (.inl hcall)

theorem ofTokens_of_derives (h : Derives .expr n (ts.map Token.lexeme) e) : Answers (maxNesting < n) (ofTokens ts) e := by
  have hread : Answers (maxNesting < 0 + n) (read .expr 0 ts) (e, []) :=
    answers_of_derives h ⟨ts, (List.append_nil ts).symm, rfl⟩ fun _ _ _ _ heq => by cases heq
  rw [Nat.zero_add] at hread
  exact hread.bind (.ok _ _)

theorem ofTokens_eq_ok : ofTokens ts = .ok e ↔ Derives .expr maxNesting (ts.map Token.lexeme) e := by
  constructor
  · intro h
    obtain ⟨⟨e', rest⟩, he, h⟩ := bind_eq_ok h
    cases rest with
    | nil =>
      cases h
      obtain ⟨us, ⟨used, rfl, rfl⟩, hderives⟩ := reads_expr 0 ts he
      rwa [List.append_nil]
    | cons => cases h
  · intro h
    rcases ofTokens_of_derives h with h | ⟨hdeep, -⟩
    · exact h
    · exact absurd hdeep (Nat.lt_irrefl _)

/-- What is read follows the grammar, and what follows the grammar is read as such, or is refused for its levels. -/
theorem ofTokens_agrees (ts : List Token) (e : Expr) :
    (ofTokens ts = .ok e ↔ Derives .expr maxNesting (ts.map Token.lexeme) e) ∧
    ((∃ n, Derives .expr n (ts.map Token.lexeme) e) →
      ofTokens ts = .ok e ∨ ∃ offset, ofTokens ts = .error (.nestingTooDeep offset)) :=
  ⟨ofTokens_eq_ok, fun ⟨_, h⟩ => (ofTokens_of_derives h).imp_right And.right⟩

/-- `A - B - C` is derived in two levels, and read. -/
theorem difference_agrees :
    let ts : List Token := [⟨.name "A", 0⟩, ⟨.sign .minus, 2⟩, ⟨.name "B", 4⟩, ⟨.sign .minus, 6⟩, ⟨.name "C", 8⟩]
    let e : Expr := .binary .sub (.binary .sub (.metric "A") (.metric "B")) (.metric "C")
    Derives .expr 2 (ts.map Token.lexeme) e ∧ ofTokens ts = .ok e ∧ Derives .expr maxNesting (ts.map Token.lexeme) e := by
  intro ts e
  have hderives : Derives .expr 2 _ e :=
    .expr (.term (.unsigned .metric) .product) (.summand .minus (.term (.unsigned .metric) .product)
      (.summand .minus (.term (.unsigned .metric) .product) .sum))
  rcases (ofTokens_agrees ts e).2 ⟨2, hderives⟩ with hread | ⟨offset, hread⟩
  · exact ⟨hderives, hread, (ofTokens_agrees ts e).1.mp hread⟩
  · have hok : ofTokens ts = .ok e := by cbv
    rw [hok] at hread
    cases hread

end Parser

end PerfCounters
