import PerfCounters.Expr.Printer
import PerfCounters.Proofs.Decimals.Floats
import PerfCounters.Proofs.Expressions.Agreement
import PerfCounters.Proofs.Expressions.Lexing

/-! Expressions are read back from their text. What was read has names that can be written and filters in order;
    the text of any such tree is cut into lexemes from which the grammar derives the tree again, if its numbers
    stand for themselves. The text has parentheses around each operator, so it can need more levels than the
    text that was read, and nothing else can go wrong. -/

namespace PerfCounters

open Grammar Token

/-- The sign of an operation. -/
def BinaryOp.sign : BinaryOp → Sign
  | .add => .plus
  | .sub => .minus
  | .mul => .star
  | .div => .slash

namespace Expr

/-- The numbers in a tree. -/
def literals : Expr → List Float
  | .number v => [v]
  | .metric _ => []
  | .accumulate _ _ => []
  | .binary _ lhs rhs => lhs.literals ++ rhs.literals
  | .reduce child _ _ => child.literals
  | .select child _ => child.literals

end Expr

/-! ### What is in a tree that was read -/

/-- Filters in order, some of them, with positions of 64 bits. -/
structure Filters.Legible (filters : Filters) : Prop where
  tidy : filters.Tidy
  nonempty : filters ≠ []
  fits : ∀ d n, filters.Lists d n → n < 2 ^ 64

/-- Names can be written as names, and filters as filters. -/
def Expr.Legible : Expr → Prop
  | .number _ => True
  | .metric name => (Lexeme.name name).isWord
  | .accumulate counter _ => (Lexeme.name counter).isWord
  | .binary _ lhs rhs => lhs.Legible ∧ rhs.Legible
  | .reduce child _ _ => child.Legible
  | .select child filters => child.Legible ∧ filters.Legible

namespace Grammar

variable {α : Type} {Item : List Lexeme → α → Prop} {P : α → Prop} {p : Phrase} {n m : Nat} {us vs : List Lexeme}
  {as : List α} {e lhs negated : Expr} {filters written : Filters}

/-- What an operand that is read already is. -/
def Phrase.Legible : Phrase → Prop
  | .summands lhs | .factors lhs => lhs.Legible
  | _ => True

theorem Listed.forall (h : Listed Item us as) (hitem : ∀ us a, Item us a → P a) : as ≠ [] ∧ ∀ a ∈ as, P a := by
  induction h with
  | last item => exact ⟨List.cons_ne_nil _ _, List.forall_mem_singleton.mpr (hitem _ _ item)⟩
  | more item _ ih => exact ⟨List.cons_ne_nil _ _, List.forall_mem_cons.mpr ⟨hitem _ _ item, ih.2⟩⟩

theorem Filter.fits {us : List Lexeme} {x : Dimension × List Nat} (h : Filter us x) : x.2 ≠ [] ∧ ∀ n ∈ x.2, n < 2 ^ 64 := by
  obtain ⟨_, positions⟩ := h
  exact positions.forall fun _ _ ⟨_, fits⟩ => fits

theorem legible_of_merges (hitems : Listed Filter us written) (hmerges : filters.Merges written) : filters.Legible := by
  obtain ⟨hsome, hitem⟩ := hitems.forall fun _ _ => Filter.fits
  refine ⟨hmerges.tidy, ?_, fun d n hn => ?_⟩
  · rintro rfl
    obtain ⟨⟨d, ns⟩, hx⟩ := List.exists_mem_of_ne_nil _ hsome
    obtain ⟨n, hn⟩ := List.exists_mem_of_ne_nil _ (hitem _ hx).1
    exact Filters.not_lists_nil d n ((hmerges.lists d n).mpr ⟨ns, hx, hn⟩)
  · obtain ⟨ns, hx, hn⟩ := (hmerges.lists d n).mp hn
    exact (hitem _ hx).2 n hn

theorem Negated.legible (h : Negated e negated) (he : e.Legible) : negated.Legible := by
  cases h with
  | literal => trivial
  | operand => exact ⟨trivial, he⟩

/-- A tree of lexemes whose names can be written has names that can be written. -/
theorem Derives.legible (h : Derives p n us e) (hnames : ∀ text, .name text ∈ us → (Lexeme.name text).isWord)
    (hp : p.Legible) : e.Legible := by
  induction h with
  | expr _ _ ihFirst ihRest =>
    simp only [List.mem_append, or_imp, forall_and] at hnames
    exact ihRest hnames.2 (ihFirst hnames.1 trivial)
  | sum => exact hp
  | summand _ _ _ ihOperand ihRest =>
    simp only [List.mem_cons, List.mem_append, or_imp, forall_and] at hnames
    exact ihRest hnames.2.2 ⟨hp, ihOperand hnames.2.1 trivial⟩
  | term _ _ ihFirst ihRest =>
    simp only [List.mem_append, or_imp, forall_and] at hnames
    exact ihRest hnames.2 (ihFirst hnames.1 trivial)
  | product => exact hp
  | factor _ _ _ ihOperand ihRest =>
    simp only [List.mem_cons, List.mem_append, or_imp, forall_and] at hnames
    exact ihRest hnames.2.2 ⟨hp, ihOperand hnames.2.1 trivial⟩
  | minus _ negation ih => exact negation.legible (ih (fun text h => hnames text (List.mem_cons_of_mem _ h)) trivial)
  | unsigned _ ih => exact ih hnames trivial
  | number => trivial
  | metric => exact hnames _ List.mem_cons_self
  | parens _ ih => exact ih (fun text h => hnames text (by simp [h])) trivial
  | reduce _ _ ih => exact ih (fun text h => hnames text (by simp [h])) trivial
  | select _ items merged ih =>
    exact ⟨ih (fun text h => hnames text (by simp [h])) trivial, legible_of_merges items merged⟩
  | accumulate => exact hnames _ (by simp)

theorem Derives.succ (h : Derives p n us e) : Derives p (n + 1) us e := by
  induction h with
  | expr _ _ ihFirst ihRest => exact .expr ihFirst ihRest
  | sum => exact .sum
  | summand sign _ _ ihOperand ihRest => exact .summand sign ihOperand ihRest
  | term _ _ ihFirst ihRest => exact .term ihFirst ihRest
  | product => exact .product
  | factor sign _ _ ihOperand ihRest => exact .factor sign ihOperand ihRest
  | minus _ negation ih => exact .minus ih negation
  | unsigned _ ih => exact .unsigned ih
  | number reads => exact .number reads
  | metric => exact .metric
  | parens _ ih => exact .parens ih
  | reduce _ along ih => exact .reduce ih along
  | select _ items merged ih => exact .select ih items merged
  | accumulate => exact .accumulate

/-- What can be derived in some levels can be derived in more. -/
theorem Derives.mono (h : Derives p n us e) (hm : n ≤ m) : Derives p m us e := by
  induction hm with
  | refl => exact h
  | step _ ih => exact ih.succ

theorem Derives.expr_of_unary (h : Derives .unary n us e) : Derives .expr n us e := by
  have hexpr : Derives .expr n (us ++ [] ++ []) e := .expr (.term h .product) .sum
  rwa [List.append_nil, List.append_nil] at hexpr

theorem Derives.binary {rhs : Expr} (hl : Derives .unary n us lhs) (hr : Derives .unary n vs rhs) (op : BinaryOp) :
    Derives .expr (n + 1) (us ++ .sign op.sign :: vs) (.binary op lhs rhs) := by
  have hsum {s op} (h : Additive s op) :=
    Derives.expr (.term hl.succ .product) (.summand h (.term hr .product) .sum)
  have hproduct {s op} (h : Multiplicative s op) := Derives.expr (.term hl.succ (.factor h hr .product)) .sum
  simp only [List.append_nil] at hsum hproduct
  cases op with
  | add => exact hsum .plus
  | sub => exact hsum .minus
  | mul => exact hproduct .star
  | div => exact hproduct .slash

end Grammar

/-! ### From trees to lexemes -/

theorem toList_symbol (op : BinaryOp) : op.symbol.toList = [op.sign.char] := by cases op <;> decide

theorem isWord_reduceOp (op : ReduceOp) : (Lexeme.name op.name).isWord := by cases op <;> decide

theorem isWord_accumulateMode (mode : AccumulateMode) : (Lexeme.name mode.name).isWord := by cases mode <;> decide

theorem isWord_dimension (d : Dimension) : (Lexeme.name d.name).isWord := by cases d <;> decide

theorem toString_text (text : String) : toString text = text := rfl

/-- The text can be cut into lexemes that are such an item. -/
def Spelled {α : Type} (Item : List Lexeme → α → Prop) (text : String) (a : α) : Prop :=
  ∃ us, Lexes text.toList us ∧ Item us a

section
variable {α : Type} {Item : List Lexeme → α → Prop} {f : α → String} {as : List α}

theorem toList_listed_cons (text text' : String) (texts : List String) :
    (listed (text :: text' :: texts)).toList = text.toList ++ ',' :: ' ' :: (listed (text' :: texts)).toList := by
  simp [listed, String.toList_intercalate]

theorem spelled_listed (h : ∀ a ∈ as, Spelled Item (f a) a) (hsome : as ≠ []) :
    Spelled (Listed Item) (listed (as.map f)) as := by
  induction as with
  | nil => exact absurd rfl hsome
  | cons a as ih =>
    obtain ⟨⟨us, hus, hitem⟩, hrest⟩ := List.forall_mem_cons.mp h
    cases as with
    | nil => exact ⟨us, by simpa [listed, String.toList_intercalate] using hus, .last hitem⟩
    | cons b bs =>
      obtain ⟨vs, hvs, hlisted⟩ := ih hrest (List.cons_ne_nil _ _)
      refine ⟨_, ?_, .more hitem hlisted⟩
      rw [List.map_cons, List.map_cons, toList_listed_cons]
      exact hus.then_sign .comma hvs.space

end

theorem spelled_dimension (d : Dimension) : Spelled AxisName d.name d := ⟨_, lexes_name (isWord_dimension d), .name⟩

theorem spelled_position {n : Nat} (hn : n < 2 ^ 64) : Spelled Position (toString n) n := by
  refine ⟨_, lexes_number ?_ ?_, .number (Decimal.readNat?_toString n) hn⟩
  · rw [Nat.toString_eq_ofList_toDigits, String.toList_ofList]
    exact Nat.toDigits_ne_nil
  · rw [Nat.toString_eq_ofList_toDigits, String.toList_ofList, List.all_eq_true]
    intro c hc
    rw [isNumeric, Decimal.isDigit_of_mem_toDigits hc, Bool.true_or]

theorem spelled_filter {d : Dimension} {ns : List Nat} (hsome : ns ≠ []) (hns : ∀ n ∈ ns, n < 2 ^ 64) :
    Spelled Filter s!"{d.name}=[{listed (ns.map toString)}]" (d, ns) := by
  obtain ⟨us, hus, haxis⟩ := spelled_dimension d
  obtain ⟨vs, hvs, hpositions⟩ := spelled_listed (fun n hn => spelled_position (hns n hn)) hsome
  refine ⟨_, ?_, .positions haxis hpositions⟩
  have htext : (s!"{d.name}=[{listed (ns.map toString)}]").toList =
    d.name.toList ++ '=' :: '[' :: ((listed (ns.map toString)).toList ++ [']']) := by simp [toString_text]
  rw [htext]
  exact hus.then_sign .equals (.sign .leftBracket (hvs.then_sign .rightBracket .nil))

theorem spelled_filters {filters : Filters} (h : filters.Legible) : Spelled (Listed Filter) filters.text filters :=
  spelled_listed (fun x hx => spelled_filter (h.tidy.ascending x hx).2 fun n hn => h.fits x.1 n ⟨x.2, hx, hn⟩) h.nonempty

theorem lexes_plain {text : String} {v : Float} (h : Decimal.Plain text v) : Lexes text.toList [.number text] :=
  lexes_number h.nonempty <| List.all_eq_true.mpr fun c hc => by
    rcases h.numeric c hc with hdigit | rfl
    · rw [isNumeric, hdigit, Bool.true_or]
    · rfl

theorem spelled_number {text : String} {v : Float} (h : Decimal.Denotes text v) :
    Spelled (Derives .unary 1) text (.number v) := by
  cases h with
  | plain h => exact ⟨_, lexes_plain h, .unsigned (.number h.reads)⟩
  | negative h =>
    refine ⟨_, ?_, .minus (.unsigned (.number h.reads)) .literal⟩
    rw [String.toList_append]
    exact (lexes_plain h).sign .minus

namespace Expr

variable {text : String} {e lhs rhs child : Expr} {n : Nat}

theorem spelled_binary (hl : Spelled (Derives .unary n) lhs.text lhs) (hr : Spelled (Derives .unary n) rhs.text rhs)
    (op : BinaryOp) : Spelled (Derives .unary (n + 2)) (binary op lhs rhs).text (.binary op lhs rhs) := by
  obtain ⟨us, hus, hl⟩ := hl
  obtain ⟨vs, hvs, hr⟩ := hr
  refine ⟨_, ?_, .unsigned (.parens (hl.binary hr op))⟩
  have htext : (binary op lhs rhs).text.toList =
      '(' :: ((lhs.text.toList ++ ' ' :: op.sign.char :: ' ' :: rhs.text.toList) ++ [')']) := by
    simp [Expr.text, toString_text, toList_symbol]
  rw [htext]
  exact .sign .leftParen ((hus.then_space (.sign op.sign hvs.space)).then_sign .rightParen .nil)

theorem spelled_reduce_everything (h : Spelled (Derives .unary n) child.text child) (op : ReduceOp) :
    Spelled (Derives .unary (n + 1)) (reduce child op []).text (.reduce child op []) := by
  obtain ⟨us, hus, h⟩ := h
  refine ⟨_, ?_, .unsigned (.reduce h.expr_of_unary .everything)⟩
  have htext : (reduce child op []).text.toList =
      "reduce".toList ++ '(' :: (child.text.toList ++ ',' :: ' ' :: (op.name.toList ++ [')'])) := by
    simp [Expr.text, toString_text]
  rw [htext]
  have hcall : Lexes "reduce".toList [.name "reduce"] := lexes_name (by decide)
  have hname := lexes_name (isWord_reduceOp op)
  exact hcall.then_sign .leftParen (hus.then_sign .comma (.space (hname.then_sign .rightParen .nil)))

theorem spelled_reduce_axes (h : Spelled (Derives .unary n) child.text child) (op : ReduceOp) {ds : List Dimension}
    (hds : ds ≠ []) : Spelled (Derives .unary (n + 1)) (reduce child op ds).text (.reduce child op ds) := by
  obtain ⟨us, hus, h⟩ := h
  obtain ⟨vs, hvs, haxes⟩ := spelled_listed (fun d _ => spelled_dimension d) hds
  refine ⟨_, ?_, .unsigned (.reduce h.expr_of_unary (.axes haxes))⟩
  have htext : (reduce child op ds).text.toList = "reduce".toList ++ '(' :: (child.text.toList ++ ',' :: ' ' ::
      (op.name.toList ++ ',' :: ' ' :: '[' :: ((listed (ds.map Dimension.name)).toList ++ [']'] ++ [')']))) := by
    obtain ⟨d, ds, rfl⟩ := List.exists_cons_of_ne_nil hds
    simp [Expr.text, toString_text]
  rw [htext]
  have hcall : Lexes "reduce".toList [.name "reduce"] := lexes_name (by decide)
  have hlist := (hvs.then_sign .rightBracket .nil).then_sign .rightParen .nil
  have hrest := (lexes_name (isWord_reduceOp op)).then_sign .comma (.space (.sign .leftBracket hlist))
  exact hcall.then_sign .leftParen (hus.then_sign .comma (.space hrest))

theorem spelled_select {filters : Filters} (h : Spelled (Derives .unary n) child.text child) (hfilters : filters.Legible) :
    Spelled (Derives .unary (n + 1)) (select child filters).text (.select child filters) := by
  obtain ⟨us, hus, h⟩ := h
  obtain ⟨vs, hvs, hitems⟩ := spelled_filters hfilters
  refine ⟨_, ?_, .unsigned (.select h.expr_of_unary hitems ⟨hfilters.tidy, fun _ _ => Iff.rfl⟩)⟩
  have htext : (select child filters).text.toList = "select".toList ++ '(' :: (child.text.toList ++ ',' :: ' ' :: '[' ::
      (filters.text.toList ++ ']' :: [')'])) := by
    simp [Expr.text, toString_text]
  rw [htext]
  have hcall : Lexes "select".toList [.name "select"] := lexes_name (by decide)
  exact hcall.then_sign .leftParen
    (hus.then_sign .comma (.space (.sign .leftBracket (hvs.then_sign .rightBracket (.sign .rightParen .nil)))))

theorem spelled_accumulate {counter : String} (h : (Lexeme.name counter).isWord) (mode : AccumulateMode) :
    Spelled (Derives .unary 1) (accumulate counter mode).text (.accumulate counter mode) := by
  refine ⟨_, ?_, .unsigned .accumulate⟩
  have htext : (accumulate counter mode).text.toList =
      "accumulate".toList ++ '(' :: (counter.toList ++ ',' :: ' ' :: (mode.name.toList ++ [')'])) := by
    simp [Expr.text, toString_text]
  rw [htext]
  have hcall : Lexes "accumulate".toList [.name "accumulate"] := lexes_name (by decide)
  have hmode := lexes_name (isWord_accumulateMode mode)
  exact hcall.then_sign .leftParen ((lexes_name h).then_sign .comma (.space (hmode.then_sign .rightParen .nil)))

/-- The text of a legible tree is derived as this tree. -/
theorem exists_spelled (he : e.Legible) (hfinite : ∀ v ∈ e.literals, v.isFinite) :
    ∃ n, Spelled (Derives .unary n) e.text e := by
  induction e with
  | number v => exact ⟨1, spelled_number (Decimal.denotes_write (hfinite v List.mem_cons_self))⟩
  | metric name => exact ⟨0, _, lexes_name he, .unsigned .metric⟩
  | accumulate counter mode => exact ⟨1, spelled_accumulate he mode⟩
  | binary op lhs rhs ihl ihr =>
    obtain ⟨hl, hr⟩ := List.forall_mem_append.mp hfinite
    obtain ⟨n, us, hus, hl⟩ := ihl he.1 hl
    obtain ⟨m, vs, hvs, hr⟩ := ihr he.2 hr
    exact ⟨_, spelled_binary ⟨us, hus, hl.mono (Nat.le_max_left n m)⟩ ⟨vs, hvs, hr.mono (Nat.le_max_right n m)⟩ op⟩
  | reduce child op ds ih =>
    obtain ⟨n, h⟩ := ih he hfinite
    by_cases hds : ds = []
    · rw [hds]
      exact ⟨_, spelled_reduce_everything h op⟩
    · exact ⟨_, spelled_reduce_axes h op hds⟩
  | select child filters ih =>
    obtain ⟨n, h⟩ := ih he.1 hfinite
    exact ⟨_, spelled_select h he.2⟩

/-! ### What was read -/

theorem legible_of_ofText (h : ofText text = .ok e) : e.Legible := by
  obtain ⟨ts, hts, h⟩ := Parser.bind_eq_ok h
  exact (Parser.ofTokens_eq_ok.mp h).legible (fun name hname => isWord_of_lex hts hname) trivial

/-- The text of a tree that was read is read as the same tree, if its numbers are finite, or refused for its levels. -/
theorem text_reads_back (h : ofText text = .ok e) (hfinite : ∀ v ∈ e.literals, v.isFinite) :
    ofText e.text = .ok e ∨ ∃ offset, ofText e.text = .error (.nestingTooDeep offset) := by
  obtain ⟨n, us, hus, hderives⟩ := exists_spelled (legible_of_ofText h) hfinite
  obtain ⟨ts, hts, rfl⟩ := hus.ofText
  rw [ofText, hts]
  exact (Parser.ofTokens_of_derives hderives.expr_of_unary).imp_right And.right

/-- Zero keeps its sign, and a name its meaning. -/
theorem signedProduct_reads_back :
    let e : Expr := .binary .mul (.number (-(Float.ofBits 0))) (.metric "reduce")
    ofText "-0.0 * reduce" = .ok e ∧ (∀ v ∈ e.literals, v.isFinite) ∧ e.text = "(-0 * reduce)" ∧
      ofText "(-0 * reduce)" = .ok e := by
  intro e
  have hread : ofText "-0.0 * reduce" = .ok e := by cbv
  have hfinite : ∀ v ∈ e.literals, v.isFinite := List.forall_mem_singleton.mpr (by decide)
  have htext : e.text = "(-0 * reduce)" := by decide +kernel
  refine ⟨hread, hfinite, htext, ?_⟩
  rcases text_reads_back hread hfinite with hagain | ⟨offset, hdeep⟩
  · rwa [htext] at hagain
  · have hok : ofText "(-0 * reduce)" = .ok e := by cbv
    rw [htext, hok] at hdeep
    cases hdeep

end Expr

end PerfCounters
