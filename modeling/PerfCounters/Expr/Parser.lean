import PerfCounters.Expr.Basic
import PerfCounters.Expr.Token

/-!
Reading expressions, lowest precedence first:

    expr   := term (('+' | '-') term)*
    term   := unary (('*' | '/') unary)*
    unary  := '-' unary | factor
    factor := NUMBER | NAME | '(' expr ')'
            | 'reduce' '(' expr ',' NAME (',' '[' DIM (',' DIM)* ']')? ')'
            | 'select' '(' expr ',' '[' DIM '=' '[' INT (',' INT)* ']' (',' ...)* ']' ')'
            | 'accumulate' '(' NAME ',' NAME ')'

Each function takes the number of levels it is nested in and the tokens left, and answers with what
it read and the tokens after it. Entering a level adds one; at `maxNesting` levels it is refused, so
no expression nests deeper. The levels bound the recursion: a function calls itself only one level
down.
-/

namespace PerfCounters.Parser

/-- What a factor may start with. -/
def factorStart : String := "number, metric or '('"

/-- The complaint about a token that is not the expected one. -/
def unexpected {α : Type} (expected : String) : List Token → Except SyntaxError α
  | [] => .error (.unexpectedEnd expected)
  | t :: _ => .error (.unexpectedToken t.offset expected t.lexeme.quoted)

/-- Reads the sign `s`; answers with the tokens after it. -/
def expect (s : Sign) (ts : List Token) : Except SyntaxError (List Token) :=
  match ts with
  | ⟨.sign found, offset⟩ :: rest =>
    if found = s then .ok rest else unexpected s.quoted (⟨.sign found, offset⟩ :: rest)
  | _ => unexpected s.quoted ts

/-- Reads a name; answers with its offset as well. -/
def name (expected : String) : List Token → Except SyntaxError ((String × Nat) × List Token)
  | ⟨.name text, offset⟩ :: rest => .ok ((text, offset), rest)
  | ts => unexpected expected ts

/-- Reads the name of a dimension. -/
def dimension (ts : List Token) : Except SyntaxError (Dimension × List Token) := do
  let ((text, offset), rest) ← name "dimension name" ts
  match Dimension.ofName? text with
  | some d => return (d, rest)
  | none => throw (.unknownDimension offset text)

/-- The natural number of at most 64 bits written by `text`. -/
def selectValue? (text : String) : Option Nat :=
  (Decimal.readNat? text.toList).filter fun n => n < Nat.pow 2 64

/-- Reads a position that `select` keeps. -/
def selectValue : List Token → Except SyntaxError (Nat × List Token)
  | ⟨.number text, offset⟩ :: rest =>
    match selectValue? text with
    | some n => .ok (n, rest)
    | none => .error (.invalidSelectValue offset text)
  | ts => unexpected "select value" ts

theorem bind_eq_ok {ε α β : Type} {x : Except ε α} {f : α → Except ε β} {b : β}
    (h : (x >>= f) = .ok b) : ∃ a, x = .ok a ∧ f a = .ok b := by
  cases x with
  | error e => cases h
  | ok a => exact ⟨a, rfl, h⟩

theorem expect_length {s : Sign} {ts rest : List Token} (h : expect s ts = .ok rest) :
    rest.length < ts.length := by
  unfold expect at h
  split at h
  · split at h
    · cases h; simp
    · simp [unexpected] at h
  · cases ts <;> simp [unexpected] at h

theorem name_length {expected : String} {ts rest : List Token} {p : String × Nat}
    (h : name expected ts = .ok (p, rest)) : rest.length < ts.length := by
  unfold name at h
  split at h
  · cases h; simp
  · cases ts <;> simp [unexpected] at h

theorem dimension_length {ts rest : List Token} {d : Dimension} (h : dimension ts = .ok (d, rest)) :
    rest.length < ts.length := by
  unfold dimension at h
  obtain ⟨⟨⟨text, offset⟩, after⟩, hn, h⟩ := bind_eq_ok h
  simp only at h
  split at h
  · cases h; exact name_length hn
  · cases h

theorem selectValue_length {ts rest : List Token} {n : Nat} (h : selectValue ts = .ok (n, rest)) :
    rest.length < ts.length := by
  unfold selectValue at h
  split at h
  · split at h
    · cases h; simp
    · cases h
  · cases ts <;> simp [unexpected] at h

/-- Reads dimensions separated by commas. -/
def dimensions (ts : List Token) : Except SyntaxError ((List Dimension) × List Token) :=
  match _h : dimension ts with
  | .error e => .error e
  | .ok (d, ⟨.sign .comma, _⟩ :: rest) =>
    match dimensions rest with
    | .error e => .error e
    | .ok (ds, rest) => .ok (d :: ds, rest)
  | .ok (d, rest) => .ok ([d], rest)
termination_by ts.length
decreasing_by
  have := dimension_length _h
  simp only [List.length_cons] at this
  omega

/-- Reads positions separated by commas and allows them along `d`. -/
def selectValues (d : Dimension) (filters : Filters) (ts : List Token) : Except SyntaxError (Filters × List Token) :=
  match _h : selectValue ts with
  | .error e => .error e
  | .ok (n, ⟨.sign .comma, _⟩ :: rest) => selectValues d (filters.allow d n) rest
  | .ok (n, rest) => .ok (filters.allow d n, rest)
termination_by ts.length
decreasing_by
  have := selectValue_length _h
  simp only [List.length_cons] at this
  omega

/-- Reads one dimension and its positions, and adds them to `filters`. -/
def filter (filters : Filters) (ts : List Token) : Except SyntaxError (Filters × List Token) := do
  let (d, afterName) ← dimension ts
  let afterEquals ← expect .equals afterName
  let values ← expect .leftBracket afterEquals
  let (filters, afterValues) ← selectValues d filters values
  let rest ← expect .rightBracket afterValues
  return (filters, rest)

theorem selectValues_length {d : Dimension} {filters result : Filters} {ts rest : List Token}
    (h : selectValues d filters ts = .ok (result, rest)) : rest.length < ts.length := by
  fun_induction selectValues d filters ts with
  | case1 _ _ e => cases h
  | case2 _ ts n o r hv ih =>
    have := selectValue_length hv
    have := ih h
    simp only [List.length_cons] at *
    omega
  | case3 _ ts n r _ hv =>
    have := selectValue_length hv
    cases h
    omega

theorem filter_length {filters result : Filters} {ts rest : List Token}
    (h : filter filters ts = .ok (result, rest)) : rest.length < ts.length := by
  obtain ⟨⟨d, afterName⟩, hd, h⟩ := bind_eq_ok h
  obtain ⟨afterEquals, he, h⟩ := bind_eq_ok h
  obtain ⟨values, hl, h⟩ := bind_eq_ok h
  obtain ⟨⟨kept, afterValues⟩, hv, h⟩ := bind_eq_ok h
  obtain ⟨last, hr, h⟩ := bind_eq_ok h
  cases h
  have := dimension_length hd
  have := expect_length he
  have := expect_length hl
  have := selectValues_length hv
  have := expect_length hr
  omega

/-- Reads filters separated by commas. -/
def filterList (filters : Filters) (ts : List Token) : Except SyntaxError (Filters × List Token) :=
  match _h : filter filters ts with
  | .error e => .error e
  | .ok (filters, ⟨.sign .comma, _⟩ :: rest) => filterList filters rest
  | .ok (filters, rest) => .ok (filters, rest)
termination_by ts.length
decreasing_by
  have := filter_length _h
  simp only [List.length_cons] at this
  omega

/-- Reads the rest of a call of `accumulate` after its name. -/
def accumulateCall (ts : List Token) : Except SyntaxError (Expr × List Token) := do
  let ts ← expect .leftParen ts
  let ((metric, _), ts) ← name "metric name" ts
  let ts ← expect .comma ts
  let ((text, offset), ts) ← name "accumulate mode" ts
  match AccumulateMode.ofName? text with
  | none => throw (.invalidAccumulateMode offset text)
  | some mode =>
    let ts ← expect .rightParen ts
    return (.accumulate metric mode, ts)

/-- Reads the rest of a call of `reduce` after its first argument. -/
def reduceRest (child : Expr) (ts : List Token) : Except SyntaxError (Expr × List Token) := do
  let ts ← expect .comma ts
  let ((text, offset), ts) ← name "reduce operator" ts
  match ReduceOp.ofName? text with
  | none => throw (.invalidReduceOperator offset text)
  | some op =>
    let (ds, ts) ← match ts with
      | ⟨.sign .comma, _⟩ :: ts => do
        let ts ← expect .leftBracket ts
        let (ds, ts) ← dimensions ts
        let ts ← expect .rightBracket ts
        pure (ds, ts)
      | ts => pure ([], ts)
    let ts ← expect .rightParen ts
    return (.reduce child op ds, ts)

/-- Reads the rest of a call of `select` after its first argument. -/
def selectRest (child : Expr) (ts : List Token) : Except SyntaxError (Expr × List Token) := do
  let ts ← expect .comma ts
  let ts ← expect .leftBracket ts
  let (filters, ts) ← filterList [] ts
  let ts ← expect .rightBracket ts
  let ts ← expect .rightParen ts
  return (.select child filters, ts)

/-- The operator of a sum, if `s` is one. -/
def additive? : Sign → Option BinaryOp
  | .plus => some .add
  | .minus => some .sub
  | _ => none

/-- The operator of a product, if `s` is one. -/
def multiplicative? : Sign → Option BinaryOp
  | .star => some .mul
  | .slash => some .div
  | _ => none

/-- The negation of an operand: of a literal, the negated literal. -/
def negate : Expr → Expr
  | .number v => .number (-v)
  | e => .binary .sub (.number 0.0) e

mutual

/-- Reads a sum of terms. -/
def expr (depth : Nat) (ts : List Token) : Except SyntaxError (Expr × List Token) := do
  let (lhs, ts) ← term depth ts
  exprTail depth lhs ts
termination_by (maxNesting - depth, 4)

/-- Reads the terms after `lhs`, each one level further down. -/
def exprTail (depth : Nat) (lhs : Expr) (ts : List Token) : Except SyntaxError (Expr × List Token) :=
  match ts with
  | ⟨.sign s, offset⟩ :: rest =>
    match additive? s with
    | none => .ok (lhs, ts)
    | some op =>
      if depth < maxNesting then do
        let (rhs, rest) ← term (depth + 1) rest
        exprTail (depth + 1) (.binary op lhs rhs) rest
      else .error (.nestingTooDeep offset)
  | _ => .ok (lhs, ts)
termination_by (maxNesting - depth, 0)

/-- Reads a product. -/
def term (depth : Nat) (ts : List Token) : Except SyntaxError (Expr × List Token) := do
  let (lhs, ts) ← unary depth ts
  termTail depth lhs ts
termination_by (maxNesting - depth, 3)

/-- Reads the operands after `lhs`, each one level further down. -/
def termTail (depth : Nat) (lhs : Expr) (ts : List Token) : Except SyntaxError (Expr × List Token) :=
  match ts with
  | ⟨.sign s, offset⟩ :: rest =>
    match multiplicative? s with
    | none => .ok (lhs, ts)
    | some op =>
      if depth < maxNesting then do
        let (rhs, rest) ← unary (depth + 1) rest
        termTail (depth + 1) (.binary op lhs rhs) rest
      else .error (.nestingTooDeep offset)
  | _ => .ok (lhs, ts)
termination_by (maxNesting - depth, 0)

/-- Reads a factor with any number of minus signs before it. -/
def unary (depth : Nat) (ts : List Token) : Except SyntaxError (Expr × List Token) :=
  match ts with
  | ⟨.sign .minus, offset⟩ :: rest =>
    if depth < maxNesting then do
      let (operand, rest) ← unary (depth + 1) rest
      return (negate operand, rest)
    else .error (.nestingTooDeep offset)
  | _ => factor depth ts
termination_by (maxNesting - depth, 2)

/-- Reads a number, a name, a call or an expression in parentheses. -/
def factor (depth : Nat) (ts : List Token) : Except SyntaxError (Expr × List Token) :=
  match ts with
  | ⟨.number text, offset⟩ :: rest =>
    match Decimal.read? text.toList with
    | some v => .ok (.number v, rest)
    | none => .error (.invalidNumber offset text)
  | ⟨.sign .leftParen, offset⟩ :: rest =>
    if depth < maxNesting then do
      let (inner, rest) ← expr (depth + 1) rest
      let rest ← expect .rightParen rest
      return (inner, rest)
    else .error (.nestingTooDeep offset)
  | ⟨.name text, offset⟩ :: ⟨.sign .leftParen, at'⟩ :: rest =>
    if depth < maxNesting then
      if text = "reduce" then do
        let (child, rest) ← expr (depth + 1) rest
        reduceRest child rest
      else if text = "select" then do
        let (child, rest) ← expr (depth + 1) rest
        selectRest child rest
      else if text = "accumulate" then accumulateCall (⟨.sign .leftParen, at'⟩ :: rest)
      else .error (.unexpectedToken offset "reduce, select or accumulate" (Text.quote text))
    else .error (.nestingTooDeep offset)
  | ⟨.name text, _⟩ :: rest => .ok (.metric text, rest)
  | _ => unexpected factorStart ts
termination_by (maxNesting - depth, 1)

end

/-- The expression that all of `ts` make up. -/
def ofTokens (ts : List Token) : Except SyntaxError Expr := do
  let (e, rest) ← expr 0 ts
  match rest with
  | [] => return e
  | _ => unexpected "end of expression" rest

end PerfCounters.Parser

namespace PerfCounters

/-- The expression a text is written for. -/
def Expr.ofText (text : String) : Except SyntaxError Expr := do
  Parser.ofTokens (← Token.ofText text)

end PerfCounters
