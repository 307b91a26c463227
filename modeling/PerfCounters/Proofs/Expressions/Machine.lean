import Mathlib.Logic.Function.Iterate
import Mathlib.Tactic.SplitIfs
import PerfCounters.Expr.Parser

/-! Reading with one counter. The readers are given the levels that they are entered with; here there is one counter for
    all of them, which is raised, lowered and put back as they go, and the calls that wait are listed. Lowering
    is checked. What the machine ends with is what the readers answer, and the counter is where it was. -/

namespace PerfCounters.Parser

/-- The functions that call each other. The last three read a call from its parenthesis on. -/
inductive Reader where
  | expr
  | term
  | unary
  | factor
  | reduce
  | select
  | accumulate
  deriving DecidableEq, Repr

/-- The loops over operands. -/
inductive Chain where
  | sum
  | product

def Chain.reader : Chain → Reader
  | .sum => .expr
  | .product => .term

def Chain.operand : Chain → Reader
  | .sum => .term
  | .product => .unary

def Chain.operator? : Chain → Sign → Option BinaryOp
  | .sum => additive?
  | .product => multiplicative?

/-- The operator that is ahead, with its offset and what is behind it. -/
def Chain.next? (c : Chain) : List Token → Option (BinaryOp × Nat × List Token)
  | ⟨.sign s, offset⟩ :: rest => (c.operator? s).map fun op => (op, offset, rest)
  | _ => none

/-- The function that reads the call of this name. -/
def Reader.ofName? (text : String) : Option Reader :=
  if text = "reduce" then some .reduce
  else if text = "select" then some .select
  else if text = "accumulate" then some .accumulate
  else none

/-- What a reader does when the one that it called comes back. -/
inductive Resumption where
  /-- `left` is what stands before the operand, if it is not the first one. -/
  | chain (c : Chain) (left : Option (BinaryOp × Expr))
  | negation
  | operand
  | parens
  | call
  | reduce
  | select

def Resumption.reader : Resumption → Reader
  | .chain c _ => c.reader
  | .negation | .operand => .unary
  | .parens | .call => .factor
  | .reduce => .reduce
  | .select => .select

/-- A call that waits, and the levels that it was entered with. -/
structure Frame where
  resumption : Resumption
  entered : Nat

def Frame.reader (f : Frame) : Reader := f.resumption.reader

/-- What stands before an operand goes to its left. -/
def combine : Option (BinaryOp × Expr) → Expr → Expr
  | none, e => e
  | some (op, lhs), e => .binary op lhs e

inductive Control where
  | enter (r : Reader)
  | leave (x : Except SyntaxError Expr)
  /-- The counter was lowered at zero. -/
  | underflow

structure Machine where
  control : Control
  calls : List Frame
  tokens : List Token
  depth : Nat

namespace Machine

def call (m : Machine) (f : Frame) (r : Reader) : Machine :=
  { m with control := .enter r, calls := f :: m.calls }

def fail (m : Machine) (e : SyntaxError) : Machine := { m with control := .leave (.error e) }

def settle (m : Machine) : Except SyntaxError (Expr × List Token) → Machine
  | .ok (e, rest) => { m with control := .leave (.ok e), tokens := rest }
  | .error e => m.fail e

/-- Enters a level for the token at `offset`. -/
def deeper (m : Machine) (offset : Nat) (k : Machine → Machine) : Machine :=
  if m.depth < maxNesting then k { m with depth := m.depth + 1 } else m.fail (.nestingTooDeep offset)

/-- Leaves a level. -/
def shallower (m : Machine) : Machine :=
  match m.depth with
  | 0 => { m with control := .underflow }
  | depth + 1 => { m with depth }

/-- A loop with `lhs` read: on to the next operand, or out with the levels that it was entered with. -/
def chain (m : Machine) (c : Chain) (entered : Nat) (lhs : Expr) : Machine :=
  match c.next? m.tokens with
  | some (op, offset, rest) =>
    m.deeper offset fun m => { m with tokens := rest }.call ⟨.chain c (some (op, lhs)), entered⟩ c.operand
  | none => { m with control := .leave (.ok lhs), depth := entered }

/-- The parenthesis of a call, and its first argument. -/
def argument (m : Machine) (f : Frame) : Machine :=
  match expect .leftParen m.tokens with
  | .ok rest => { m with tokens := rest }.call f .expr
  | .error e => m.fail e

def enter (m : Machine) : Reader → Machine
  | .expr => m.call ⟨.chain .sum none, m.depth⟩ .term
  | .term => m.call ⟨.chain .product none, m.depth⟩ .unary
  | .unary =>
    match m.tokens with
    | ⟨.sign .minus, offset⟩ :: rest =>
      m.deeper offset fun m' => { m' with tokens := rest }.call ⟨.negation, m.depth⟩ .unary
    | _ => m.call ⟨.operand, m.depth⟩ .factor
  | .factor =>
    match m.tokens with
    | ⟨.number text, offset⟩ :: rest =>
      match Decimal.read? text.toList with
      | some v => m.settle (.ok (.number v, rest))
      | none => m.fail (.invalidNumber offset text)
    | ⟨.sign .leftParen, offset⟩ :: rest =>
      m.deeper offset fun m' => { m' with tokens := rest }.call ⟨.parens, m.depth⟩ .expr
    | ⟨.name text, offset⟩ :: ⟨.sign .leftParen, at'⟩ :: rest =>
      m.deeper offset fun m' =>
        match Reader.ofName? text with
        | some r => { m' with tokens := ⟨.sign .leftParen, at'⟩ :: rest }.call ⟨.call, m.depth⟩ r
        | none => m'.fail (.unexpectedToken offset "reduce, select or accumulate" (Text.quote text))
    | ⟨.name text, _⟩ :: rest => m.settle (.ok (.metric text, rest))
    | ts => m.settle (unexpected factorStart ts)
  | .reduce => m.argument ⟨.reduce, m.depth⟩
  | .select => m.argument ⟨.select, m.depth⟩
  | .accumulate => m.settle (accumulateCall m.tokens)

/-- `f` was called back with `e`, and is off the list. -/
def resume (m : Machine) (f : Frame) (e : Expr) : Machine :=
  match f.resumption with
  | .chain c left => m.chain c f.entered (combine left e)
  | .negation => (m.settle (.ok (negate e, m.tokens))).shallower
  | .operand => m
  | .parens =>
    match expect .rightParen m.tokens with
    | .ok rest => (m.settle (.ok (e, rest))).shallower
    | .error e => m.fail e
  | .call => m.shallower
  | .reduce => m.settle (reduceRest e m.tokens)
  | .select => m.settle (selectRest e m.tokens)

/-- An error goes up through the calls and leaves the counter alone. -/
def step (m : Machine) : Machine :=
  match m.control, m.calls with
  | .enter r, _ => m.enter r
  | .leave (.ok e), f :: calls => { m with calls }.resume f e
  | .leave (.error _), _ :: calls => { m with calls }
  | _, _ => m

/-! ### What the machine ends with -/

variable {m m₁ m₂ : Machine} {calls : List Frame} {f : Frame} {depth entered : Nat}

def Reaches (m m' : Machine) : Prop := ∃ n, step^[n] m = m'

theorem Reaches.refl (m : Machine) : Reaches m m := ⟨0, rfl⟩

theorem Reaches.trans (h : Reaches m m₁) (h' : Reaches m₁ m₂) : Reaches m m₂ := by
  obtain ⟨n, rfl⟩ := h
  obtain ⟨k, rfl⟩ := h'
  exact ⟨k + n, Function.iterate_add_apply step k n m⟩

theorem Reaches.step (h : Reaches m.step m₁) : Reaches m m₁ := .trans ⟨1, rfl⟩ h

/-- The machine comes back to `calls` with this answer: to `depth` levels, unless it is an error. -/
def Returns (m : Machine) (calls : List Frame) (depth : Nat) : Except SyntaxError (Expr × List Token) → Prop
  | .ok (e, rest) => Reaches m ⟨.leave (.ok e), calls, rest, depth⟩
  | .error e => ∃ ts d, Reaches m ⟨.leave (.error e), calls, ts, d⟩

section
variable {x : Except SyntaxError (Expr × List Token)} {k : Expr × List Token → Except SyntaxError (Expr × List Token)}

theorem Returns.of_reaches (h : Reaches m m₁) (hx : Returns m₁ calls depth x) : Returns m calls depth x := by
  cases x with
  | ok r => exact h.trans hx
  | error e =>
    obtain ⟨ts, d, hx⟩ := hx
    exact ⟨ts, d, h.trans hx⟩

theorem Returns.of_step (hx : Returns m.step calls depth x) : Returns m calls depth x := hx.of_reaches (.step (.refl _))

theorem returns_settle (m : Machine) (x : Except SyntaxError (Expr × List Token)) :
    Returns (m.settle x) m.calls m.depth x := by
  cases x with
  | ok r => exact .refl _
  | error e => exact ⟨_, _, .refl _⟩

/-- An answer goes on with the call that waits for it, and an error past it. -/
theorem Returns.bind (hx : Returns m (f :: calls) depth x)
    (hk : ∀ e rest, Returns (resume ⟨.leave (.ok e), calls, rest, depth⟩ f e) calls entered (k (e, rest))) :
    Returns m calls entered (x >>= k) := by
  cases x with
  | ok r => exact .of_reaches hx (.of_step (hk r.1 r.2))
  | error e =>
    obtain ⟨ts, d, hx⟩ := hx
    exact ⟨ts, d, hx.trans (.step (.refl _))⟩

end

end Machine

/-- What the reader answers that is entered with `depth` levels. -/
def Reader.answer : Reader → Nat → List Token → Except SyntaxError (Expr × List Token)
  | .expr, depth, ts => Parser.expr depth ts
  | .term, depth, ts => Parser.term depth ts
  | .unary, depth, ts => Parser.unary depth ts
  | .factor, depth, ts => Parser.factor depth ts
  | .reduce, depth, ts => do
    let rest ← expect .leftParen ts
    let (child, rest) ← Parser.expr depth rest
    reduceRest child rest
  | .select, depth, ts => do
    let rest ← expect .leftParen ts
    let (child, rest) ← Parser.expr depth rest
    selectRest child rest
  | .accumulate, _, ts => accumulateCall ts

def Chain.tail : Chain → Nat → Expr → List Token → Except SyntaxError (Expr × List Token)
  | .sum => exprTail
  | .product => termTail

section
variable {c : Chain} {ts rest : List Token} {op : BinaryOp} {lhs : Expr} {text : String} {depth offset at' : Nat}

theorem Chain.answer_reader (c : Chain) (depth : Nat) (ts : List Token) :
    c.reader.answer depth ts = c.operand.answer depth ts >>= fun r => c.tail depth r.1 r.2 := by
  cases c with
  | sum => exact expr.eq_def depth ts
  | product => exact term.eq_def depth ts

theorem Chain.next?_eq_some (h : c.next? ts = some (op, offset, rest)) :
    ∃ s, ts = ⟨.sign s, offset⟩ :: rest ∧ c.operator? s = some op := by
  unfold Chain.next? at h
  split at h
  · rename_i s offset' rest'
    obtain ⟨op', hop, heq⟩ := Option.map_eq_some_iff.mp h
    cases heq
    exact ⟨s, rfl, hop⟩
  · cases h

theorem Chain.tail_some (h : c.next? ts = some (op, offset, rest)) :
    c.tail depth lhs ts =
      if depth < maxNesting then
        c.operand.answer (depth + 1) rest >>= fun r => c.tail (depth + 1) (.binary op lhs r.1) r.2
      else .error (.nestingTooDeep offset) := by
  obtain ⟨s, rfl, hop⟩ := next?_eq_some h
  cases c with
  | sum => rw [tail, exprTail.eq_def]; simp only [show additive? s = some op from hop]; rfl
  | product => rw [tail, termTail.eq_def]; simp only [show multiplicative? s = some op from hop]; rfl

theorem Chain.tail_none (h : c.next? ts = none) : c.tail depth lhs ts = .ok (lhs, ts) := by
  cases c with
  | sum =>
    rw [tail, exprTail.eq_def]
    split
    · rw [show additive? _ = none from Option.map_eq_none_iff.mp h]
    · rfl
  | product =>
    rw [tail, termTail.eq_def]
    split
    · rw [show multiplicative? _ = none from Option.map_eq_none_iff.mp h]
    · rfl

theorem factor_call : factor depth (⟨.name text, offset⟩ :: ⟨.sign .leftParen, at'⟩ :: rest) =
    if depth < maxNesting then
      match Reader.ofName? text with
      | some r => r.answer (depth + 1) (⟨.sign .leftParen, at'⟩ :: rest)
      | none => .error (.unexpectedToken offset "reduce, select or accumulate" (Text.quote text))
    else .error (.nestingTooDeep offset) := by
  rw [factor, Reader.ofName?]
  congr 1
  split_ifs <;> rfl

end

/-- The order of the calls that do not enter a level. -/
def Reader.rank : Reader → Nat
  | .factor => 0
  | .unary => 1
  | .term => 2
  | .expr => 3
  | .reduce | .select | .accumulate => 4

theorem Chain.rank_lt (c : Chain) : c.operand.rank < c.reader.rank := by cases c <;> decide

open Machine

/-- The machine that enters the reader comes back with its answer, whatever waits for it. -/
def Reader.Runs (r : Reader) (depth : Nat) (ts : List Token) : Prop :=
  ∀ calls, Returns ⟨.enter r, calls, ts, depth⟩ calls depth (r.answer depth ts)

variable {calls : List Frame} {f : Frame} {control : Control} {c : Chain} {ts : List Token} {depth entered : Nat}

theorem returns_deeper {enter : Machine → Machine} {offset : Nat} {x : Except SyntaxError (Expr × List Token)}
    (hx : depth < maxNesting → Returns (enter ⟨control, calls, ts, depth + 1⟩) calls entered x) :
    Returns (deeper ⟨control, calls, ts, depth⟩ offset enter) calls entered
      (if depth < maxNesting then x else .error (.nestingTooDeep offset)) := by
  by_cases hroom : depth < maxNesting
  · simp only [deeper, if_pos hroom]
    exact hx hroom
  · simp only [deeper, if_neg hroom]
    exact returns_settle _ (.error _)

theorem returns_chain (hoperand : ∀ d ts, entered < d → d ≤ maxNesting → c.operand.Runs d ts)
    (control : Control) (calls : List Frame) {depth : Nat} (hdepth : entered ≤ depth) (lhs : Expr) (ts : List Token) :
    Returns (chain ⟨control, calls, ts, depth⟩ c entered lhs) calls entered (c.tail depth lhs ts) := by
  rcases hnext : c.next? ts with _ | ⟨op, offset, rest⟩
  · simp only [chain, hnext, Chain.tail_none hnext]
    exact .refl _
  · simp only [chain, hnext, Chain.tail_some hnext]
    refine returns_deeper fun hroom => ?_
    have hrest := hoperand (depth + 1) rest (by omega) hroom (⟨.chain c (some (op, lhs)), entered⟩ :: calls)
    exact hrest.bind fun e more => returns_chain hoperand _ calls (Nat.le_succ_of_le hdepth) _ more
termination_by maxNesting - depth

theorem runs_reader (c : Chain) (hfirst : c.operand.Runs depth ts)
    (hoperand : ∀ d ts, depth < d → d ≤ maxNesting → c.operand.Runs d ts) : c.reader.Runs depth ts := by
  intro calls
  let f : Frame := ⟨.chain c none, depth⟩
  have hstep : step ⟨.enter c.reader, calls, ts, depth⟩ = ⟨.enter c.operand, f :: calls, ts, depth⟩ := by cases c <;> rfl
  rw [Chain.answer_reader]
  refine .of_step (hstep ▸ (hfirst (f :: calls)).bind fun e rest => ?_)
  exact returns_chain hoperand _ calls (Nat.le_refl _) e rest

theorem returns_argument (k : Expr → List Token → Except SyntaxError (Expr × List Token))
    (hexpr : ∀ ts, Reader.expr.Runs depth ts)
    (hresume : ∀ m e, resume m f e = m.settle (k e m.tokens)) :
    Returns (argument ⟨control, calls, ts, depth⟩ f) calls depth
      (expect .leftParen ts >>= fun rest => expr depth rest >>= fun r => k r.1 r.2) := by
  rw [argument]
  rcases expect .leftParen ts with e | rest
  · exact returns_settle _ (.error e)
  · refine (hexpr rest (f :: calls)).bind fun e rest => ?_
    rw [hresume]
    exact returns_settle _ _

theorem runs (r : Reader) (depth : Nat) (ts : List Token) : r.Runs depth ts := by
  intro calls
  match r with
  | .expr => exact runs_reader .sum (runs .term depth ts) (fun d ts _ _ => runs .term d ts) calls
  | .term => exact runs_reader .product (runs .unary depth ts) (fun d ts _ _ => runs .unary d ts) calls
  | .unary =>
    refine .of_step ?_
    simp only [step, enter]
    split
    · rw [Reader.answer, unary]
      refine returns_deeper fun hroom => ?_
      exact (runs .unary (depth + 1) _ (⟨.negation, depth⟩ :: calls)).bind fun e rest => .refl _
    · rename_i hunsigned
      rw [Reader.answer, unary]
      · rw [← bind_pure (factor depth ts)]
        exact (runs .factor depth ts (⟨.operand, depth⟩ :: calls)).bind fun e rest => .refl _
      · exact hunsigned
  | .factor =>
    refine .of_step ?_
    simp only [step, enter]
    split
    · rename_i text offset rest
      rw [Reader.answer, factor]
      rcases Decimal.read? text.toList with _ | v
      · exact returns_settle _ (.error _)
      · exact returns_settle _ (.ok _)
    · rw [Reader.answer, factor]
      refine returns_deeper fun hroom => ?_
      refine (runs .expr (depth + 1) _ (⟨.parens, depth⟩ :: calls)).bind fun e rest => ?_
      simp only [resume]
      rcases expect .rightParen rest with e' | rest'
      · exact returns_settle _ (.error e')
      · exact .refl _
    · rename_i text offset at' rest
      rw [Reader.answer, factor_call]
      refine returns_deeper fun hroom => ?_
      rcases Reader.ofName? text with _ | r
      · exact returns_settle _ (.error _)
      · dsimp only
        rw [← bind_pure (r.answer _ _)]
        exact (runs r (depth + 1) _ (⟨.call, depth⟩ :: calls)).bind fun e rest => .refl _
    · rename_i hnoCall
      rw [Reader.answer, factor]
      · exact returns_settle _ (.ok _)
      · exact hnoCall
    · rename_i hnumber hparen hcall hname
      rw [Reader.answer, factor]
      · exact returns_settle _ _
      · exact hnumber
      · exact hparen
      · exact hcall
      · exact hname
  | .reduce => exact .of_step (returns_argument reduceRest (runs .expr depth) fun m e => rfl)
  | .select => exact .of_step (returns_argument selectRest (runs .expr depth) fun m e => rfl)
  | .accumulate => exact .of_step (returns_settle _ _)
termination_by (maxNesting - depth, r.rank)
decreasing_by all_goals first | exact .right _ (by decide) | exact .left _ _ (by omega)

end PerfCounters.Parser
