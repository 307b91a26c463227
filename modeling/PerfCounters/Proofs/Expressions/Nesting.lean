import Mathlib.Data.Nat.Sqrt
import PerfCounters.Proofs.Expressions.Agreement
import PerfCounters.Proofs.Expressions.Lexing

/-! How deep the trees of expressions are. The levels that are counted bound the paths that go on to the right,
    but what stands to the left of an operator gives its levels back: a product can carry another operator for
    each level on its left, and so can a sum. So the depth of a tree is bounded by a square of the levels,
    and every depth up to this bound is there. -/

namespace PerfCounters

open Grammar Token

/-- One step down a tree: into an operand of an operator, or into a reduction or a selection. -/
inductive Step where
  | left
  | right
  | inside
  deriving DecidableEq, Repr

/-- Only the left operand of an operator is read before there is a level for the operator. -/
def Step.counted : Step → Bool
  | .left => false
  | .right => true
  | .inside => true

namespace Expr

/-- The ways from the root to the leaves. -/
def paths : Expr → List (List Step)
  | .number _ => [[]]
  | .metric _ => [[]]
  | .accumulate _ _ => [[]]
  | .binary _ lhs rhs => lhs.paths.map (.left :: ·) ++ rhs.paths.map (.right :: ·)
  | .reduce child _ _ => child.paths.map (.inside :: ·)
  | .select child _ => child.paths.map (.inside :: ·)

/-- The largest number of steps on a path that are counted. -/
def levels : Expr → Nat
  | .number _ => 0
  | .metric _ => 0
  | .accumulate _ _ => 0
  | .binary _ lhs rhs => max lhs.levels (rhs.levels + 1)
  | .reduce child _ _ => child.levels + 1
  | .select child _ => child.levels + 1

variable {e : Expr} {path : List Step}

theorem length_le_nesting (h : path ∈ e.paths) : path.length ≤ e.nesting := by
  induction e generalizing path with
  | number _ | metric _ | accumulate _ _ => cases List.mem_singleton.mp h; exact Nat.le_refl 0
  | binary op lhs rhs ihl ihr =>
    obtain h | h := List.mem_append.mp h
    · obtain ⟨rest, hrest, rfl⟩ := List.mem_map.mp h
      exact Nat.succ_le_succ ((ihl hrest).trans (Nat.le_max_left _ _))
    · obtain ⟨rest, hrest, rfl⟩ := List.mem_map.mp h
      exact Nat.succ_le_succ ((ihr hrest).trans (Nat.le_max_right _ _))
  | reduce child op dims ih | select child filters ih =>
    obtain ⟨rest, hrest, rfl⟩ := List.mem_map.mp h
    exact Nat.succ_le_succ (ih hrest)

theorem exists_longest (e : Expr) : ∃ path ∈ e.paths, path.length = e.nesting := by
  induction e with
  | number _ | metric _ | accumulate _ _ => exact ⟨[], List.mem_cons_self, rfl⟩
  | binary op lhs rhs ihl ihr =>
    obtain hle | hle := Nat.le_total rhs.nesting lhs.nesting
    · obtain ⟨path, hpath, hlength⟩ := ihl
      refine ⟨.left :: path, List.mem_append_left _ (List.mem_map_of_mem hpath), ?_⟩
      rw [List.length_cons, hlength, nesting, Nat.max_eq_left hle]
    · obtain ⟨path, hpath, hlength⟩ := ihr
      refine ⟨.right :: path, List.mem_append_right _ (List.mem_map_of_mem hpath), ?_⟩
      rw [List.length_cons, hlength, nesting, Nat.max_eq_right hle]
  | reduce child op dims ih | select child filters ih =>
    obtain ⟨path, hpath, hlength⟩ := ih
    exact ⟨.inside :: path, List.mem_map_of_mem hpath, congrArg (· + 1) hlength⟩

theorem countP_le_levels (h : path ∈ e.paths) : path.countP Step.counted ≤ e.levels := by
  induction e generalizing path with
  | number _ | metric _ | accumulate _ _ => cases List.mem_singleton.mp h; exact Nat.le_refl 0
  | binary op lhs rhs ihl ihr =>
    obtain h | h := List.mem_append.mp h
    · obtain ⟨rest, hrest, rfl⟩ := List.mem_map.mp h
      exact (ihl hrest).trans (Nat.le_max_left _ _)
    · obtain ⟨rest, hrest, rfl⟩ := List.mem_map.mp h
      rw [List.countP_cons_of_pos rfl]
      exact (Nat.succ_le_succ (ihr hrest)).trans (Nat.le_max_right _ _)
  | reduce child op dims ih | select child filters ih =>
    obtain ⟨rest, hrest, rfl⟩ := List.mem_map.mp h
    rw [List.countP_cons_of_pos rfl]
    exact Nat.succ_le_succ (ih hrest)

/-- A path consists of the steps that are counted and of those to the left. -/
theorem length_eq (path : List Step) : path.length = path.countP Step.counted + path.count .left := by
  induction path with
  | nil => rfl
  | cons step path ih =>
    rw [List.length_cons, List.countP_cons, List.count_cons, ih]
    cases step <;> simp +arith [Step.counted]

end Expr

/-! ### Signs and names with spaces -/

def Lexeme.chars : Lexeme → List Char
  | .number text => text.toList
  | .name text => text.toList
  | .sign s => [s.char]

/-- The lexemes with a space behind each. -/
def Lexeme.spaced (us : List Lexeme) : List Char := us.flatMap fun u => u.chars ++ [' ']

namespace Token
variable {us : List Lexeme} {u : Lexeme}

theorem lexes_word (hu : u.isWord) : Lexes u.chars [u] := by
  cases u with
  | number text => cases hu
  | name text => exact lexes_name hu
  | sign s => exact Lexes.nil.sign s

theorem lexes_spaced (h : ∀ u ∈ us, u.isWord) : Lexes (Lexeme.spaced us) us := by
  induction us with
  | nil => exact .nil
  | cons u us ih =>
    obtain ⟨hu, hus⟩ := List.forall_mem_cons.mp h
    rw [Lexeme.spaced, List.flatMap_cons, List.append_assoc, List.singleton_append]
    exact (lexes_word hu).then_space (ih hus)

end Token

namespace Grammar

variable {p : Phrase} {n k i j : Nat} {us : List Lexeme} {lhs e negated : Expr}

/-! ### Bounds -/

theorem Negated.nesting_le (h : Negated e negated) : negated.nesting ≤ e.nesting + 1 := by
  cases h <;> simp [Expr.nesting]

theorem Negated.levels_le (h : Negated e negated) : negated.levels ≤ e.levels + 1 := by
  cases h <;> simp [Expr.levels]

/-- What an operand that is read already counts for. -/
def Phrase.levels : Phrase → Nat
  | .summands lhs | .factors lhs => lhs.levels
  | _ => 0

theorem Derives.levels_le (h : Derives p n us e) : e.levels ≤ max p.levels n := by
  induction h with
  | minus _ negation ih =>
    have := negation.levels_le
    simp only [Phrase.levels] at *
    omega
  | _ =>
    simp only [Phrase.levels, Expr.levels] at *
    omega

/-- The depth that a phrase can have in `n` levels. -/
def Phrase.reach (n : Nat) : Phrase → Nat
  | .factor | .unary => n * n
  | .factors lhs => max lhs.nesting (n * n) + n
  | .term => n * (n + 1)
  | .summands lhs => max lhs.nesting (n * (n + 1)) + n
  | .expr => n * (n + 2)

theorem Derives.nesting_le (h : Derives p n us e) : e.nesting ≤ p.reach n := by
  induction h with
  | minus _ negation ih =>
    have := negation.nesting_le
    simp only [Phrase.reach, Nat.mul_add, Nat.add_mul] at *
    omega
  | _ =>
    simp only [Phrase.reach, Expr.nesting, Nat.mul_add, Nat.add_mul] at *
    omega

/-! ### Deep trees -/

/-- Signs and names make up a phrase of this depth. -/
def Deep (p : Phrase) (n k : Nat) : Prop := ∃ us e, (∀ u ∈ us, u.isWord) ∧ Derives p n us e ∧ e.nesting = k

/-- Each level carries one more factor. -/
theorem deep_factors (hk : k ≤ n) (lhs : Expr) : Deep (.factors lhs) n (lhs.nesting + k) := by
  induction k generalizing n lhs with
  | zero => exact ⟨[], lhs, fun u hu => (by cases hu), .product, rfl⟩
  | succ k ih =>
    obtain ⟨n, rfl⟩ := Nat.exists_eq_add_one.mpr (Nat.zero_lt_of_lt hk)
    obtain ⟨us, e, hus, he, hdeep⟩ := ih (Nat.le_of_succ_le_succ hk) (.binary .mul lhs (.metric "A"))
    refine ⟨_, e, ?_, .factor .star (.unsigned .metric) he, ?_⟩
    · exact List.forall_mem_cons.mpr ⟨rfl, List.forall_mem_append.mpr ⟨by decide, hus⟩⟩
    · rw [hdeep, Expr.nesting, Expr.nesting, Nat.max_zero, Nat.add_right_comm, Nat.add_assoc]

theorem deep_summands (hk : k ≤ n) (lhs : Expr) : Deep (.summands lhs) n (lhs.nesting + k) := by
  induction k generalizing n lhs with
  | zero => exact ⟨[], lhs, fun u hu => (by cases hu), .sum, rfl⟩
  | succ k ih =>
    obtain ⟨n, rfl⟩ := Nat.exists_eq_add_one.mpr (Nat.zero_lt_of_lt hk)
    obtain ⟨us, e, hus, he, hdeep⟩ := ih (Nat.le_of_succ_le_succ hk) (.binary .add lhs (.metric "A"))
    refine ⟨_, e, ?_, .summand .plus (.term (.unsigned .metric) .product) he, ?_⟩
    · exact List.forall_mem_cons.mpr ⟨rfl, List.forall_mem_append.mpr ⟨by decide, hus⟩⟩
    · rw [hdeep, Expr.nesting, Expr.nesting, Nat.max_zero, Nat.add_right_comm, Nat.add_assoc]

theorem Deep.expr (h : Deep .factor n k) (hi : i ≤ n) (hj : j ≤ n) : Deep .expr n (k + i + j) := by
  obtain ⟨us, e, hus, he, rfl⟩ := h
  obtain ⟨vs, product, hvs, hproduct, heq⟩ := deep_factors hi e
  obtain ⟨ws, sum, hws, hsum, heq'⟩ := deep_summands hj product
  refine ⟨us ++ vs ++ ws, sum, ?_, .expr (.term (.unsigned he) hproduct) hsum, by rw [heq', heq]⟩
  exact List.forall_mem_append.mpr ⟨List.forall_mem_append.mpr ⟨hus, hvs⟩, hws⟩

/-- Each level carries a product and a sum, and a call around them. -/
theorem deep_factor (hk : k ≤ n) : Deep .factor n (k * k) := by
  induction k generalizing n with
  | zero => exact ⟨[.name "A"], _, by decide, .metric, rfl⟩
  | succ k ih =>
    obtain ⟨n, rfl⟩ := Nat.exists_eq_add_one.mpr (Nat.zero_lt_of_lt hk)
    have hkn : k ≤ n := Nat.le_of_succ_le_succ hk
    obtain ⟨us, e, hus, he, hdeep⟩ := (ih hkn).expr hkn hkn
    refine ⟨[.name "reduce", .sign .leftParen] ++ (us ++ [.sign .comma, .name ReduceOp.sum.name, .sign .rightParen]), _, ?_,
      .reduce he .everything, ?_⟩
    · exact List.forall_mem_append.mpr ⟨by decide, List.forall_mem_append.mpr ⟨hus, by decide⟩⟩
    · rw [Expr.nesting, hdeep, Nat.mul_succ, Nat.succ_mul]
      omega

theorem deep_expr (hk : k ≤ n * (n + 2)) : Deep .expr n k := by
  have hsquare : (n + 1) * (n + 1) = n * (n + 2) + 1 := by
    simp only [Nat.mul_add, Nat.add_mul]
    omega
  have hroot : k.sqrt ≤ n := Nat.le_of_lt_add_one (Nat.sqrt_lt.mpr (by omega))
  have hlow := Nat.sqrt_le k
  have hhigh := Nat.sqrt_le_add k
  have hsplit : k = k.sqrt * k.sqrt + min (k - k.sqrt * k.sqrt) k.sqrt + (k - k.sqrt * k.sqrt - k.sqrt) := by omega
  rw [hsplit]
  exact (deep_factor hroot).expr (by omega) (by omega)

end Grammar

namespace Expr

variable {text : String} {e : Expr} {us : List Lexeme}

theorem exists_derivation (h : ofText text = .ok e) : ∃ us, Derives .expr maxNesting us e := by
  obtain ⟨ts, -, h⟩ := Parser.bind_eq_ok h
  exact ⟨_, Parser.ofTokens_eq_ok.mp h⟩

theorem ofText_spaced (hus : ∀ u ∈ us, u.isWord) (h : Derives .expr maxNesting us e) :
    ofText (String.ofList (Lexeme.spaced us)) = .ok e := by
  have hlexes := Token.lexes_spaced hus
  rw [← String.toList_ofList (l := Lexeme.spaced us)] at hlexes
  obtain ⟨ts, hts, rfl⟩ := hlexes.ofText
  rw [ofText, hts]
  exact Parser.ofTokens_eq_ok.mpr h

/-- Every depth up to the square of the levels and twice the levels is there. -/
theorem exists_nesting {k : Nat} (hk : k ≤ maxNesting * (maxNesting + 2)) :
    ∃ text e, ofText text = .ok e ∧ e.nesting = k := by
  obtain ⟨us, e, hus, he, hdeep⟩ := deep_expr hk
  exact ⟨_, e, ofText_spaced hus he, hdeep⟩

/-! ### A sum behind signs -/

/-- A name behind this many signs. -/
def negated : Nat → Expr
  | 0 => .metric "A"
  | n + 1 => .binary .sub (.number 0.0) (negated n)

theorem nesting_negated (n : Nat) : (negated n).nesting = n := by
  induction n with
  | zero => rfl
  | succ n ih => rw [negated, nesting, nesting, ih, Nat.zero_max]

theorem derives_negated (n : Nat) : Derives .unary n (List.replicate n (.sign .minus) ++ [.name "A"]) (negated n) := by
  induction n with
  | zero => exact .unsigned .metric
  | succ n ih => exact .minus ih (.operand fun v hv => by cases n <;> cases hv)

/-- The sum of a name behind this many signs and another. -/
def negatedSummand (n : Nat) : List Lexeme :=
  List.replicate n (.sign .minus) ++ [.name "A"] ++ [.sign .plus, .name "A"]

theorem isWord_negatedSummand (n : Nat) : ∀ u ∈ negatedSummand n, u.isWord := by
  refine List.forall_mem_append.mpr ⟨List.forall_mem_append.mpr ⟨fun u hu => ?_, by decide⟩, by decide⟩
  rw [List.eq_of_mem_replicate hu]
  rfl

theorem derives_negatedSummand (n : Nat) :
    Derives .expr (n + 1) (negatedSummand (n + 1)) (.binary .add (negated (n + 1)) (.metric "A")) := by
  have hfirst := Derives.term (derives_negated (n + 1)) .product
  rw [List.append_nil] at hfirst
  exact .expr hfirst (.summand .plus (.term (.unsigned .metric) .product) .sum)

/-! ### The depth of what is read -/

/-- On each path of a tree that is read, at most `maxNesting` steps are counted. So the tree is no deeper than
    `maxNesting` if and only if the steps to the left find room in the levels that the others leave on their path;
    otherwise it can be as deep as the square of the levels and twice the levels. -/
theorem nesting_ofText (h : ofText text = .ok e) :
    (∀ path ∈ e.paths, path.countP Step.counted ≤ maxNesting) ∧
    (e.nesting ≤ maxNesting ↔ ∀ path ∈ e.paths, path.count .left ≤ maxNesting - path.countP Step.counted) ∧
    e.nesting ≤ maxNesting * (maxNesting + 2) := by
  obtain ⟨us, hus⟩ := exists_derivation h
  have hcounted : ∀ path ∈ e.paths, path.countP Step.counted ≤ maxNesting := fun path hpath =>
    (countP_le_levels hpath).trans (hus.levels_le.trans_eq (Nat.zero_max _))
  refine ⟨hcounted, ⟨fun hnesting path hpath => ?_, fun hleft => ?_⟩, hus.nesting_le⟩
  · have hlength := (length_le_nesting hpath).trans hnesting
    have := length_eq path
    omega
  · obtain ⟨path, hpath, hlength⟩ := exists_longest e
    have := length_eq path
    have := hcounted path hpath
    have := hleft path hpath
    omega

/-- With all the levels in its left operand, a sum is deeper than they are. -/
theorem nesting_negatedSummand : ∃ e, ofText (String.ofList (Lexeme.spaced (negatedSummand maxNesting))) = .ok e ∧
    e.nesting = maxNesting + 1 ∧ ∃ path ∈ e.paths, maxNesting - path.countP Step.counted < path.count .left := by
  have hread := ofText_spaced (isWord_negatedSummand maxNesting) (derives_negatedSummand 255)
  have hdeep : (binary .add (negated (255 + 1)) (.metric "A")).nesting = maxNesting + 1 := by
    rw [nesting, nesting, nesting_negated, Nat.max_zero, maxNesting]
  refine ⟨_, hread, hdeep, ?_⟩
  by_contra! hleft
  have hnesting := (nesting_ofText hread).2.1.mpr hleft
  omega

end Expr

end PerfCounters
