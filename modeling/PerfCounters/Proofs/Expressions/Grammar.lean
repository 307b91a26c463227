import Mathlib.Algebra.Group.Nat.Defs
import PerfCounters.Decimal.Text
import PerfCounters.Expr.Token
import PerfCounters.Proofs.Expressions.Filters

/-! The grammar of expressions, as a relation between lexemes and trees, and without a word on how they are read.

    expr   := term (('+' | '-') term)*
    term   := unary (('*' | '/') unary)*
    unary  := '-' unary | factor
    factor := NUMBER | NAME | '(' expr ')'
            | 'reduce' '(' expr ',' OP [',' '[' DIM (',' DIM)* ']'] ')'
            | 'select' '(' expr ',' '[' DIM '=' '[' INT (',' INT)* ']' (',' ...)* ']' ')'
            | 'accumulate' '(' NAME ',' MODE ')'

A derivation also counts its levels: parentheses, calls, unary minus and each chained operator enter one. -/

namespace PerfCounters.Grammar

/-- Items separated by commas, at least one. -/
inductive Listed {α : Type} (Item : List Lexeme → α → Prop) : List Lexeme → List α → Prop where
  | last {us a} (item : Item us a) : Listed Item us [a]
  | more {us vs a as} (item : Item us a) (rest : Listed Item vs as) :
      Listed Item (us ++ .sign .comma :: vs) (a :: as)

/-- `DIM` -/
inductive AxisName : List Lexeme → Dimension → Prop where
  | name {d} : AxisName [.name d.name] d

/-- `INT` -/
inductive Position : List Lexeme → Nat → Prop where
  | number {text n} (reads : Decimal.readNat? text.toList = some n) (fits : n < 2 ^ 64) : Position [.number text] n

/-- `DIM '=' '[' INT (',' INT)* ']'` -/
inductive Filter : List Lexeme → Dimension × List Nat → Prop where
  | positions {us vs d ns} (axis : AxisName us d) (positions : Listed Position vs ns) :
      Filter (us ++ .sign .equals :: .sign .leftBracket :: (vs ++ [.sign .rightBracket])) (d, ns)

/-- `[',' '[' DIM (',' DIM)* ']']` -/
inductive Along : List Lexeme → List Dimension → Prop where
  | everything : Along [] []
  | axes {us ds} (axes : Listed AxisName us ds) :
      Along (.sign .comma :: .sign .leftBracket :: (us ++ [.sign .rightBracket])) ds

inductive Additive : Sign → BinaryOp → Prop where
  | plus : Additive .plus .add
  | minus : Additive .minus .sub

inductive Multiplicative : Sign → BinaryOp → Prop where
  | star : Multiplicative .star .mul
  | slash : Multiplicative .slash .div

/-- A minus in front of a literal goes into the literal, and is a difference from zero otherwise. -/
inductive Negated : Expr → Expr → Prop where
  | literal {v} : Negated (.number v) (.number (-v))
  | operand {e} (nonliteral : ∀ v, e ≠ .number v) : Negated e (.binary .sub (.number 0.0) e)

/-- What can be derived. The repetitions in sums and products stand behind an operand that is read already,
    so that they group to the left. -/
inductive Phrase where
  | expr
  | summands (lhs : Expr)
  | term
  | factors (lhs : Expr)
  | unary
  | factor

/-- These lexemes are a phrase with this tree, and it enters no more than `n` levels. -/
inductive Derives : Phrase → Nat → List Lexeme → Expr → Prop where
  | expr {n us vs lhs e} (first : Derives .term n us lhs) (rest : Derives (.summands lhs) n vs e) :
      Derives .expr n (us ++ vs) e
  | sum {n e} : Derives (.summands e) n [] e
  | summand {n us vs s op lhs rhs e} (sign : Additive s op) (operand : Derives .term n us rhs)
      (rest : Derives (.summands (.binary op lhs rhs)) n vs e) :
      Derives (.summands lhs) (n + 1) (.sign s :: (us ++ vs)) e
  | term {n us vs lhs e} (first : Derives .unary n us lhs) (rest : Derives (.factors lhs) n vs e) :
      Derives .term n (us ++ vs) e
  | product {n e} : Derives (.factors e) n [] e
  | factor {n us vs s op lhs rhs e} (sign : Multiplicative s op) (operand : Derives .unary n us rhs)
      (rest : Derives (.factors (.binary op lhs rhs)) n vs e) :
      Derives (.factors lhs) (n + 1) (.sign s :: (us ++ vs)) e
  | minus {n us e negated} (operand : Derives .unary n us e) (negation : Negated e negated) :
      Derives .unary (n + 1) (.sign .minus :: us) negated
  | unsigned {n us e} (operand : Derives .factor n us e) : Derives .unary n us e
  | number {n text v} (reads : Decimal.read? text.toList = some v) : Derives .factor n [.number text] (.number v)
  | metric {n text} : Derives .factor n [.name text] (.metric text)
  | parens {n us e} (inner : Derives .expr n us e) :
      Derives .factor (n + 1) (.sign .leftParen :: (us ++ [.sign .rightParen])) e
  | reduce {n us vs op child ds} (operand : Derives .expr n us child) (along : Along vs ds) :
      Derives .factor (n + 1) (.name "reduce" :: .sign .leftParen ::
        (us ++ .sign .comma :: .name op.name :: (vs ++ [.sign .rightParen]))) (.reduce child op ds)
  | select {n us vs child written filters} (operand : Derives .expr n us child) (items : Listed Filter vs written)
      (merged : filters.Merges written) :
      Derives .factor (n + 1) (.name "select" :: .sign .leftParen ::
        (us ++ .sign .comma :: .sign .leftBracket :: (vs ++ [.sign .rightBracket, .sign .rightParen])))
        (.select child filters)
  | accumulate {n metric mode} :
      Derives .factor (n + 1) [.name "accumulate", .sign .leftParen, .name metric, .sign .comma, .name mode.name,
        .sign .rightParen] (.accumulate metric mode)

end PerfCounters.Grammar
