import ScriptFront.Parse.Progress
import ScriptFront.Proofs.Grammar.Expression

/-! # The parser of each level

The operators that the parser takes are those of the grammar.
-/

namespace ScriptFront.Grammar

open Parse ScriptFront.Parser

def Level.parser (self : Parser Expr) : Level → Parser Expr
  | .primary => Parse.primary self
  | .call => Parse.call self
  | .unary => Parse.unary self
  | .chain .factor => factor self
  | .chain .term => term self
  | .chain .comparison => comparison self
  | .chain .equality => equality self
  | .chain .logicAnd => logicAnd self
  | .chain .logicOr => logicOr self
  | .assignment => Parse.assignment self

theorem isSign_eq (k : Kind) : isSign k = k.isUnary := rfl

theorem isCompound_eq (k : Kind) : isCompound k = k.isCompound := rfl

theorem Chain.isOperator_eq :
    Chain.factor.isOperator = Kind.isFactor ∧ Chain.term.isOperator = Kind.isTerm ∧
      Chain.comparison.isOperator = Kind.isComparison ∧
      Chain.equality.isOperator = Kind.isEquality :=
  ⟨rfl, rfl, rfl, rfl⟩

theorem Chain.parser_eq (self : Parser Expr) (c : Chain) :
    (Level.chain c).parser self = Parse.chain c.isOperator c.build (c.operand.parser self) := by
  obtain ⟨hfactor, hterm, hcomparison, hequality⟩ := Chain.isOperator_eq
  cases c with
  | factor =>
    rw [hfactor]
    rfl
  | term =>
    rw [hterm]
    rfl
  | comparison =>
    rw [hcomparison]
    rfl
  | equality =>
    rw [hequality]
    rfl
  | logicAnd | logicOr => rfl

theorem Level.within (level : Level) : Within (level.parser expression) := by
  have hu : Within (Parse.unary expression) := unary_within expression_within
  cases level with
  | primary =>
    exact .of_agree fun n => (primary_agree (expression_within.agree n)).succ
  | call => exact .of_agree fun n => (call_agree (expression_within.agree n)).succ
  | unary => exact hu
  | chain c =>
    cases c with
    | factor => exact chain_within hu
    | term => exact chain_within (chain_within hu)
    | comparison => exact chain_within (chain_within (chain_within hu))
    | equality => exact chain_within (chain_within (chain_within (chain_within hu)))
    | logicAnd => exact chain_within (chain_within (chain_within (chain_within (chain_within hu))))
    | logicOr =>
      exact .of_agree fun n => (logicOr_agree (expression_within.agree n)).succ
  | assignment =>
    have h := expression_within
    rw [expression_eq] at h
    exact h

end ScriptFront.Grammar
