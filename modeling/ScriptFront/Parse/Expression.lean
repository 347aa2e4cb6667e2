import ScriptFront.Parse.Reply
import ScriptFront.Tree.Basic

/-! # Expressions

One parser for each level of the grammar, from the tightest to the loosest:

* `primary`: literals, names and expressions in parentheses
* `call`: any number of argument lists after a primary expression
* `unary`: `!` and `-`
* `factor`, `term`, `comparison`, `equality`, `logicAnd`, `logicOr`: operators that associate to
  the left
* `assignment`: `=`, which associates to the right, and the compound assignments, whose right
  side is a term

Where a whole expression stands inside another, the parser `self` reads it.
-/

namespace ScriptFront

namespace Kind

def isUnary (k : Kind) : Bool := k == bang || k == minus

def isFactor (k : Kind) : Bool := k == slash || k == star

def isTerm (k : Kind) : Bool := k == minus || k == plus

def isComparison (k : Kind) : Bool :=
  k == greater || k == greaterEqual || k == less || k == lessEqual

def isEquality (k : Kind) : Bool := k == bangEqual || k == equalEqual

def isCompound (k : Kind) : Bool :=
  k == plusEqual || k == minusEqual || k == starEqual || k == slashEqual

def isAssignment (k : Kind) : Bool := k == equal || isCompound k

end Kind

namespace Parse

open ScriptFront.Parser

def literal? (t : Token) : Option Expr :=
  match t.kind with
  | .falseKw => some (.literal t (.bool false))
  | .trueKw => some (.literal t (.bool true))
  | .nullKw => some (.literal t .null)
  | .number | .string => some (.literal t t.literal)
  | .identifier => some (.reference t)
  | _ => none

def grouping (self : Parser Expr) : Parser Expr := do
  let inner ← self
  let _ ← expect .rightParen .parenAfterExpression
  return .grouping inner

/-- How a primary expression goes on after its first token. -/
def primaryAfter (self : Parser Expr) (t : Token) : Option (Parser Expr) :=
  if t.kind = .leftParen then some (grouping self) else (literal? t).map pure

def primary (self : Parser Expr) : Parser Expr := dispatch (primaryAfter self) (fail .expression)

def limitArguments (count : Nat) : Parser Unit :=
  if mostParameters ≤ count then do report (← peek) .tooManyArguments else pure ()

def argument (self : Parser Expr) (count : Nat) : Parser Expr := do
  limitArguments count
  self

def moreArguments (self : Parser Expr) (args : List Expr) : Parser (Option (List Expr)) := do
  match ← accept (· == .comma) with
  | none => return none
  | some _ => return some (args ++ [← argument self args.length])

def arguments (self : Parser Expr) : Parser (List Expr) := do
  if ← nextIs .rightParen then return []
  repeatFrom (moreArguments self) [← argument self 0]

def moreCalls (self : Parser Expr) (callee : Expr) : Parser (Option Expr) := do
  match ← accept (· == .leftParen) with
  | none => return none
  | some _ =>
    let args ← arguments self
    let paren ← expect .rightParen .parenAfterArguments
    return some (.call callee paren args)

def call (self : Parser Expr) : Parser Expr := do
  repeatFrom (moreCalls self) (← primary self)

def unaryAfter (inner : Parser Expr) (t : Token) : Option (Parser Expr) :=
  if t.kind.isUnary then some (Expr.unary t <$> inner) else none

def unary (self : Parser Expr) : Parser Expr :=
  fixed fun inner => dispatch (unaryAfter inner) (call self)

/-- One more operator with its right operand, after the left one. -/
def moreOperands (isOperator : Kind → Bool) (build : Expr → Token → Expr → Expr)
    (operand : Parser Expr) (left : Expr) : Parser (Option Expr) := do
  match ← accept isOperator with
  | none => return none
  | some op => return some (build left op (← operand))

/-- Operands with operators between them, grouped from the left. -/
def chain (isOperator : Kind → Bool) (build : Expr → Token → Expr → Expr)
    (operand : Parser Expr) : Parser Expr := do
  repeatFrom (moreOperands isOperator build operand) (← operand)

def factor (self : Parser Expr) : Parser Expr := chain Kind.isFactor .binary (unary self)

def term (self : Parser Expr) : Parser Expr := chain Kind.isTerm .binary (factor self)

def comparison (self : Parser Expr) : Parser Expr := chain Kind.isComparison .binary (term self)

def equality (self : Parser Expr) : Parser Expr :=
  chain Kind.isEquality .binary (comparison self)

def logicAnd (self : Parser Expr) : Parser Expr :=
  chain (· == .logicalAnd) .logical (equality self)

def logicOr (self : Parser Expr) : Parser Expr :=
  chain (· == .logicalOr) .logical (logicAnd self)

/-- The assignment of `value` by the operator `op`. Only a name can be assigned to; any other
target is reported, and the value stands alone. -/
def assigned (target : Expr) (op : Token) (value : Expr) : Parser Expr :=
  match target with
  | .reference n =>
    return .assign n (if op.kind = .equal then value else .binary target op value)
  | _ => do
    report (some op) .invalidAssignmentTarget
    return value

/-- What stands to the right of an assignment operator. -/
def rightSide (self : Parser Expr) (op : Token) : Parser Expr :=
  if op.kind = .equal then self else term self

def assignment (self : Parser Expr) : Parser Expr := do
  let target ← logicOr self
  match ← accept Kind.isAssignment with
  | none => return target
  | some op => assigned target op (← rightSide self op)

def expression : Parser Expr := fixed assignment

end Parse

end ScriptFront
