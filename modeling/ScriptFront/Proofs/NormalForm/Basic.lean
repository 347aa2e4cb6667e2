import ScriptFront.Proofs.Grammar.Expression
import ScriptFront.Proofs.Tree.Universe

/-! # Parse normal form

What the grammar leaves no choice about, said of one node of a tree at a time:

* an operator holds its operands as tightly as the grammar says, and groups from the left
* a compound operator stands in an assignment to the name on its left
* every token is of a kind that fits its place, and a literal has the value of its token
* an `else` belongs to the nearest `if`, and a branch or a body is not a declaration
* blocks, loops and literals that no braces, `while` or token were written for come from a `for`
-/

namespace ScriptFront

/-- How tightly an operator holds its two operands. A compound operator is as loose as `=`. -/
def Kind.tightness : Kind → Nat
  | .logicalOr => 1
  | .logicalAnd => 2
  | .bangEqual | .equalEqual => 3
  | .greater | .greaterEqual | .less | .lessEqual => 4
  | .minus | .plus => 5
  | .slash | .star => 6
  | _ => 0

namespace Expr

/-- How tightly an expression holds together: assignments are the loosest, then come `or`, `and`,
equality, comparison, terms, factors and unary expressions; calls and all that is a primary
expression are the tightest. -/
def tightness : Expr → Nat
  | .assign .. => 0
  | .binary _ op _ => op.kind.tightness
  | .logical _ op _ => op.kind.tightness
  | .unary .. => 7
  | .call .. | .grouping _ | .literal .. | .reference _ => 8

/-- Operands with a compound operator between them, which are not an expression by themselves. -/
def isCompound : Expr → Bool
  | .binary _ op _ => Grammar.isCompound op.kind
  | _ => false

/-- A literal for which no token of its own was written: the condition a `for` leaves out. -/
def isImplied : Expr → Bool
  | .literal token _ => token.kind == .forKw
  | _ => false

end Expr

/-- The value that a literal token stands for. -/
def Token.StandsFor (t : Token) (v : Value) : Prop :=
  match t.kind with
  | .trueKw | .forKw => v = .bool true
  | .falseKw => v = .bool false
  | .nullKw => v = .null
  | .number | .string => v = t.literal
  | _ => False

/-- The operators that are written between two operands and are not assignments. -/
def Kind.isBinary (k : Kind) : Bool :=
  [Grammar.Chain.equality, .comparison, .term, .factor].any (·.isOperator k)

def Expr.HasShape : Expr → Prop
  | .assign name _ => name.kind = .identifier
  | .binary left op right =>
    if Grammar.isCompound op.kind then True
    else op.kind.isBinary = true ∧
      op.kind.tightness ≤ left.tightness ∧ op.kind.tightness < right.tightness
  | .logical left op right =>
    (op.kind = .logicalAnd ∨ op.kind = .logicalOr) ∧
      op.kind.tightness ≤ left.tightness ∧ op.kind.tightness < right.tightness
  | .grouping _ => True
  | .literal token value => token.StandsFor value
  | .unary op right => Grammar.isSign op.kind = true ∧ 7 ≤ right.tightness
  | .reference token => token.kind = .identifier
  | .call callee paren _ => 8 ≤ callee.tightness ∧ paren.kind = .rightParen

namespace Stmt

def isDeclaration : Stmt → Bool
  | .define .. | .function .. => true
  | _ => false

/-- The statement ends in an `if` that has no `else` and could take one. A block that was made for
a `for` ends where the loop does. -/
def isOpen : Stmt → Bool
  | .conditional _ _ _ none => true
  | .conditional _ _ _ (some elseBranch) => elseBranch.isOpen
  | .loop _ _ body => body.isOpen
  | .block brace [first, last] =>
    brace.kind == .forKw && (first.isOpen || last.isOpen)
  | _ => false

/-- A block made for a `for`: the first clause and the loop, or the body and the last clause. -/
def IsLoopBlock (keyword : Token) (body : List Stmt) : Prop :=
  (∃ first condition rest, body = [first, .loop keyword condition rest] ∧
    ((∃ name initial, first = .define name initial) ∨ ∃ e, first = .expression e)) ∨
  ∃ first next, body = [first, .expression next] ∧ first.isDeclaration = false

def HasShape : Stmt → Prop
  | .block brace body =>
    brace.kind = .leftBrace ∨ brace.kind = .forKw ∧ IsLoopBlock brace body
  | .expression _ => True
  | .conditional keyword _ thenBranch elseBranch =>
    keyword.kind = .ifKw ∧ thenBranch.isDeclaration = false ∧
      ∀ s ∈ elseBranch, s.isDeclaration = false ∧ thenBranch.isOpen = false
  | .print keyword _ => keyword.kind = .printKw
  | .define name _ => name.kind = .identifier
  | .loop keyword _ body =>
    (keyword.kind = .whileKw ∨ keyword.kind = .forKw) ∧ body.isDeclaration = false
  | .function name params _ =>
    name.kind = .identifier ∧ (∀ p ∈ params, p.kind = .identifier) ∧
      params.length ≤ mostParameters
  | .leave keyword value =>
    keyword.kind = .returnKw ∨ keyword.kind = .breakKw ∧ value = none

end Stmt

namespace Node

def HasShape : Node → Prop
  | .expr e => e.HasShape
  | .stmt s => s.HasShape

structure IsNormal (n : Node) : Prop where
  shape : n.HasShape
  /-- A compound operator stands in an assignment, after the name that is assigned. -/
  compound : ∀ e, .expr e ∈ n.children → e.isCompound = true →
    ∃ name op right, n = .expr (.assign name e) ∧ e = .binary (.reference name) op right ∧
      5 ≤ right.tightness
  /-- A condition is implied only in a loop made for a `for`. -/
  implied : ∀ e, .expr e ∈ n.children → e.isImplied = true →
    ∃ keyword body, n = .stmt (.loop keyword e body) ∧ e = .literal keyword (.bool true)

end Node

end ScriptFront
