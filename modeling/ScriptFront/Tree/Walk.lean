import ScriptFront.Tree.Basic

/-! # Walking a tree

The children of a node in the order of the source, and all nodes of a tree, each before its
descendants.
-/

namespace ScriptFront

inductive Node where
  | expr (e : Expr)
  | stmt (s : Stmt)
  deriving Repr

def Expr.children : Expr → List Expr
  | .assign _ value => [value]
  | .binary left _ right => [left, right]
  | .logical left _ right => [left, right]
  | .grouping inner => [inner]
  | .literal _ _ | .reference _ => []
  | .unary _ right => [right]
  | .call callee _ args => callee :: args

mutual

def Expr.universe : Expr → List Expr
  | .assign name value => .assign name value :: value.universe
  | .binary left op right => .binary left op right :: (left.universe ++ right.universe)
  | .logical left op right => .logical left op right :: (left.universe ++ right.universe)
  | .grouping inner => .grouping inner :: inner.universe
  | .literal token value => [.literal token value]
  | .reference token => [.reference token]
  | .unary op right => .unary op right :: right.universe
  | .call callee paren args =>
    .call callee paren args :: (callee.universe ++ Expr.universeAll args)

def Expr.universeAll : List Expr → List Expr
  | [] => []
  | e :: es => e.universe ++ Expr.universeAll es

end

namespace Node

def base : Node → Token
  | .expr e => e.base
  | .stmt s => s.base

def children : Node → List Node
  | .expr e => e.children.map .expr
  | .stmt s => match s with
    | .block _ body => body.map .stmt
    | .expression value => [.expr value]
    | .conditional _ condition thenBranch elseBranch =>
      .expr condition :: .stmt thenBranch :: elseBranch.toList.map .stmt
    | .print _ value => [.expr value]
    | .define _ initial => initial.toList.map .expr
    | .loop _ condition body => [.expr condition, .stmt body]
    | .function _ _ body => body.map .stmt
    | .leave _ value => value.toList.map .expr

end Node

mutual

def Stmt.universe : Stmt → List Node
  | .block brace body => .stmt (.block brace body) :: Stmt.universeAll body
  | .expression value => .stmt (.expression value) :: value.universe.map .expr
  | .conditional keyword condition thenBranch none =>
    .stmt (.conditional keyword condition thenBranch none)
      :: (condition.universe.map .expr ++ thenBranch.universe)
  | .conditional keyword condition thenBranch (some elseBranch) =>
    .stmt (.conditional keyword condition thenBranch (some elseBranch))
      :: (condition.universe.map .expr ++ thenBranch.universe ++ elseBranch.universe)
  | .print keyword value => .stmt (.print keyword value) :: value.universe.map .expr
  | .define name initial =>
    .stmt (.define name initial) :: (initial.toList.flatMap Expr.universe).map .expr
  | .loop keyword condition body =>
    .stmt (.loop keyword condition body) :: (condition.universe.map .expr ++ body.universe)
  | .function name params body => .stmt (.function name params body) :: Stmt.universeAll body
  | .leave keyword value =>
    .stmt (.leave keyword value) :: (value.toList.flatMap Expr.universe).map .expr

def Stmt.universeAll : List Stmt → List Node
  | [] => []
  | s :: ss => s.universe ++ Stmt.universeAll ss

end

/-- The node and all nodes below it. -/
def Node.universe : Node → List Node
  | .expr e => e.universe.map .expr
  | .stmt s => s.universe

end ScriptFront
