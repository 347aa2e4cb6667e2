import ScriptFront.Tree.Basic

/-! # Trees in parentheses

A tree is written as a list between parentheses: its head, then its parts, with one space
between each two. Empty parts leave no trace.
-/

namespace ScriptFront

/-- The head and the parts that are not empty, between parentheses. -/
def parenthesized (head : Bytes) (parts : List Bytes) : Bytes :=
  byte '(' :: Bytes.join (text " ") ((head :: parts).filter (!·.isEmpty)) ++ [byte ')']

mutual

def Expr.render : Expr → Bytes
  | .assign name value => parenthesized (text "assign") [name.lexeme, value.render]
  | .binary left op right =>
    parenthesized (text "binary") [left.render, op.lexeme, right.render]
  | .logical left op right =>
    parenthesized (text "logical") [left.render, op.lexeme, right.render]
  | .grouping inner => parenthesized (text "grouping") [inner.render]
  | .literal _ value => parenthesized (text "literal") [value.literal]
  | .unary op right => parenthesized (text "unary") [op.lexeme, right.render]
  | .reference token => parenthesized (text "var") [token.lexeme]
  | .call callee _ args => parenthesized (text "call") (callee.render :: Expr.renderAll args)

def Expr.renderAll : List Expr → List Bytes
  | [] => []
  | e :: es => e.render :: Expr.renderAll es

end

mutual

def Stmt.render : Stmt → Bytes
  | .block _ body => parenthesized (text "block") (Stmt.renderAll body)
  | .expression value => parenthesized (text "expr") [value.render]
  | .conditional _ condition thenBranch none =>
    parenthesized (text "if") [condition.render, thenBranch.render]
  | .conditional _ condition thenBranch (some elseBranch) =>
    parenthesized (text "if") [condition.render, thenBranch.render, elseBranch.render]
  | .print _ value => parenthesized (text "print") [value.render]
  | .define name initial =>
    parenthesized (text "def") (name.lexeme :: (initial.map Expr.render).toList)
  | .loop _ condition body => parenthesized (text "while") [condition.render, body.render]
  | .function name params body =>
    parenthesized (text "function")
      (name.lexeme :: parenthesized [] (params.map Token.lexeme) :: Stmt.renderAll body)
  | .leave keyword value => parenthesized keyword.lexeme (value.map Expr.render).toList

def Stmt.renderAll : List Stmt → List Bytes
  | [] => []
  | s :: ss => s.render :: Stmt.renderAll ss

end

theorem Expr.renderAll_eq_map (es : List Expr) : Expr.renderAll es = es.map Expr.render := by
  induction es with
  | nil => rfl
  | cons e es ih => simp [Expr.renderAll, ih]

theorem Stmt.renderAll_eq_map (ss : List Stmt) : Stmt.renderAll ss = ss.map Stmt.render := by
  induction ss with
  | nil => rfl
  | cons s ss ih => simp [Stmt.renderAll, ih]

end ScriptFront
