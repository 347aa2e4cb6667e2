import ScriptFront.Token.Basic

/-! # Syntax trees

The expressions and statements of a script. Each keeps the tokens it was made of, as far as a
later stage needs them.
-/

namespace ScriptFront

inductive Expr where
  | assign (name : Token) (value : Expr)
  | binary (left : Expr) (op : Token) (right : Expr)
  /-- A short-circuiting `and` or `or`. -/
  | logical (left : Expr) (op : Token) (right : Expr)
  | grouping (inner : Expr)
  | literal (token : Token) (value : Value)
  | unary (op : Token) (right : Expr)
  | reference (token : Token)
  | call (callee : Expr) (paren : Token) (args : List Expr)
  deriving Repr

inductive Stmt where
  /-- A block with its opening brace, or with the keyword of the loop it was made for. -/
  | block (brace : Token) (body : List Stmt)
  | expression (value : Expr)
  | conditional (keyword : Token) (condition : Expr) (thenBranch : Stmt) (elseBranch : Option Stmt)
  | print (keyword : Token) (value : Expr)
  | define (name : Token) (initial : Option Expr)
  | loop (keyword : Token) (condition : Expr) (body : Stmt)
  | function (name : Token) (params : List Token) (body : List Stmt)
  /-- What both `return` and `break` make; the keyword tells them apart. -/
  | leave (keyword : Token) (value : Option Expr)
  deriving Repr

/-- The token an expression is attributed to. -/
def Expr.base : Expr → Token
  | .assign name _ => name
  | .binary _ op _ => op
  | .logical _ op _ => op
  | .grouping inner => inner.base
  | .literal token _ => token
  | .unary op _ => op
  | .reference token => token
  | .call _ paren _ => paren

def Stmt.base : Stmt → Token
  | .block brace _ => brace
  | .expression value => value.base
  | .conditional keyword _ _ _ => keyword
  | .print keyword _ => keyword
  | .define name _ => name
  | .loop keyword _ _ => keyword
  | .function name _ _ => name
  | .leave keyword _ => keyword

end ScriptFront
