import ScriptFront.Parse.Statement
import ScriptFront.Proofs.Grammar.Expression

/-! # Derivations of statements and programs

The grammar of statements and declarations, where an expression is an `assignment`:

    program     = declaration* EOF ;
    declaration = funDecl | varDecl | statement ;
    funDecl     = "function" IDENT "(" params? ")" block ;
    params      = IDENT? ( "," IDENT )* ","? ;
    varDecl     = "var" IDENT ( "=" expression )? ";" ;
    statement   = forStmt | ifStmt | printStmt | breakStmt | returnStmt | whileStmt | block
                | exprStmt ;
    forStmt     = "for" "(" ( varDecl | exprStmt | ";" ) expression? ";" expression? ")" statement ;
    ifStmt      = "if" "(" expression ")" statement ( "else" statement )? ;
    printStmt   = "print" expression ";" ;
    breakStmt   = "break" ";" ;
    returnStmt  = "return" expression? ";" ;
    whileStmt   = "while" "(" expression ")" statement ;
    block       = "{" declaration* "}" ;
    exprStmt    = expression ";" ;

An `else` belongs to the nearest `if` that can take it. So the statement before an `else` must not
itself be able to take it, which is recorded in the form of a statement.
-/

namespace ScriptFront.Grammar

open Parse

/-! ### Parts without statements in them -/

/-- The parameters of a function with the commas between them, and perhaps one after them. -/
structure Parameters where
  first : Option (Terminal .identifier)
  more : List (Terminal .comma × Terminal .identifier)
  trailing : Option (Terminal .comma)

namespace Parameters

def yield (p : Parameters) : List Token :=
  (p.first.map Subtype.val).toList ++ p.more.flatMap (fun e => [e.1.1, e.2.1]) ++
    (p.trailing.map Subtype.val).toList

def names (p : Parameters) : List Token :=
  (p.first.map Subtype.val).toList ++ p.more.map (·.2.1)

/-- The parameters that count. -/
def value (p : Parameters) : List Token := p.names.take mostParameters

def reports (p : Parameters) : List Report :=
  (p.names.drop mostParameters).map fun name => ⟨some name, .tooManyParameters⟩

end Parameters

structure Variable where
  keyword : Terminal .varKw
  name : Terminal .identifier
  initial : Option (Terminal .equal × Expression)
  semicolon : Terminal .semicolon

namespace Variable

def initialYield (v : Variable) : List Token :=
  (v.initial.map fun e => e.1.1 :: e.2.yield).getD []

def yield (v : Variable) : List Token :=
  v.keyword.1 :: v.name.1 :: (v.initialYield ++ [v.semicolon.1])

def value (v : Variable) : Stmt := .define v.name.1 (v.initial.map (·.2.value))

def reports (v : Variable) : List Report := (v.initial.map (·.2.reports)).getD []

end Variable

abbrev OptionalExpression : Type := Option Expression

namespace OptionalExpression

def yield (e : OptionalExpression) : List Token := (e.map ExprTree.yield).getD []

def value (e : OptionalExpression) : Option Expr := e.map ExprTree.value

def reports (e : OptionalExpression) : List Report := (e.map ExprTree.reports).getD []

end OptionalExpression

inductive Initializer where
  | none (semicolon : Terminal .semicolon)
  | define (v : Variable)
  | expression (e : Expression) (semicolon : Terminal .semicolon)

namespace Initializer

def yield : Initializer → List Token
  | none semicolon => [semicolon.1]
  | define v => v.yield
  | expression e semicolon => e.yield ++ [semicolon.1]

def value : Initializer → Option Stmt
  | none _ => .none
  | define v => some v.value
  | expression e _ => some (.expression e.value)

def reports : Initializer → List Report
  | none _ => []
  | define v => v.reports
  | expression e _ => e.reports

end Initializer

/-- What stands between `for` and the body of the loop. -/
structure ForClauses where
  opening : Terminal .leftParen
  first : Initializer
  condition : OptionalExpression
  semicolon : Terminal .semicolon
  next : OptionalExpression
  closing : Terminal .rightParen

namespace ForClauses

def yield (c : ForClauses) : List Token :=
  c.opening.1 :: (c.first.yield ++ (c.condition.yield ++
    c.semicolon.1 :: (c.next.yield ++ [c.closing.1])))

def reports (c : ForClauses) : List Report :=
  c.first.reports ++ (c.condition.reports ++ c.next.reports)

/-- The loop made of the clauses and a body: `{ first; while (condition) { body; next; } }`, with a
pair of braces for each of `first` and `next` that is there. -/
def value (c : ForClauses) (keyword : Token) (body : Stmt) : Stmt :=
  let condition := c.condition.value.getD (.literal keyword (.bool true))
  let body := match c.next.value with
    | none => body
    | some next => .block keyword [body, .expression next]
  match c.first.value with
  | none => .loop keyword condition body
  | some first => .block keyword [first, .loop keyword condition body]

end ForClauses

/-- The condition of an `if` or a `while`. -/
structure Condition where
  opening : Terminal .leftParen
  inner : Expression
  closing : Terminal .rightParen

namespace Condition

def yield (c : Condition) : List Token := c.opening.1 :: (c.inner.yield ++ [c.closing.1])

def value (c : Condition) : Expr := c.inner.value

def reports (c : Condition) : List Report := c.inner.reports

end Condition

/-! ### Statements -/

inductive StmtForm where
  /-- A statement, and whether it takes an `else` that follows it: it does if it ends with an `if`
  without `else`. -/
  | statement (takesElse : Bool)
  | declaration
  /-- `declaration*` -/
  | declarations

inductive StmtTree : StmtForm → Type where
  | forLoop {b : Bool} (keyword : Terminal .forKw) (clauses : ForClauses)
      (body : StmtTree (.statement b)) : StmtTree (.statement b)
  | ifThen {b : Bool} (keyword : Terminal .ifKw) (condition : Condition)
      (thenBranch : StmtTree (.statement b)) : StmtTree (.statement true)
  | ifElse {b : Bool} (keyword : Terminal .ifKw) (condition : Condition)
      (thenBranch : StmtTree (.statement false)) (elseKeyword : Terminal .elseKw)
      (elseBranch : StmtTree (.statement b)) : StmtTree (.statement b)
  | print (keyword : Terminal .printKw) (e : Expression) (semicolon : Terminal .semicolon) :
      StmtTree (.statement false)
  | leaveLoop (keyword : Terminal .breakKw) (semicolon : Terminal .semicolon) :
      StmtTree (.statement false)
  | leaveFunction (keyword : Terminal .returnKw) (e : OptionalExpression)
      (semicolon : Terminal .semicolon) : StmtTree (.statement false)
  | whileLoop {b : Bool} (keyword : Terminal .whileKw) (condition : Condition)
      (body : StmtTree (.statement b)) : StmtTree (.statement b)
  | block (opening : Terminal .leftBrace) (body : StmtTree .declarations)
      (closing : Terminal .rightBrace) : StmtTree (.statement false)
  | expression (e : Expression) (semicolon : Terminal .semicolon) : StmtTree (.statement false)
  | function (keyword : Terminal .functionKw) (name : Terminal .identifier)
      (opening : Terminal .leftParen) (params : Parameters) (closing : Terminal .rightParen)
      (openingBrace : Terminal .leftBrace) (body : StmtTree .declarations)
      (closingBrace : Terminal .rightBrace) : StmtTree .declaration
  | define (v : Variable) : StmtTree .declaration
  | statement {b : Bool} (s : StmtTree (.statement b)) : StmtTree .declaration
  | nil : StmtTree .declarations
  | cons (first : StmtTree .declaration) (more : StmtTree .declarations) : StmtTree .declarations

abbrev Program : Type := StmtTree .declarations

abbrev StmtForm.Value : StmtForm → Type
  | .statement _ | .declaration => Stmt
  | .declarations => List Stmt

namespace StmtTree

@[simp]
def yield {form : StmtForm} : StmtTree form → List Token
  | forLoop keyword clauses body => keyword.1 :: (clauses.yield ++ body.yield)
  | ifThen keyword condition thenBranch => keyword.1 :: (condition.yield ++ thenBranch.yield)
  | ifElse keyword condition thenBranch elseKeyword elseBranch =>
    keyword.1 :: (condition.yield ++ (thenBranch.yield ++ elseKeyword.1 :: elseBranch.yield))
  | print keyword e semicolon => keyword.1 :: (e.yield ++ [semicolon.1])
  | leaveLoop keyword semicolon => [keyword.1, semicolon.1]
  | leaveFunction keyword e semicolon => keyword.1 :: (e.yield ++ [semicolon.1])
  | whileLoop keyword condition body => keyword.1 :: (condition.yield ++ body.yield)
  | block opening body closing => opening.1 :: (body.yield ++ [closing.1])
  | expression e semicolon => e.yield ++ [semicolon.1]
  | function keyword name opening params closing openingBrace body closingBrace =>
    keyword.1 :: name.1 :: opening.1 :: (params.yield ++
      closing.1 :: openingBrace.1 :: (body.yield ++ [closingBrace.1]))
  | define v => v.yield
  | statement s => s.yield
  | nil => []
  | cons first more => first.yield ++ more.yield

@[simp]
def value {form : StmtForm} : StmtTree form → form.Value
  | forLoop keyword clauses body => clauses.value keyword.1 body.value
  | ifThen keyword condition thenBranch =>
    .conditional keyword.1 condition.value thenBranch.value none
  | ifElse keyword condition thenBranch _ elseBranch =>
    .conditional keyword.1 condition.value thenBranch.value (some elseBranch.value)
  | print keyword e _ => .print keyword.1 e.value
  | leaveLoop keyword _ => .leave keyword.1 none
  | leaveFunction keyword e _ => .leave keyword.1 e.value
  | whileLoop keyword condition body => .loop keyword.1 condition.value body.value
  | block opening body _ => .block opening.1 body.value
  | expression e _ => .expression e.value
  | function _ name _ params _ _ body _ => .function name.1 params.value body.value
  | define v => v.value
  | statement s => s.value
  | nil => []
  | cons first more => first.value :: more.value

@[simp]
def reports {form : StmtForm} : StmtTree form → List Report
  | forLoop _ clauses body => clauses.reports ++ body.reports
  | ifThen _ condition thenBranch => condition.reports ++ thenBranch.reports
  | ifElse _ condition thenBranch _ elseBranch =>
    condition.reports ++ (thenBranch.reports ++ elseBranch.reports)
  | print _ e _ => e.reports
  | leaveLoop _ _ => []
  | leaveFunction _ e _ => e.reports
  | whileLoop _ condition body => condition.reports ++ body.reports
  | block _ body _ => body.reports
  | expression e _ => e.reports
  | function _ _ _ params _ _ body _ => params.reports ++ body.reports
  | define v => v.reports
  | statement s => s.reports
  | nil => []
  | cons first more => first.reports ++ more.reports

end StmtTree

end ScriptFront.Grammar
