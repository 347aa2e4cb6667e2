import ScriptFront.Parse.Expression

/-! # Statements and declarations

Where a statement stands inside another, the parser `self` reads it. A declaration that misses
something is dropped: the problem is reported where it was found, and reading goes on after the
next semicolon or before the next token that starts a declaration.
-/

namespace ScriptFront.Parse

open ScriptFront.Parser

/-- The tokens left after recovery from a problem at the first one: that token is dropped, and
so are all others up to a semicolon or to the start of a declaration. -/
def resume : List Token → List Token
  | [] => []
  | t :: rest =>
    if t.kind = .semicolon || rest.head?.any (·.kind.startsDeclaration) then rest
    else resume rest

theorem resume_isSuffix : ∀ ts : List Token, resume ts <:+ ts
  | [] => List.nil_suffix
  | t :: rest => by
    unfold resume
    split
    · exact List.suffix_cons t rest
    · exact (resume_isSuffix rest).trans (List.suffix_cons t rest)

theorem resume_length_lt (t : Token) (rest : List Token) :
    (resume (t :: rest)).length < (t :: rest).length := by
  unfold resume
  split
  · simp
  · exact Nat.lt_succ_of_le (resume_isSuffix rest).length_le

/-- Reads what `p` reads; if that is missing something, reports it and recovers. -/
def recovering {α : Type} (p : Parser α) : Parser (Option α) := fun ts =>
  match p ts with
  | .done value reports rest => .done (some value) reports rest
  | .failed missing reports rest =>
    .done none (reports ++ [⟨rest.head?, .expected missing⟩]) (resume rest)

def expressionStatement : Parser Stmt := do
  let value ← expression
  let _ ← expect .semicolon .semicolonAfterExpression
  return .expression value

def initialValue : Parser (Option Expr) := do
  match ← accept (· == .equal) with
  | none => return none
  | some _ => some <$> expression

def variableDeclaration : Parser Stmt := do
  let name ← expect .identifier .variableName
  let initial ← initialValue
  let _ ← expect .semicolon .semicolonAfterVariable
  return .define name initial

def printStatement (keyword : Token) : Parser Stmt := do
  let value ← expression
  let _ ← expect .semicolon .semicolonAfterValue
  return .print keyword value

def breakStatement (keyword : Token) : Parser Stmt := do
  let _ ← expect .semicolon .semicolonAfterBreak
  return .leave keyword none

/-- An expression, unless a token of kind `stop` comes first. -/
def expressionUnless (stop : Kind) : Parser (Option Expr) := do
  if ← nextIs stop then return none
  some <$> expression

def returnStatement (keyword : Token) : Parser Stmt := do
  let value ← expressionUnless .semicolon
  let _ ← expect .semicolon .semicolonAfterReturn
  return .leave keyword value

def whileStatement (self : Parser Stmt) (keyword : Token) : Parser Stmt := do
  let _ ← expect .leftParen .parenAfterWhile
  let condition ← expression
  let _ ← expect .rightParen .parenAfterWhileCondition
  return .loop keyword condition (← self)

/-- The statement after `else`, if there is one. -/
def alternative (self : Parser Stmt) : Parser (Option Stmt) := do
  match ← accept (· == .elseKw) with
  | none => return none
  | some _ => some <$> self

def ifStatement (self : Parser Stmt) (keyword : Token) : Parser Stmt := do
  let _ ← expect .leftParen .parenAfterIf
  let condition ← expression
  let _ ← expect .rightParen .parenAfterIfCondition
  let thenBranch ← self
  return .conditional keyword condition thenBranch (← alternative self)

def initializerAfter (t : Token) : Option (Parser (Option Stmt)) :=
  match t.kind with
  | .semicolon => some (pure none)
  | .varKw => some (some <$> variableDeclaration)
  | _ => none

/-- The first clause of a `for`: a declaration, an expression, or a semicolon alone. -/
def initializer : Parser (Option Stmt) := dispatch initializerAfter (some <$> expressionStatement)

/-- The loop a `for` stands for: `{ first; while (condition) { body; next; } }`, where the braces
are left out with the clauses they are for, and a missing condition is true. -/
def forLoop (keyword : Token) (first : Option Stmt) (condition next : Option Expr) (body : Stmt) :
    Stmt :=
  let body := match next with
    | none => body
    | some e => .block keyword [body, .expression e]
  let whole := .loop keyword (condition.getD (.literal keyword (.bool true))) body
  match first with
  | none => whole
  | some s => .block keyword [s, whole]

def forStatement (self : Parser Stmt) (keyword : Token) : Parser Stmt := do
  let _ ← expect .leftParen .parenAfterFor
  let first ← initializer
  let condition ← expressionUnless .semicolon
  let _ ← expect .semicolon .semicolonAfterCondition
  let next ← expressionUnless .rightParen
  let _ ← expect .rightParen .parenAfterForClauses
  return forLoop keyword first condition next (← self)

/-- A parameter after a comma, unless the list ends there. One that follows too many others is
reported and left out. -/
def nextParameter (params : List Token) : Parser (Option (List Token)) := do
  if ← nextIs .rightParen then return none
  let param ← expect .identifier .parameterName
  if mostParameters ≤ params.length then
    report (some param) .tooManyParameters
    return some params
  return some (params ++ [param])

def moreParameters (params : List Token) : Parser (Option (List Token)) := do
  match ← accept (· == .comma) with
  | none => return none
  | some _ => nextParameter params

/-- The parameters of a function: the first may be missing, and a comma may follow the last. -/
def parameters : Parser (List Token) := do
  repeatFrom moreParameters (← accept (· == .identifier)).toList

/-- One more declaration, unless the body ends here; one that is dropped adds nothing. -/
def moreDeclarations (isEnd : Option Kind → Bool) (declaration : Parser (Option Stmt))
    (body : List Stmt) : Parser (Option (List Stmt)) := do
  if isEnd ((← peek).map Token.kind) then return none
  return some (body ++ (← declaration).toList)

def declarations (isEnd : Option Kind → Bool) (declaration : Parser (Option Stmt)) :
    Parser (List Stmt) :=
  repeatFrom (moreDeclarations isEnd declaration) []

def endsBlock : Option Kind → Bool
  | none => true
  | some k => k == .rightBrace

def blockOf (declaration : Parser (Option Stmt)) : Parser (List Stmt) := do
  let body ← declarations endsBlock declaration
  let _ ← expect .rightBrace .braceAfterBlock
  return body

def functionDeclaration (declaration : Parser (Option Stmt)) : Parser Stmt := do
  let name ← expect .identifier .functionName
  let _ ← expect .leftParen .parenAfterFunctionName
  let params ← parameters
  let _ ← expect .rightParen .parenAfterParameters
  let _ ← expect .leftBrace .braceBeforeFunctionBody
  return .function name params (← blockOf declaration)

def declarationAfter (declaration : Parser (Option Stmt)) (t : Token) : Option (Parser Stmt) :=
  match t.kind with
  | .functionKw => some (functionDeclaration declaration)
  | .varKw => some variableDeclaration
  | _ => none

/-- A declaration that is not recovered from. Those without a keyword of their own are
statements. -/
def declarationBody (self : Parser Stmt) (declaration : Parser (Option Stmt)) : Parser Stmt :=
  dispatch (declarationAfter declaration) self

def declarationOf (self : Parser Stmt) : Parser (Option Stmt) :=
  fixed fun declaration => recovering (declarationBody self declaration)

/-- How a statement goes on after its first token, if that is a keyword or a brace. -/
def statementAfter (self : Parser Stmt) (t : Token) : Option (Parser Stmt) :=
  match t.kind with
  | .forKw => some (forStatement self t)
  | .ifKw => some (ifStatement self t)
  | .printKw => some (printStatement t)
  | .breakKw => some (breakStatement t)
  | .returnKw => some (returnStatement t)
  | .whileKw => some (whileStatement self t)
  | .leftBrace => some (Stmt.block t <$> blockOf (declarationOf self))
  | _ => none

def statementBody (self : Parser Stmt) : Parser Stmt :=
  dispatch (statementAfter self) expressionStatement

def statement : Parser Stmt := fixed statementBody

/-- A declaration, or nothing if it had to be dropped. -/
def declaration : Parser (Option Stmt) := declarationOf statement

def program : Parser (List Stmt) := declarations Option.isNone declaration

end ScriptFront.Parse
