import ScriptFront.Parse.Statement
import ScriptFront.Proofs.Grammar.Expression

/-! # Parsing by index

The same parser with a cursor that is an index into the tokens. Looking outside the tokens has no
result. How deep calls may nest is given, where another turn of a loop counts as a call; what goes
deeper has no result either. So a run that has a result has looked only at tokens that are there,
and it ends if it has one at some depth.
-/

namespace ScriptFront.Slice

open Parse Grammar

structure State where
  tokens : List Token
  /-- The index of the next token. -/
  current : Nat
  reported : List Diagnostic

/-- A step that always succeeds, if it has a result. -/
abbrev Run : Type → Type := StateT State Option

/-- A step that may give up with a problem. -/
abbrev Attempt : Type → Type := ExceptT Diagnostic Run

def tooDeep {α : Type} : State → Option α := fun _ => none

/-- A parser on tokens, to which an end of input is added if they do not end with one. -/
def new (ts : List Token) : State :=
  match ts.getLast? with
  | none => ⟨[.ending 1], 0, []⟩
  | some last => ⟨if last.kind = .eof then ts else ts ++ [.ending last.line], 0, []⟩

/-! ### The cursor -/

def peek : Run Token := fun s => (s.tokens[s.current]?).map (·, s)

def previous : Run Token := fun s =>
  if s.current = 0 then none else (s.tokens[s.current - 1]?).map (·, s)

def isAtEnd : Run Bool := do
  return (← peek).kind == .eof

def advance : Run Token := do
  if !(← isAtEnd) then modify fun s => { s with current := s.current + 1 }
  previous

def nextIs (wanted : Kind → Bool) : Run Bool := do
  if ← isAtEnd then return false
  return wanted (← peek).kind

def accept (wanted : Kind → Bool) : Run Bool := do
  if !(← nextIs wanted) then return false
  let _ ← advance
  return true

def report (t : Token) (problem : Problem) : Run Unit :=
  modify fun s => { s with reported := s.reported ++ [.atToken t problem] }

def errorAt {α : Type} (t : Token) (problem : Problem) : Attempt α := do
  report t problem
  throw (.atToken t problem)

def consume (kind : Kind) (missing : Expectation) : Attempt Token := do
  if ← nextIs (· == kind) then advance
  else errorAt (← peek) (.expected missing)

/-- The skipping of tokens up to a semicolon or to the start of a declaration. -/
def skip : Nat → Run Unit
  | 0 => tooDeep
  | n + 1 => do
    if ← isAtEnd then return
    if (← previous).kind = .semicolon then return
    if (← peek).kind.startsDeclaration then return
    let _ ← advance
    skip n

def synchronize (n : Nat) : Run Unit := do
  let _ ← advance
  skip n

/-! ### Expressions -/

def limitArguments (count : Nat) : Attempt Unit :=
  if mostParameters ≤ count then do report (← peek) .tooManyArguments else pure ()

mutual

def assignment : Nat → Attempt Expr
  | 0 => tooDeep
  | n + 1 => do
    let target ← binary n .logicOr
    if ← accept (· == .equal) then
      let op ← previous
      let right ← assignment n
      match target with
      | .reference name => return .assign name right
      | _ =>
        report op .invalidAssignmentTarget
        return right
    else if ← accept Kind.isCompound then
      let op ← previous
      let right ← binary n .term
      match target with
      | .reference name => return .assign name (.binary target op right)
      | _ =>
        report op .invalidAssignmentTarget
        return right
    else return target

def operand : Nat → Chain → Attempt Expr
  | 0, _ => tooDeep
  | n + 1, .factor => unary n
  | n + 1, .term => binary n .factor
  | n + 1, .comparison => binary n .term
  | n + 1, .equality => binary n .comparison
  | n + 1, .logicAnd => binary n .equality
  | n + 1, .logicOr => binary n .logicAnd

def binary : Nat → Chain → Attempt Expr
  | 0, _ => tooDeep
  | n + 1, c => do
    binaryLoop n c (← operand n c)

def binaryLoop : Nat → Chain → Expr → Attempt Expr
  | 0, _, _ => tooDeep
  | n + 1, c, left => do
    if ← accept c.isOperator then
      let op ← previous
      let right ← operand n c
      binaryLoop n c (c.build left op right)
    else return left

def unary : Nat → Attempt Expr
  | 0 => tooDeep
  | n + 1 => do
    if ← accept Kind.isUnary then
      let op ← previous
      return .unary op (← unary n)
    else call n

def call : Nat → Attempt Expr
  | 0 => tooDeep
  | n + 1 => do
    callLoop n (← primary n)

def callLoop : Nat → Expr → Attempt Expr
  | 0, _ => tooDeep
  | n + 1, callee => do
    if ← accept (· == .leftParen) then callLoop n (← finishCall n callee)
    else return callee

def finishCall : Nat → Expr → Attempt Expr
  | 0, _ => tooDeep
  | n + 1, callee => do
    let args ← arguments n
    let paren ← consume .rightParen .parenAfterArguments
    return .call callee paren args

def arguments : Nat → Attempt (List Expr)
  | 0 => tooDeep
  | n + 1 => do
    if ← nextIs (· == .rightParen) then return []
    else argumentLoop n []

def argumentLoop : Nat → List Expr → Attempt (List Expr)
  | 0, _ => tooDeep
  | n + 1, args => do
    limitArguments args.length
    let arg ← assignment n
    if ← accept (· == .comma) then argumentLoop n (args ++ [arg])
    else return args ++ [arg]

def primary : Nat → Attempt Expr
  | 0 => tooDeep
  | n + 1 => do
    primaryAt n (← peek)

def primaryAt : Nat → Token → Attempt Expr
  | 0, _ => tooDeep
  | n + 1, t =>
    match literal? t with
    | some e => do
      let _ ← advance
      return e
    | none =>
      if t.kind = .leftParen then do
        let _ ← advance
        let inner ← assignment n
        let _ ← consume .rightParen .parenAfterExpression
        return .grouping inner
      else errorAt t (.expected .expression)

end

/-! ### Statements and declarations -/

def initialValue (n : Nat) : Attempt (Option Expr) := do
  if ← accept (· == .equal) then some <$> assignment n
  else return none

def variableDeclaration (n : Nat) : Attempt Stmt := do
  let name ← consume .identifier .variableName
  let initial ← initialValue n
  let _ ← consume .semicolon .semicolonAfterVariable
  return .define name initial

def expressionStatement (n : Nat) : Attempt Stmt := do
  let value ← assignment n
  let _ ← consume .semicolon .semicolonAfterExpression
  return .expression value

def printStatement (n : Nat) : Attempt Stmt := do
  let keyword ← previous
  let value ← assignment n
  let _ ← consume .semicolon .semicolonAfterValue
  return .print keyword value

def breakStatement : Attempt Stmt := do
  let keyword ← previous
  let _ ← consume .semicolon .semicolonAfterBreak
  return .leave keyword none

def expressionUnless (n : Nat) (stop : Kind) : Attempt (Option Expr) := do
  if ← nextIs (· == stop) then return none
  else some <$> assignment n

def returnStatement (n : Nat) : Attempt Stmt := do
  let keyword ← previous
  let value ← expressionUnless n .semicolon
  let _ ← consume .semicolon .semicolonAfterReturn
  return .leave keyword value

def initializer (n : Nat) : Attempt (Option Stmt) := do
  if ← accept (· == .semicolon) then return none
  else if ← accept (· == .varKw) then some <$> variableDeclaration n
  else some <$> expressionStatement n

def parameterLoop : Nat → List Token → Attempt (List Token)
  | 0, _ => tooDeep
  | n + 1, params => do
    if ← accept (· == .comma) then
      if ← nextIs (· == .rightParen) then return params
      else
        let param ← consume .identifier .parameterName
        if mostParameters ≤ params.length then
          report param .tooManyParameters
          parameterLoop n params
        else parameterLoop n (params ++ [param])
    else return params

def firstParameter : Attempt (List Token) := do
  if ← nextIs (· == .identifier) then return [← advance]
  else return []

def parameters (n : Nat) : Attempt (List Token) := do
  parameterLoop n (← firstParameter)

def endsBlock : Run Bool := do
  if ← nextIs (· == .rightBrace) then return true
  else isAtEnd

/-- What `m` reads. If that is given up, tokens are skipped, and nothing is returned. -/
def recovering {α : Type} (n : Nat) (m : Attempt α) : Run (Option α) := do
  match ← ExceptT.run m with
  | .ok a => return some a
  | .error _ =>
    synchronize n
    return none

mutual

def declaration : Nat → Run (Option Stmt)
  | 0 => tooDeep
  | n + 1 => recovering n do
    if ← accept (· == .functionKw) then function n
    else if ← accept (· == .varKw) then variableDeclaration n
    else statement n

def function : Nat → Attempt Stmt
  | 0 => tooDeep
  | n + 1 => do
    let name ← consume .identifier .functionName
    let _ ← consume .leftParen .parenAfterFunctionName
    let params ← parameters n
    let _ ← consume .rightParen .parenAfterParameters
    let _ ← consume .leftBrace .braceBeforeFunctionBody
    return .function name params (← block n)

def declarationLoop : Nat → Run Bool → List Stmt → Run (List Stmt)
  | 0, _, _ => tooDeep
  | n + 1, stop, stmts => do
    if ← stop then return stmts
    else declarationLoop n stop (stmts ++ (← declaration n).toList)

def block : Nat → Attempt (List Stmt)
  | 0 => tooDeep
  | n + 1 => do
    let stmts ← declarationLoop n endsBlock []
    let _ ← consume .rightBrace .braceAfterBlock
    return stmts

def statement : Nat → Attempt Stmt
  | 0 => tooDeep
  | n + 1 => do
    if ← accept (· == .forKw) then forStatement n
    else if ← accept (· == .ifKw) then ifStatement n
    else if ← accept (· == .printKw) then printStatement n
    else if ← accept (· == .breakKw) then breakStatement
    else if ← accept (· == .returnKw) then returnStatement n
    else if ← accept (· == .whileKw) then whileStatement n
    else if ← accept (· == .leftBrace) then
      let brace ← previous
      return .block brace (← block n)
    else expressionStatement n

def forStatement : Nat → Attempt Stmt
  | 0 => tooDeep
  | n + 1 => do
    let keyword ← previous
    let _ ← consume .leftParen .parenAfterFor
    let first ← initializer n
    let condition ← expressionUnless n .semicolon
    let _ ← consume .semicolon .semicolonAfterCondition
    let next ← expressionUnless n .rightParen
    let _ ← consume .rightParen .parenAfterForClauses
    return forLoop keyword first condition next (← statement n)

def ifStatement : Nat → Attempt Stmt
  | 0 => tooDeep
  | n + 1 => do
    let keyword ← previous
    let _ ← consume .leftParen .parenAfterIf
    let condition ← assignment n
    let _ ← consume .rightParen .parenAfterIfCondition
    let thenBranch ← statement n
    return .conditional keyword condition thenBranch (← alternative n)

def alternative : Nat → Attempt (Option Stmt)
  | 0 => tooDeep
  | n + 1 => do
    if ← accept (· == .elseKw) then some <$> statement n
    else return none

def whileStatement : Nat → Attempt Stmt
  | 0 => tooDeep
  | n + 1 => do
    let keyword ← previous
    let _ ← consume .leftParen .parenAfterWhile
    let condition ← assignment n
    let _ ← consume .rightParen .parenAfterWhileCondition
    return .loop keyword condition (← statement n)

end

/-- A declaration before it is recovered from. -/
def declarationBody (n : Nat) : Attempt Stmt := do
  if ← accept (· == .functionKw) then function n
  else if ← accept (· == .varKw) then variableDeclaration n
  else statement n

theorem declaration_succ (n : Nat) : declaration (n + 1) = recovering n (declarationBody n) := by
  rw [declaration]
  rfl

def parse (n : Nat) : Run (List Stmt) := declarationLoop n isAtEnd []

def parseExpression (n : Nat) : Run (Except Diagnostic Expr) := ExceptT.run (assignment n)

end ScriptFront.Slice
