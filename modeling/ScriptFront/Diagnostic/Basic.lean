import ScriptFront.Text.Utf8
import ScriptFront.Token.Basic

/-! # Diagnostics

A diagnostic is a problem at a place. Problems are causes; their wording is in
`Problem.message` alone.
-/

namespace ScriptFront

/-- What the grammar requires at the place where a declaration is given up. -/
inductive Expectation where
  | functionName | parenAfterFunctionName | parameterName | parenAfterParameters
  | braceBeforeFunctionBody
  | variableName | semicolonAfterVariable
  | parenAfterFor | semicolonAfterCondition | parenAfterForClauses
  | parenAfterIf | parenAfterIfCondition
  | parenAfterWhile | parenAfterWhileCondition
  | semicolonAfterValue | semicolonAfterBreak | semicolonAfterReturn | semicolonAfterExpression
  | braceAfterBlock | parenAfterArguments | parenAfterExpression | expression
  deriving DecidableEq, Repr

def Expectation.phrase : Expectation → String
  | .functionName => "function name"
  | .parenAfterFunctionName => "`(` after function name"
  | .parameterName => "parameter name"
  | .parenAfterParameters => "`)` after parameters"
  | .braceBeforeFunctionBody => "`\x7b` before function body"
  | .variableName => "variable name"
  | .semicolonAfterVariable => "`;` after variable declaration"
  | .parenAfterFor => "`(` after `for`"
  | .semicolonAfterCondition => "`;` after loop condition"
  | .parenAfterForClauses => "`)` after for clauses"
  | .parenAfterIf => "`(` after `if`"
  | .parenAfterIfCondition => "`)` after if condition"
  | .parenAfterWhile => "`(` after `while`"
  | .parenAfterWhileCondition => "`)` after while condition"
  | .semicolonAfterValue => "`;` after value"
  | .semicolonAfterBreak => "`;` after `break`"
  | .semicolonAfterReturn => "`;` after return value"
  | .semicolonAfterExpression => "`;` after expression"
  | .braceAfterBlock => "`\x7d` after block"
  | .parenAfterArguments => "`)` after arguments"
  | .parenAfterExpression => "`)` after expression"
  | .expression => "expression"

/-- The greatest number of parameters of a function, and of arguments of a call. -/
def mostParameters : Nat := 255

inductive Problem where
  | unexpectedCharacter (unit : Rune)
  | unterminatedString
  | expected (what : Expectation)
  | invalidAssignmentTarget
  | tooManyParameters
  | tooManyArguments
  | note (message : Bytes)
  deriving DecidableEq, Repr

namespace Problem

def message : Problem → Bytes
  | .unexpectedCharacter unit =>
    text "unexpected character: " ++ String.utf8EncodeChar unit.shown
  | .unterminatedString => text "unterminated string"
  | .expected what => text "expected " ++ text what.phrase
  | .invalidAssignmentTarget => text "invalid assignment target"
  | .tooManyParameters =>
    text "too many parameters (max " ++ Bytes.decimal mostParameters ++ text ")"
  | .tooManyArguments =>
    text "too many arguments (max " ++ Bytes.decimal mostParameters ++ text ")"
  | .note message => message

/-- A structural problem is one that made the parser give up a declaration. -/
def isStructural : Problem → Bool
  | .expected _ => true
  | _ => false

end Problem

/-- Where on its line a diagnostic is located. -/
inductive Place where
  | wholeLine
  | lexeme (bytes : Bytes)
  | endOfInput
  deriving DecidableEq, Repr

structure Diagnostic where
  line : Int
  place : Place
  problem : Problem
  deriving DecidableEq, Repr

namespace Diagnostic

def atLine (line : Int) (problem : Problem) : Diagnostic := ⟨line, .wholeLine, problem⟩

def atToken (t : Token) (problem : Problem) : Diagnostic :=
  ⟨t.line, if t.kind = .eof then .endOfInput else .lexeme t.lexeme, problem⟩

/-- The diagnostic as it is shown; a lexeme without bytes is not. -/
def render (d : Diagnostic) : Bytes :=
  match d.place with
  | .endOfInput => text "at end: " ++ d.problem.message
  | .lexeme (b :: rest) =>
    text "at " ++ Bytes.integer d.line ++ text ": `" ++ b :: rest ++ text "`, "
      ++ d.problem.message
  | .lexeme [] | .wholeLine =>
    text "at " ++ Bytes.integer d.line ++ text ": " ++ d.problem.message

def summary? : List Diagnostic → Option Bytes
  | [] => none
  | ds => some (Bytes.join [Bytes.newline] (ds.map render))

end Diagnostic

end ScriptFront
