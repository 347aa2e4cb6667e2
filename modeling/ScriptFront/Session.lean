import ScriptFront.Diagnostic.Log
import ScriptFront.Parse.Cursor
import ScriptFront.Token.Scan
import ScriptFront.Tree.Basic

/-! # Sessions

A session scans and parses one source after another and records all diagnostics in one log. A
lexical problem does not keep a source from being parsed.
-/

namespace ScriptFront

/-- The statements of a source and the diagnostics of scanning and parsing it, in this order. -/
structure Program where
  stmts : List Stmt
  diagnostics : List Diagnostic
  deriving Repr

def readProgram (source : Bytes) : Program :=
  let s := scan source
  let parsed := (Cursor.ofTokens s.tokens).parse
  ⟨parsed.result, s.diagnostics ++ parsed.diagnostics⟩

structure Session where
  log : Log
  deriving Repr

namespace Session

/-- The diagnostics since the log held `before` of them, under a heading. -/
def errorSince (heading : String) (before : Nat) (log : Log) : Option Bytes :=
  (Diagnostic.summary? (log.diagnostics.drop before)).map (text heading ++ text ":\n" ++ ·)

def scan (s : Session) (source : Bytes) : List Token × Option Bytes × Session :=
  let result := ScriptFront.scan source
  let log := s.log.reportAll result.diagnostics
  (result.tokens, errorSince "lex" s.log.diagnostics.length log, { s with log })

/-- Scans and parses a source: the statements that were recovered, and an error if anything was
reported. -/
def run (s : Session) (source : Bytes) : List Stmt × Option Bytes × Session :=
  let result := readProgram source
  let log := s.log.reportAll result.diagnostics
  (result.stmts, errorSince "parse" s.log.diagnostics.length log, { s with log })

def reset (s : Session) : Session := { s with log := s.log.reset }

end Session

end ScriptFront
