import ScriptFront.Parse.Statement

/-! # Parsing a list of tokens

A cursor stands in the tokens before the first end of input. What follows that is never looked
at; a list without an end of input gets one on the line of its last token.
-/

namespace ScriptFront

open Parse

/-- The tokens still to be read, and the one that ends the input. -/
structure Cursor where
  rest : List Token
  ending : Token
  deriving DecidableEq, Repr

namespace Cursor

def isEnding (t : Token) : Bool := t.kind == .eof

def ofTokens (ts : List Token) : Cursor where
  rest := ts.takeWhile (!isEnding ·)
  ending := (ts.find? isEnding).getD (.ending ((ts.getLast?.map Token.line).getD 1))

def atEnd (c : Cursor) : Bool := c.rest.isEmpty

/-- What one call gives: its result, the diagnostics it added, and the cursor after it. -/
structure Outcome (α : Type) where
  result : α
  diagnostics : List Diagnostic
  cursor : Cursor
  deriving Repr

def located (c : Cursor) (reports : List Report) : List Diagnostic :=
  reports.map (Report.diagnostic c.ending)

/-- Reads one expression. If something is missing, the cursor stays where that was found. -/
def parseExpression (c : Cursor) : Outcome (Except Diagnostic Expr) :=
  match expression c.rest with
  | .done e reports rest => ⟨.ok e, c.located reports, { c with rest }⟩
  | .failed missing reports rest =>
    let d := Report.diagnostic c.ending ⟨rest.head?, .expected missing⟩
    ⟨.error d, c.located reports ++ [d], { c with rest }⟩

/-- Reads all declarations up to the end of the input. -/
def parse (c : Cursor) : Outcome (List Stmt) :=
  match program c.rest with
  | .done stmts reports rest => ⟨stmts, c.located reports, { c with rest }⟩
  | .failed _ reports rest => ⟨[], c.located reports, { c with rest }⟩

end Cursor

end ScriptFront
