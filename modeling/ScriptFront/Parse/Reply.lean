import ScriptFront.Diagnostic.Basic

/-! # Parsers

A parser reads tokens from the front of a list that holds no end of input. It either returns a
value or is missing something at the place where it stopped; in both cases it may have reported
problems on the way. The tokens it leaves are the ones it has not read.
-/

namespace ScriptFront.Parse

/-- A problem at a token, or at the end of the input. -/
structure Report where
  site : Option Token
  problem : Problem
  deriving DecidableEq, Repr

/-- The diagnostic of a report, given the token that ends the input. -/
def Report.diagnostic (ending : Token) (r : Report) : Diagnostic :=
  .atToken (r.site.getD ending) r.problem

inductive Reply (α : Type) where
  | done (value : α) (reports : List Report) (rest : List Token)
  | failed (missing : Expectation) (reports : List Report) (rest : List Token)
  deriving Repr

namespace Reply

variable {α β : Type}

/-- The same reply with reports made before it. -/
def after (earlier : List Report) : Reply α → Reply α
  | .done value reports rest => .done value (earlier ++ reports) rest
  | .failed missing reports rest => .failed missing (earlier ++ reports) rest

/-- The problems reported on the way, without the one that ended a failure. -/
def reports : Reply α → List Report
  | .done _ reports _ => reports
  | .failed _ reports _ => reports

def rest : Reply α → List Token
  | .done _ _ rest => rest
  | .failed _ _ rest => rest

end Reply

end ScriptFront.Parse

namespace ScriptFront

open Parse

def Parser (α : Type) : Type := List Token → Reply α

namespace Parser

variable {α β : Type}

protected def pure (value : α) : Parser α := fun ts => .done value [] ts

protected def bind (p : Parser α) (f : α → Parser β) : Parser β := fun ts =>
  match p ts with
  | .done value reports rest => (f value rest).after reports
  | .failed missing reports rest => .failed missing reports rest

instance : Monad Parser where
  pure := Parser.pure
  bind := Parser.bind

def fail (missing : Expectation) : Parser α := fun ts => .failed missing [] ts

def report (site : Option Token) (problem : Problem) : Parser Unit := fun ts =>
  .done () [⟨site, problem⟩] ts

def peek : Parser (Option Token) := fun ts => .done ts.head? [] ts

def nextIs (kind : Kind) : Parser Bool := fun ts =>
  .done (ts.head?.any (·.kind == kind)) [] ts

def accept (wanted : Kind → Bool) : Parser (Option Token)
  | t :: rest => if wanted t.kind then .done (some t) [] rest else .done none [] (t :: rest)
  | [] => .done none [] []

/-- Reads a token of a kind, which may not be missing. -/
def expect (kind : Kind) (missing : Expectation) : Parser Token
  | t :: rest => if t.kind = kind then .done t [] rest else .failed missing [] (t :: rest)
  | [] => .failed missing [] []

/-- Reads the next token and goes on as it requires, or, if it requires nothing, goes on
without reading it. -/
def dispatch (choose : Token → Option (Parser α)) (otherwise : Parser α) : Parser α
  | t :: rest => match choose t with
    | some p => p rest
    | none => otherwise (t :: rest)
  | [] => otherwise []

/-- At most `n` steps from `a`, until one gives no next value. -/
def iterate (step : α → Parser (Option α)) : Nat → α → Parser α
  | 0, a => pure a
  | n + 1, a => do
    match ← step a with
    | none => pure a
    | some b => iterate step n b

/-- Steps from `a` until one gives no next value. A step that gives one reads a token, so there
are at most as many as tokens. -/
def repeatFrom (step : α → Parser (Option α)) (a : α) : Parser α := fun ts =>
  iterate step ts.length a ts

/-- The `n`-th approximation to a parser that is defined through itself. -/
def approximate (body : Parser α → Parser α) : Nat → Parser α
  | 0 => fail .expression
  | n + 1 => body (approximate body n)

/-- The parser defined through itself by `body`, which reads a token before it asks for
itself. -/
def fixed (body : Parser α → Parser α) : Parser α := fun ts =>
  approximate body (ts.length + 1) ts

end Parser

end ScriptFront
