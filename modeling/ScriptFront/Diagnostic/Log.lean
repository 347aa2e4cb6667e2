import ScriptFront.Diagnostic.Basic
import ScriptFront.Text.Width

/-! # The log

A log keeps the diagnostics in the order they were reported and echoes each one, on a line of
its own, as it arrives. Forgetting the diagnostics does not take back what was echoed.
-/

namespace ScriptFront

inductive Terminal where
  | plain
  | colored
  deriving DecidableEq, Repr

namespace Paint

/-- Tabs become four spaces, and a carriage return before a line feed is dropped. -/
def clean : Bytes → Bytes
  | [] => []
  | [b] => if b = byte '\t' then text "    " else [b]
  | b :: c :: rest =>
    if b = byte '\t' then text "    " ++ clean (c :: rest)
    else if b = byte '\r' ∧ c = Bytes.newline then clean (c :: rest)
    else b :: clean (c :: rest)

/-- Bold and bright red, where the terminal has colours. -/
def emphasized : Terminal → Bytes → Bytes
  | .plain, line => line
  | .colored, line => text "\x1b[1;91m" ++ line ++ text "\x1b[0m"

/-- A text painted line by line; its lines are made equally wide. -/
def paint (terminal : Terminal) (b : Bytes) : Bytes :=
  let lines := Bytes.split Bytes.newline (clean b)
  let width := (lines.map Width.ofLine).foldl max 0
  let padding (line : Bytes) : Bytes :=
    if lines.length ≤ 1 then [] else List.replicate (width - Width.ofLine line) (byte ' ')
  Bytes.join [Bytes.newline] (lines.map fun line => emphasized terminal line ++ padding line)

end Paint

inductive Echo where
  | silent
  | plain
  | painted (terminal : Terminal)
  deriving DecidableEq, Repr

def Echo.line (echo : Echo) (d : Diagnostic) : Bytes :=
  let message := text "Error: " ++ d.render
  match echo with
  | .silent => []
  | .plain => message ++ [Bytes.newline]
  | .painted terminal => Paint.paint terminal message ++ [Bytes.newline]

structure Log where
  echo : Echo
  diagnostics : List Diagnostic := []
  written : Bytes := []
  deriving Repr

namespace Log

def report (log : Log) (d : Diagnostic) : Log :=
  { log with
    diagnostics := log.diagnostics ++ [d]
    written := log.written ++ log.echo.line d }

def reportAll (log : Log) (ds : List Diagnostic) : Log := ds.foldl report log

def hadError (log : Log) : Bool := !log.diagnostics.isEmpty

def summary? (log : Log) : Option Bytes := Diagnostic.summary? log.diagnostics

def reset (log : Log) : Log := { log with diagnostics := [] }

end Log

end ScriptFront
