import ScriptFront.Session
import ScriptFront.Suite.Datum
import ScriptFront.Tree.Render

/-! # Cases

A case gives a script together with the statements and the diagnostics that are expected of it.
Cases that are not enabled are left out.
-/

namespace ScriptFront.Suite

structure Case where
  label : Bytes := []
  enabled : Bool := false
  input : Bytes := []
  /-- What is expected, by stage; nothing where a stage is missing. -/
  expected : List (Bytes × Bytes) := []
  deriving DecidableEq, Repr

namespace Case

/-- The text of a scalar; a null leaves the text that was there. -/
def textOf (before : Bytes) : Datum → Option Bytes
  | .null => some before
  | .bool _ written => some written
  | .text _ written => some written
  | .list _ | .record _ => none

def trueWords : List String := ["y", "Y", "yes", "on"]

def falseWords : List String := ["n", "N", "no", "off"]

def truthOf (before : Bool) : Datum → Option Bool
  | .null => some before
  | .bool b _ => some b
  | .text _ written =>
    if trueWords.any (ScriptFront.text · == written) then some true
    else if falseWords.any (ScriptFront.text · == written) then some false
    else none
  | .list _ | .record _ => none

def areDistinct (fields : List (Bytes × Datum)) : Bool := decide (fields.map Prod.fst).Nodup

def expectedOf : Datum → Option (List (Bytes × Bytes))
  | .null => some []
  | .record fields => do
    guard (areDistinct fields)
    fields.mapM fun (name, d) => return (name, ← textOf [] d)
  | _ => none

def withField (c : Case) (name : Bytes) (d : Datum) : Option Case :=
  if name = text "label" then return { c with label := ← textOf c.label d }
  else if name = text "enable" then return { c with enabled := ← truthOf c.enabled d }
  else if name = text "input" then return { c with input := ← textOf c.input d }
  else if name = text "expected" then return { c with expected := ← expectedOf d }
  else some c

/-- The case a datum gives; a null gives none. -/
def ofDatum : Datum → Option (Option Case)
  | .null => some none
  | .record fields => do
    guard (areDistinct fields)
    some <$> fields.foldlM (fun c (name, d) => c.withField name d) ({} : Case)
  | _ => none

def readAll? (b : Bytes) : Option (List Case) := do
  match ← Datum.read? b with
  | .null => return []
  | .list items => do
    let cases ← items.mapM ofDatum
    return (cases.filterMap id).filter (·.enabled)
  | _ => failure

def expects (c : Case) (stage : String) : Bytes := (c.expected.lookup (text stage)).getD []

inductive Mismatch where
  | statements
  | diagnostics
  deriving DecidableEq, Repr

def Mismatch.name : Mismatch → String
  | .statements => "statements"
  | .diagnostics => "diagnostics"

/-- What the statements and the diagnostics of the script, one per line, have in common with
what the case expects: the stages that differ. -/
def mismatches (c : Case) : List Mismatch :=
  let program := readProgram c.input
  let statements := Bytes.lines (program.stmts.map Stmt.render)
  let diagnostics := Bytes.lines (program.diagnostics.map Diagnostic.render)
  (if c.expects "parser" = statements then [] else [.statements])
    ++ if c.expects "diagnostics" = diagnostics then [] else [.diagnostics]

def report (c : Case) (m : Mismatch) : Bytes := c.label ++ text ": " ++ text m.name

end Case

end ScriptFront.Suite
