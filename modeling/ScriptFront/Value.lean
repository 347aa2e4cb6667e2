import ScriptFront.Number.Layout
import ScriptFront.Text.Quoted

/-! # Literal values

The values that literals of a script stand for. Integers occur only in tokens that were not
scanned from a source.
-/

namespace ScriptFront

inductive Value where
  | null
  | bool (b : Bool)
  | number (x : Binary64)
  | text (s : Bytes)
  | int (n : Int)
  deriving DecidableEq, Repr

namespace Value

def ofBool (b : Bool) : Bytes := if b then ScriptFront.text "true" else ScriptFront.text "false"

/-- The value as an expression shows it: texts are quoted. -/
def literal : Value → Bytes
  | .null => ScriptFront.text "null"
  | .bool b => ofBool b
  | .number x => NumberLayout.plain.write x
  | .text s => quoted s
  | .int n => Bytes.integer n

/-- The value as a token shows it: texts stand as they are. -/
def bare : Value → Bytes
  | .null => ScriptFront.text "<nil>"
  | .text s => s
  | v => v.literal

end Value

end ScriptFront
