import ScriptFront.Tree.Outline
import ScriptFront.Yaml.Scalar

/-! # Documents

An outline as a block of lines. What belongs to a field or to an item of a list stands two
columns deeper than it.
-/

namespace ScriptFront.Yaml

def spaces (n : Nat) : Bytes := List.replicate n (byte ' ')

/-- The text with a line feed at its end, if it has none. -/
def ended (b : Bytes) : Bytes :=
  if b.getLast? == some Bytes.newline then b else b ++ [Bytes.newline]

/-- A scalar after the mark of its field or item, which stands at column `n`. -/
def scalarLine (n : Nat) (v : Value) : Bytes := ended (byte ' ' :: ofValue (n + 2) v)

mutual

/-- What follows the name of a field at column `n`. -/
def afterField (n : Nat) : Outline → Bytes
  | .int k => scalarLine n (.int k)
  | .text b => scalarLine n (.text b)
  | .value v => scalarLine n v
  | .list [] => text " []\n"
  | .list (o :: os) => Bytes.newline :: listLines (n + 2) (o :: os)
  | .record fields => Bytes.newline :: fieldLines (n + 2) fields

def afterItem (n : Nat) : Outline → Bytes
  | .int k => scalarLine n (.int k)
  | .text b => scalarLine n (.text b)
  | .value v => scalarLine n v
  | .list [] => text " []\n"
  | .list (o :: os) => byte ' ' :: (listLines (n + 2) (o :: os)).drop (n + 2)
  | .record fields => byte ' ' :: (fieldLines (n + 2) fields).drop (n + 2)

def listLines (n : Nat) : List Outline → Bytes
  | [] => []
  | o :: os => spaces n ++ byte '-' :: afterItem n o ++ listLines n os

/-- The fields of a record at column `n`. -/
def fieldLines (n : Nat) : List (Field × Outline) → Bytes
  | [] => []
  | (f, o) :: fields => spaces n ++ text f.label ++ byte ':' :: afterField n o ++ fieldLines n fields

end

def document (items : List Outline) : Bytes :=
  if items.isEmpty then text "[]\n" else listLines 0 items

end ScriptFront.Yaml
