import ScriptFront.Number.Numeral
import ScriptFront.Text.Calendar

/-! # Numbers, dates and times

Which words of a settings document are numbers, dates or times of day.
-/

namespace ScriptFront.Toml

/-- No underscore stands first, last, or next to anything but a digit. -/
def separates : Bool → Bytes → Bool
  | afterDigit, [] => afterDigit
  | afterDigit, b :: rest =>
    if b = byte '_' ∧ !afterDigit then false
    else separates (Numeral.isHexDigit b) rest

def hasLeadingZero (b : Bytes) : Bool :=
  let ds := (Numeral.signed b).2
  ds.head? == some (byte '0') && (ds.drop 1).head?.any (fun d => isDigit d || d == byte '_')

/-- A run of digits in a base, which may be separated but begins with a digit. -/
def isMarkedInteger (base : Nat) (ds : Bytes) : Bool :=
  let isDigitHere (d : UInt8) : Bool := Numeral.isHexDigit d && Numeral.digitValue d < base
  let digits := ds.filter (· != byte '_')
  ds.head?.any isDigitHere && digits.all isDigitHere
    && Numeral.value base digits < Numeral.signedBound

def isDecimalInteger (b : Bytes) : Bool :=
  let (negative, ds) := Numeral.signed (b.filter (· != byte '_'))
  !ds.isEmpty && ds.all isDigit && !hasLeadingZero b
    && digitsValue ds < Numeral.signedBound + (if negative then 1 else 0)

def base? (mark : UInt8) : Option Nat :=
  if mark = byte 'x' then some 16
  else if mark = byte 'o' then some 8
  else if mark = byte 'b' then some 2
  else none

def isInteger (b : Bytes) : Bool :=
  separates false b &&
    match b with
    | z :: mark :: ds =>
      match base? mark with
      | some base => z == byte '0' && isMarkedInteger base ds
      | none => isDecimalInteger b
    | _ => isDecimalInteger b

def pointsLead : Bytes → Bool
  | [] => true
  | [b] => b != byte '.'
  | b :: d :: rest => (b != byte '.' || isDigit d) && pointsLead (d :: rest)

def isFloatMark (c : UInt8) : Bool := c == byte '.' || Numeral.lower c == byte 'e'

def floatParts (b : Bytes) : List Bytes :=
  (Bytes.split (byte '.') (b.map fun c => if isFloatMark c then byte '.' else c)).filter
    (!·.isEmpty)

def isFloat (b : Bytes) : Bool :=
  let ds := (Numeral.signed b).2
  if ds = text "inf" ∨ ds = text "nan" then true
  else
    let parts := floatParts b
    ds.head?.any isDigit && ds.any isFloatMark
      && ds.all (fun c => isDigit c || isFloatMark c || [byte '_', byte '-', byte '+'].contains c)
      && parts.all (separates false) && !(parts.head?.any hasLeadingZero) && pointsLead b
      && match Numeral.number? (b.filter (· != byte '_')) with
        | some (.finite _ _ _) => true
        | _ => false

open Calendar in
/-- A date, a time of day, or both with or without a zone. Small letters and a space are taken
for the marks they stand for. -/
def isDateTime (b : Bytes) : Bool :=
  let two : Nat → Nat → Reader Nat := digits 2
  let b := b.map fun c =>
    if c = byte 'z' then byte 'Z' else if c = byte 't' ∨ c = byte ' ' then byte 'T' else c
  let moment : Reader Unit := do
    date two
    mark 'T'
    time two
  reads (moment *> zone) b || reads moment b || reads (date two) b || reads (time two) b

end ScriptFront.Toml
