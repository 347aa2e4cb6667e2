import ScriptFront.Number.Numeral
import ScriptFront.Yaml.Timestamp

/-! # Texts that would not be read back as texts

Written without quotes, some texts are read as a null, a truth value, a number or a timestamp.
Numbers in base sixty and the older words for truth values are read so by some readers only.
-/

namespace ScriptFront.Yaml

/-- The words for null, truth values and special numbers. -/
def reservedWords : List String :=
  ["", "~", "null", "Null", "NULL", "true", "True", "TRUE", "false", "False", "FALSE",
   ".nan", ".NaN", ".NAN", ".inf", ".Inf", ".INF", "+.inf", "+.Inf", "+.INF",
   "-.inf", "-.Inf", "-.INF"]

def truthWords : List String :=
  ["y", "Y", "yes", "Yes", "YES", "on", "On", "ON", "n", "N", "no", "No", "NO",
   "off", "Off", "OFF"]

def isAmong (words : List String) (b : Bytes) : Bool := words.any fun w => text w == b

def digits? (base : Nat) (b : Bytes) : Option Nat :=
  if b.all fun d => Numeral.isHexDigit d && Numeral.digitValue d < base then
    some (Numeral.value base b)
  else none

/-- A number without sign: in base two, eight or sixteen after its mark, in base eight after a
zero, else in base ten. -/
def magnitude? : Bytes → Option Nat
  | [] => none
  | [d] => digits? 10 [d]
  | z :: m :: rest =>
    if z != byte '0' then digits? 10 (z :: m :: rest)
    else
      let mark := Numeral.lower m
      if rest.isEmpty then digits? 8 [m]
      else if mark == byte 'b' then digits? 2 rest
      else if mark == byte 'o' then digits? 8 rest
      else if mark == byte 'x' then digits? 16 rest
      else digits? 8 (m :: rest)

/-- Whether a magnitude with a sign before it fits into a word of 64 bits; only without a sign
may it fill the whole word. -/
def fitsWord (sign : Option UInt8) (n : Nat) : Bool :=
  if sign == some (byte '-') then n ≤ Numeral.signedBound
  else if sign == some (byte '+') then n < Numeral.signedBound
  else n < Numeral.wordBound

def splitSign : Bytes → Option UInt8 × Bytes
  | [] => (none, [])
  | b :: rest => if b = byte '+' ∨ b = byte '-' then (some b, rest) else (none, b :: rest)

def isInteger (b : Bytes) : Bool :=
  let (sign, rest) := splitSign b
  (magnitude? rest).any (fitsWord sign)

/-- A number in base two or eight whose sign stands after the mark. -/
def isMarkedInteger : Bytes → Bool
  | z :: m :: rest =>
    let (sign, ds) := splitSign rest
    let base := if m == byte 'b' then 2 else if m == byte 'o' then 8 else 0
    z == byte '0' && base != 0 && !ds.isEmpty && (digits? base ds).any (fitsWord sign)
  | _ => false

def isExponent : Bytes → Bool
  | [] => true
  | e :: rest =>
    let (_, ds) := splitSign rest
    Numeral.lower e == byte 'e' && !ds.isEmpty && ds.all isDigit

/-- Digits with at most one point, of which at least one comes first or after the point, and an
exponent that may be missing. -/
def isDecimalForm (b : Bytes) : Bool :=
  let (_, rest) := splitSign b
  let whole := rest.takeWhile isDigit
  match rest.dropWhile isDigit with
  | [] => !whole.isEmpty
  | p :: after =>
    if p = byte '.' then
      let fraction := after.takeWhile isDigit
      !(whole.isEmpty && fraction.isEmpty) && isExponent (after.dropWhile isDigit)
    else !whole.isEmpty && isExponent (p :: after)

def isFinite : Option Binary64 → Bool
  | some (.finite _ _ _) => true
  | _ => false

def isDecimal (b : Bytes) : Bool := isDecimalForm b && isFinite (Numeral.number? b)

def isSixtieth : Bytes → Bool
  | [d] => isDigit d
  | [t, d] => byte '0' ≤ t && t ≤ byte '5' && isDigit d
  | _ => false

/-- Parts with colons between them, the later ones below sixty, and a fraction that may be
missing. -/
def isBaseSixty (b : Bytes) : Bool :=
  let (_, rest) := splitSign b
  let number := rest.takeWhile (· != byte '.')
  let fraction := (rest.dropWhile (· != byte '.')).drop 1
  let isPart (d : UInt8) : Bool := isDigit d || d == byte '_'
  match Bytes.split (byte ':') number with
  | first :: part :: parts =>
    first.head?.any isDigit && first.all isPart && (part :: parts).all isSixtieth
      && fraction.all isPart
  | _ => false

/-- Whether a text written plainly is read as something else, at least by some readers. -/
def isImplicit (b : Bytes) : Bool :=
  isAmong reservedWords b || isAmong truthWords b ||
    match b with
    | [] => false
    | first :: _ =>
      if first = byte '.' then isFinite (Numeral.number? b)
      else if isDigit first || first == byte '+' || first == byte '-' then
        let plain := b.filter (· != byte '_')
        isTimestamp b || isInteger plain || isDecimal plain || isMarkedInteger plain
          || isBaseSixty b
      else false

end ScriptFront.Yaml
