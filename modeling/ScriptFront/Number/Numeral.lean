import ScriptFront.Number.Binary64
import ScriptFront.Text.Bytes

/-! # Reading numerals

A numeral is a signed run of digits with at most one point and an optional exponent. Sixteen is
the base after `0x`, and the exponent is then a power of two. Underscores may stand between
digits. The value is rounded to the nearest number.
-/

namespace ScriptFront.Numeral

def lower (b : UInt8) : UInt8 := if byte 'A' ≤ b && b ≤ byte 'Z' then b + 32 else b

def signed : Bytes → Bool × Bytes
  | [] => (false, [])
  | b :: rest =>
    if b = byte '-' then (true, rest)
    else if b = byte '+' then (false, rest)
    else (false, b :: rest)

def isHexDigit (b : UInt8) : Bool :=
  isDigit b || (byte 'a' ≤ lower b && lower b ≤ byte 'f')

def digitValue (b : UInt8) : Nat :=
  if isDigit b then b.toNat - 48 else (lower b).toNat - 87

def value (base : Nat) (digits : Bytes) : Nat :=
  digits.foldl (fun n d => base * n + digitValue d) 0

/-- The numbers below this one fit into a word of 64 bits. -/
def wordBound : Nat := 0x10000000000000000

/-- The numbers below this one fit into a word of 64 bits with a sign. -/
def signedBound : Nat := 0x8000000000000000

/-- What stood before a byte, as far as an underscore is concerned. -/
inductive Before where
  | digit
  | underscore
  | other

/-- Every underscore has a digit on either side. -/
def separatesFrom (isDigit : UInt8 → Bool) : Before → Bytes → Bool
  | .underscore, [] => false
  | _, [] => true
  | before, b :: rest =>
    if isDigit b then separatesFrom isDigit .digit rest
    else match before, b == byte '_' with
      | .digit, true => separatesFrom isDigit .underscore rest
      | _, true => false
      | .underscore, false => false
      | _, false => separatesFrom isDigit .other rest

/-- The digits of an exponent and its sign; at least one digit comes first. -/
def exponent? (b : Bytes) : Option Int :=
  let (negative, rest) := signed b
  match rest with
  | [] => none
  | d :: _ =>
    if isDigit d && rest.all (fun b => isDigit b || b == byte '_') then
      let n : Int := digitsValue (rest.filter isDigit)
      some (if negative then -n else n)
    else none

/-- The base and the bytes after its mark. -/
def based : Bytes → Nat × Bytes
  | z :: x :: d :: rest =>
    if z = byte '0' ∧ lower x = byte 'x' then (16, d :: rest) else (10, z :: x :: d :: rest)
  | b => (10, b)

/-- The number a numeral stands for; it is infinite when the numeral is too great. -/
def number? (b : Bytes) : Option Binary64 := do
  let (negative, unsigned) := signed b
  let (base, body) := based unsigned
  let isDigitHere := if base = 16 then isHexDigit else isDigit
  let part (b : UInt8) : Bool := isDigitHere b || b == byte '_'
  let whole := (body.takeWhile part).filter isDigitHere
  let (fraction, rest) := match body.dropWhile part with
    | [] => ([], [])
    | b :: rest =>
      if b = byte '.' then ((rest.takeWhile part).filter isDigitHere, rest.dropWhile part)
      else ([], b :: rest)
  let digits := whole ++ fraction
  if digits.isEmpty then failure
  let exponent ← match rest with
    | [] => if base = 16 then none else some 0
    | e :: rest =>
      if lower e = byte (if base = 16 then 'p' else 'e') then exponent? rest else none
  if !separatesFrom isDigitHere (if base = 16 then .digit else .other) body then failure
  if base = 16 then
    let e := max (min (exponent - 4 * fraction.length) 2000) (-(2000 + 4 * digits.length))
    let (up, down) := Binary64.power 2 e
    return Binary64.ofRatio negative (value 16 digits * up) down
  else return Binary64.ofDecimal negative (value 10 digits) (exponent - fraction.length)

def word? (b : Bytes) : Option Binary64 :=
  let (negative, rest) := signed b
  let name := rest.map lower
  if name = text "inf" ∨ name = text "infinity" then some (.infinite negative)
  else if b.map lower = text "nan" then some .nan
  else none

def read? (b : Bytes) : Option Binary64 := word? b <|> number? b

end ScriptFront.Numeral
