import ScriptFront.Number.Shortest
import ScriptFront.Text.Bytes

/-! # The text of a number

The shortest digits, laid out positionally for moderate exponents and with a power of ten for
all others. What depends on the format written is in one record.
-/

namespace ScriptFront

structure NumberLayout where
  /-- The least exponent of the first digit that is written positionally. -/
  leastPositional : Int
  /-- The least exponent of the first digit above it that is not. -/
  endPositional : Int
  exponentDigits : Nat
  nan : Bytes
  infinity : Bytes
  negativeInfinity : Bytes

namespace NumberLayout

/-- The digits of a positive numeral without the zeros at its end. -/
def significant (n : Nat) : Bytes :=
  ((Bytes.decimal n).reverse.dropWhile (· == byte '0')).reverse

def positional (ds : Bytes) (point : Int) : Bytes :=
  if point ≤ 0 then text "0." ++ List.replicate (-point).toNat (byte '0') ++ ds
  else if ds.length ≤ point.toNat then ds ++ List.replicate (point.toNat - ds.length) (byte '0')
  else ds.take point.toNat ++ byte '.' :: ds.drop point.toNat

def scientific (width : Nat) (ds : Bytes) (exponent : Int) : Bytes :=
  let fraction := ds.drop 1
  ds.take 1 ++ (if fraction.isEmpty then [] else byte '.' :: fraction)
    ++ byte 'e' :: (if exponent < 0 then byte '-' else byte '+')
    :: Bytes.zeroPadded width (Bytes.decimal exponent.natAbs)

def decimal (l : NumberLayout) (d : Shortest.Decimal) : Bytes :=
  let exponent := d.exponent + (Bytes.decimal d.digits).length - 1
  let ds := significant d.digits
  if l.leastPositional ≤ exponent ∧ exponent < l.endPositional then positional ds (exponent + 1)
  else scientific l.exponentDigits ds exponent

def write (l : NumberLayout) : Binary64 → Bytes
  | .nan => l.nan
  | .infinite false => l.infinity
  | .infinite true => l.negativeInfinity
  | .finite negative m e =>
    (if negative then [byte '-'] else [])
      ++ if m = 0 then [byte '0'] else l.decimal (Shortest.ofBinary m e)

/-- Numbers as tokens and expressions show them: `100000`, `1e+06`, `0.0001`, `1e-05`. -/
def plain : NumberLayout where
  leastPositional := -4
  endPositional := 6
  exponentDigits := 2
  nan := text "NaN"
  infinity := text "+Inf"
  negativeInfinity := text "-Inf"

end NumberLayout

end ScriptFront
