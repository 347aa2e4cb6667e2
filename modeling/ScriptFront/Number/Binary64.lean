/-! # Binary floating-point numbers

The numbers of the 64-bit binary format, kept exactly: a sign, an integer mantissa and a power
of two. A finite number has one representation, with the greatest mantissa below `2 ^ 53` that
the least exponent allows.
-/

namespace ScriptFront

inductive Binary64 where
  | nan
  | infinite (negative : Bool)
  /-- The number `± mantissa * 2 ^ exponent`. -/
  | finite (negative : Bool) (mantissa : Nat) (exponent : Int)
  deriving DecidableEq, Repr

namespace Binary64

def mantissaBits : Nat := 53

/-- The mantissas are below this number, and not below its half unless the exponent is least. -/
def mantissaBound : Nat := Nat.pow 2 mantissaBits

def leastExponent : Int := -1074
def greatestExponent : Int := 971

/-- The numerator and the denominator of `base ^ e`. -/
def power (base : Nat) (e : Int) : Nat × Nat :=
  if 0 ≤ e then (base.pow e.toNat, 1) else (1, base.pow (-e).toNat)

/-- The quotient rounded to the nearest integer, a half to the even neighbour. -/
def roundedQuotient (num den : Nat) : Nat :=
  let q := num / den
  let twice := 2 * (num % den)
  if twice < den || (twice == den && q % 2 == 0) then q else q + 1

/-- The `k` with `2 ^ k ≤ num / den < 2 ^ (k + 1)`, for positive arguments. -/
def magnitude (num den : Nat) : Int :=
  let k : Int := (Nat.log2 num : Int) - (Nat.log2 den : Int)
  let (up, down) := power 2 k
  if den * up ≤ num * down then k else k - 1

/-- The number nearest to `num / den`, of two the one with an even mantissa. -/
def ofRatio (negative : Bool) (num den : Nat) : Binary64 :=
  if num = 0 then .finite negative 0 leastExponent
  else
    let e := max (magnitude num den - 52) leastExponent
    let (up, down) := power 2 e
    let m := roundedQuotient (num * down) (den * up)
    let (m, e) := if m = mantissaBound then (mantissaBound / 2, e + 1) else (m, e)
    if greatestExponent < e then .infinite negative else .finite negative m e

/-- The number nearest to `digits * 10 ^ exponent`. The exponent is cut to a range outside of
which every result is zero or infinite. -/
def ofDecimal (negative : Bool) (digits : Nat) (exponent : Int) : Binary64 :=
  let length : Int := Nat.log2 digits + 1
  let exponent := max (min exponent 400) (-(400 + length))
  let (up, down) := power 10 exponent
  ofRatio negative (digits * up) down

end Binary64

end ScriptFront
