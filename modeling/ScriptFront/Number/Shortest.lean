import ScriptFront.Number.Binary64

/-! # The shortest decimal that reads back

Each finite number stands for an interval of reals, those that round to it. Of the decimals in
the interval the shortest is chosen, and of the shortest the one nearest to the number.
-/

namespace ScriptFront.Shortest

/-- The decimal `digits * 10 ^ exponent`. -/
structure Decimal where
  digits : Nat
  exponent : Int
  deriving DecidableEq, Repr

/-- An interval around `mid`, in some unit; its ends belong to it when `closed`. -/
structure Interval where
  low : Nat
  mid : Nat
  high : Nat
  closed : Bool

namespace Interval

/-- The reals that round to `m * 2 ^ e`, in the unit `2 ^ (e - 2)`. -/
def ofBinary (m : Nat) (e : Int) : Interval where
  low :=
    if m = Binary64.mantissaBound / 2 ∧ Binary64.leastExponent < e then 4 * m - 1 else 4 * m - 2
  mid := 4 * m
  high := 4 * m + 2
  closed := m % 2 == 0

def scale (i : Interval) (k : Nat) : Interval :=
  { i with low := i.low * k, mid := i.mid * k, high := i.high * k }

def contains (i : Interval) (x : Nat) : Bool :=
  if i.closed then i.low ≤ x && x ≤ i.high else i.low < x && x < i.high

/-- The multiple of `step` inside the interval that is nearest to its middle, divided by
`step`. -/
def nearest? (i : Interval) (step : Nat) : Option Nat :=
  let below := i.mid / step
  let twice := 2 * (i.mid % step)
  match i.contains (below * step), i.contains ((below + 1) * step) with
  | false, false => none
  | true, false => some below
  | false, true => some (below + 1)
  | true, true =>
    if twice < step || (twice == step && below % 2 == 0) then some below else some (below + 1)

end Interval

/-- The `k` with `10 ^ (k - 1) ≤ m * 2 ^ e < 10 ^ k`, for `0 < m`. -/
def magnitude (m : Nat) (e : Int) : Int :=
  let (num, den) := Binary64.power 2 e
  let guess := (Binary64.magnitude (m * num) den * 30103) / 100000
  let isAbove (k : Int) : Bool :=
    let (up, down) := Binary64.power 10 k
    m * num * down < den * up
  ([guess, guess + 1].find? isAbove).getD (guess + 2)

/-- The shortest decimal with exactly `count` digits, if some such decimal reads back. -/
def withDigits? (m : Nat) (e : Int) (count : Nat) : Option Decimal := do
  let exponent := magnitude m e - count
  let (up, down) := Binary64.power 10 exponent
  let (num, den) := Binary64.power 2 (e - 2)
  let digits ← ((Interval.ofBinary m e).scale (num * down)).nearest? (up * den)
  return ⟨digits, exponent⟩

/-- Seventeen digits tell any two numbers apart. -/
def mostDigits : Nat := 17

/-- The shortest decimal that rounds to `m * 2 ^ e`. -/
def ofBinary (m : Nat) (e : Int) : Decimal :=
  ((List.range mostDigits).findSome? fun n => withDigits? m e (n + 1)).getD ⟨0, 0⟩

end ScriptFront.Shortest
