import ScriptFront.Text.Bytes

/-! # Dates and times of day

Readers for the parts that written dates and times have in common.
-/

namespace ScriptFront.Calendar

/-- Reads from the front of a byte string, or refuses it. -/
abbrev Reader := StateT Bytes Option

def reads (r : Reader Unit) (b : Bytes) : Bool := r.run b == some ((), [])

def mark (c : Char) : Reader Unit := do
  match ← get with
  | b :: rest => if b = byte c then set rest else failure
  | [] => failure

def number (least most : Nat) : Reader Nat := do
  let b ← get
  let ds := (b.take 2).takeWhile isDigit
  let n := digitsValue ds
  if ds.isEmpty || n < least || most < n then failure
  set (b.drop ds.length)
  return n

def digits (count least most : Nat) : Reader Nat := do
  let b ← get
  let ds := b.take count
  let n := digitsValue ds
  if ds.length != count || !ds.all isDigit || n < least || most < n then failure
  set (b.drop count)
  return n

def isLeap (year : Nat) : Bool := year % 4 == 0 && (year % 100 != 0 || year % 400 == 0)

def daysIn (year month : Nat) : Nat :=
  if month = 2 then if isLeap year then 29 else 28
  else if month = 4 ∨ month = 6 ∨ month = 9 ∨ month = 11 then 30
  else 31

/-- A date that exists: a year of four digits, a month and a day, each read by `part`. -/
def date (part : Nat → Nat → Reader Nat) : Reader Unit := do
  let year ← digits 4 0 9999
  mark '-'
  let month ← part 1 12
  mark '-'
  discard (part 1 (daysIn year month))

def fraction : Reader Unit := do
  match ← get with
  | point :: d :: rest =>
    if (point = byte '.' ∨ point = byte ',') ∧ isDigit d then set (rest.dropWhile isDigit)
  | _ => return

def time (part : Nat → Nat → Reader Nat) : Reader Unit := do
  discard (part 0 23)
  mark ':'
  discard (part 0 59)
  mark ':'
  discard (part 0 59)
  fraction

/-- The distance of a zone from the zero meridian. -/
def offset : Reader Unit := do
  mark '+' <|> mark '-'
  discard (digits 2 0 24)
  mark ':'
  discard (digits 2 0 60)

def zone : Reader Unit := mark 'Z' <|> offset

end ScriptFront.Calendar
