import ScriptFront.Text.Calendar

/-! # Timestamps

A date `2006-1-2`, which a time of day may follow: after a `T` with a zone, or after spaces
without one. Months, days, hours, minutes and seconds have one or two digits.
-/

namespace ScriptFront.Yaml

open Calendar

def zonedTimestamp : Reader Unit := do
  date number
  mark 'T' <|> mark 't'
  time number
  zone

def spacedTimestamp : Reader Unit := do
  date number
  mark ' '
  modify (·.dropWhile (· == byte ' '))
  time number

def isTimestamp (b : Bytes) : Bool :=
  reads zonedTimestamp b || reads spacedTimestamp b || reads (date number) b

end ScriptFront.Yaml
