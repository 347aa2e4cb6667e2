import ScriptFront.Text.Bytes

/-! # Paths

A path is a text whose parts slashes divide. It is absolute when it begins with a slash.
-/

namespace ScriptFront.Path

def slash : UInt8 := byte '/'

def isAbsolute (p : Bytes) : Bool := p.head? == some slash

def parts (p : Bytes) : List Bytes := Bytes.split slash p

/-- The parts left of an absolute path or of another one when each `..` has taken away the part
before it; at the start of an absolute path it takes away nothing. -/
def reduce (absolute : Bool) (done : List Bytes) (part : Bytes) : List Bytes :=
  if part = [] ∨ part = text "." then done
  else if part = text ".." then
    match done.getLast? with
    | none => if absolute then [] else [part]
    | some last => if last = text ".." then done ++ [part] else done.dropLast
  else done ++ [part]

/-- The shortest path that means the same where no part is a link. -/
def clean (p : Bytes) : Bytes :=
  let absolute := isAbsolute p
  let reduced := Bytes.join [slash] ((parts p).foldl (reduce absolute) [])
  if absolute then slash :: reduced
  else if reduced.isEmpty then text "."
  else reduced

def join (ps : List Bytes) : Bytes :=
  match ps.dropWhile List.isEmpty with
  | [] => []
  | rest => clean (Bytes.join [slash] rest)

def split (p : Bytes) : Bytes × Bytes :=
  let last := (p.reverse.takeWhile (· != slash)).reverse
  (p.take (p.length - last.length), last)

end ScriptFront.Path
