import ScriptFront.Files.Basic
import ScriptFront.Text.Utf8

/-! # Patterns for names

In a pattern `*` stands for any bytes, `?` for any character, and brackets for one character out
of a set; a backslash takes the meaning from the character after it.
-/

namespace ScriptFront.Glob

inductive Piece where
  | any
  | one
  | exactly (b : UInt8)
  | among (negated : Bool) (ranges : List (Nat × Nat))
  deriving DecidableEq, Repr

/-- A character of a set, which a backslash may precede, and what follows it. A set does not end
with it. -/
def member? : Bytes → Option (Nat × Bytes)
  | [] => none
  | b :: rest =>
    if b = byte '-' ∨ b = byte ']' then none
    else
      let cs := if b = byte '\\' then rest else b :: rest
      match cs with
      | [] => none
      | c :: more =>
        match Utf8.first c more with
        | .stray _ => none
        | .char x =>
          let after := cs.drop (Rune.char x).width
          if after.isEmpty then none else some (x.toNat, after)

/-- The ranges of a set up to its closing bracket, at least one; `fuel` bounds their number. -/
def ranges? : Nat → List (Nat × Nat) → Bytes → Option (List (Nat × Nat) × Bytes)
  | 0, _, _ => none
  | fuel + 1, found, cs =>
    if cs.head? = some (byte ']') ∧ !found.isEmpty then some (found, cs.drop 1)
    else do
      let (low, cs) ← member? cs
      if cs.head? = some (byte '-') then
        let (high, cs) ← member? (cs.drop 1)
        ranges? fuel (found ++ [(low, high)]) cs
      else ranges? fuel (found ++ [(low, low)]) cs

/-- The pieces of a pattern, unless it is malformed; `fuel` bounds their number. -/
def pieces? : Nat → Bytes → Option (List Piece)
  | _, [] => some []
  | 0, _ => none
  | fuel + 1, b :: rest =>
    if b = byte '*' then (.any :: ·) <$> pieces? fuel rest
    else if b = byte '?' then (.one :: ·) <$> pieces? fuel rest
    else if b = byte '\\' then
      match rest with
      | [] => none
      | c :: rest => (.exactly c :: ·) <$> pieces? fuel rest
    else if b = byte '[' then do
      let negated := rest.head? == some (byte '^')
      let body := if negated then rest.drop 1 else rest
      let (ranges, rest) ← ranges? (body.length + 1) [] body
      return .among negated ranges :: (← pieces? fuel rest)
    else (.exactly b :: ·) <$> pieces? fuel rest

def parse? (pattern : Bytes) : Option (List Piece) := pieces? pattern.length pattern

/-- Some way to leave out the front of a name makes `p` true of the rest. -/
def someRest (p : Bytes → Bool) : Bytes → Bool
  | [] => p []
  | b :: rest => p (b :: rest) || someRest p rest

def isIn (ranges : List (Nat × Nat)) (n : Nat) : Bool :=
  ranges.any fun (low, high) => low ≤ n && n ≤ high

/-- A name that pieces stand for. -/
def isMatch : List Piece → Bytes → Bool
  | [], name => name.isEmpty
  | .any :: ps, name => someRest (isMatch ps) name
  | .exactly b :: ps, name => name.head? == some b && isMatch ps (name.drop 1)
  | .one :: ps, name =>
    match name with
    | [] => false
    | b :: rest => isMatch ps (name.drop (Utf8.first b rest).width)
  | .among negated ranges :: ps, name =>
    match name with
    | [] => false
    | b :: rest =>
      let unit := Utf8.first b rest
      isIn ranges unit.shown.toNat != negated && isMatch ps (name.drop unit.width)

def isSpecial (b : UInt8) : Bool :=
  b == byte '*' || b == byte '?' || b == byte '[' || b == byte '\\'

def inDirectory (fs : Files) (ps : List Piece) (dir : Bytes) : List Bytes :=
  match fs.locate dir with
  | .error _ => []
  | .ok l =>
    if fs.entry? l = some .directory then
      ((fs.names l).filter (isMatch ps)).map fun name => Path.join [dir, name]
    else []

/-- The directory part of a path, as `Path.split` gives it, without its last slash. -/
def directory (part : Bytes) : Bytes :=
  if part.isEmpty then text "." else if part = [Path.slash] then part else part.dropLast

/-- The paths a pattern stands for, unless it is malformed; `fuel` bounds its parts. -/
def expand? (fs : Files) : Nat → Bytes → Option (List Bytes)
  | 0, _ => none
  | fuel + 1, pattern => do
    discard (parse? pattern)
    if !pattern.any isSpecial then return if fs.contains pattern then [pattern] else []
    let (front, last) := Path.split pattern
    let ps ← parse? last
    let dir := directory front
    if !dir.any isSpecial then return inDirectory fs ps dir
    let dirs ← expand? fs fuel dir
    return dirs.flatMap (inDirectory fs ps)

end Glob

namespace Files

def badPattern : Bytes := text "find source files: syntax error in pattern"

def scripts (fs : Files) (dir : Bytes) : Except Bytes (List Bytes) :=
  let pattern := Path.join [dir, text "*.izr"]
  match Glob.expand? fs (pattern.length + 1) pattern with
  | some paths => .ok paths
  | none => .error badPattern

end Files

end ScriptFront
