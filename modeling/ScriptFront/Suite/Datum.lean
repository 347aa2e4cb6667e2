import ScriptFront.Number.Numeral
import ScriptFront.Text.Utf8

/-! # Data in flow style

Lists between brackets and records between braces, with texts in double quotes and words. An
empty document is a null.
-/

namespace ScriptFront.Suite

inductive Datum where
  | null
  | bool (value : Bool) (written : Bytes)
  /-- A text in quotes, or any other word. -/
  | text (quoted : Bool) (written : Bytes)
  | list (items : List Datum)
  | record (fields : List (Bytes × Datum))
  deriving Repr

namespace Datum

/-- Reads from the front of a text, or refuses it. -/
abbrev Reader := StateT (List Char) Option

def isSpace (c : Char) : Bool := c == ' ' || c == '\t' || c == '\n' || c == '\r'

def skipSpace : Reader Unit := modify (·.dropWhile isSpace)

def symbol (c : Char) : Reader Unit := do
  skipSpace
  match ← get with
  | d :: rest => if d = c then set rest else failure
  | [] => failure

def next : Reader (Option Char) := do
  skipSpace
  return (← get).head?

def numbered? (cs : List Char) : Option Char := do
  let b := encode cs
  let n := Numeral.value 16 b
  if !b.all Numeral.isHexDigit then failure
  if h : n.isValidChar then some (Char.ofNatAux n h) else none

def escape? : Char → Option Char
  | '"' => some '"'
  | '\\' => some '\\'
  | '/' => some '/'
  | ' ' => some ' '
  | '0' => some '\x00'
  | 'a' => some '\x07'
  | 'b' => some '\x08'
  | 't' => some '\t'
  | 'n' => some '\n'
  | 'v' => some '\x0b'
  | 'f' => some '\x0c'
  | 'r' => some '\r'
  | 'e' => some '\x1b'
  | _ => none

/-- Control characters and characters that are none must be escaped. -/
def isRaw (c : Char) : Bool :=
  let n := c.toNat
  0x20 ≤ n && n < 0x7F || n == 0x85 || 0xA0 ≤ n && n != 0xFFFE && n != 0xFFFF

def quotedText? : List Char → Option (List Char × List Char)
  | '"' :: rest => some ([], rest)
  | '\\' :: 'u' :: a :: b :: c :: d :: rest => do
    let x ← numbered? [a, b, c, d]
    let (cs, rest) ← quotedText? rest
    return (x :: cs, rest)
  | '\\' :: l :: rest => do
    let x ← escape? l
    let (cs, rest) ← quotedText? rest
    return (x :: cs, rest)
  | c :: rest =>
    if c = '\\' ∨ !isRaw c then none
    else do
      let (cs, rest) ← quotedText? rest
      return (c :: cs, rest)
  | [] => none

def quoted : Reader Bytes := do
  match ← get with
  | '"' :: rest =>
    match quotedText? rest with
    | some (cs, rest) => do
      set rest
      return encode cs
    | none => failure
  | _ => failure

def isWordPart (c : Char) : Bool := c.isAlphanum || c == '+' || c == '-' || c == '.'

def word : Reader Datum := do
  let cs ← get
  let found := cs.takeWhile isWordPart
  if found.isEmpty then failure
  set (cs.drop found.length)
  let written := encode found
  if written = ScriptFront.text "null" then return .null
  else if written = ScriptFront.text "true" then return .bool true written
  else if written = ScriptFront.text "false" then return .bool false written
  else return .text false written

mutual

/-- A datum; `fuel` bounds how deep and how long it is. -/
def value : Nat → Reader Datum
  | 0 => failure
  | fuel + 1 => do
    match ← next with
    | some '[' => do
      symbol '['
      if (← next) = some ']' then
        symbol ']'
        return .list []
      return .list (← items fuel)
    | some '\x7b' => do
      symbol '\x7b'
      if (← next) = some '\x7d' then
        symbol '\x7d'
        return .record []
      return .record (← fields fuel)
    | some '"' => return .text true (← quoted)
    | _ => word

/-- The items of a list up to its closing bracket, at least one. A comma may follow the last. -/
def items : Nat → Reader (List Datum)
  | 0 => failure
  | fuel + 1 => do
    let item ← value fuel
    if (← next) = some ',' then
      symbol ','
      if (← next) ≠ some ']' then return item :: (← items fuel)
    symbol ']'
    return [item]

def fields : Nat → Reader (List (Bytes × Datum))
  | 0 => failure
  | fuel + 1 => do
    skipSpace
    let name ← quoted
    symbol ':'
    let v ← value fuel
    if (← next) = some ',' then
      symbol ','
      if (← next) ≠ some '\x7d' then return (name, v) :: (← fields fuel)
    symbol '\x7d'
    return [(name, v)]

end

def document : Reader Datum := do
  if (← next).isNone then return .null
  let d ← value (2 * (← get).length + 1)
  if (← next).isSome then failure
  return d

def read? (b : Bytes) : Option Datum := do
  let cs ← Utf8.decode? b
  let (d, _) ← document cs
  return d

end Datum

end ScriptFront.Suite
