import ScriptFront.Text.Utf8
import ScriptFront.Toml.Document
import ScriptFront.Toml.Scalar

/-! # Reading a settings document -/

namespace ScriptFront.Toml

/-- Reads from the front of a text, or refuses it. -/
abbrev Reader := StateT (List Char) Option

def isBlank (c : Char) : Bool := c == ' ' || c == '\t'

def isNewline (c : Char) : Bool := c == '\n' || c == '\r'

def isBare (c : Char) : Bool := c.isAlphanum || c == '_' || c == '-'

def skip (unwanted : Char → Bool) : Reader Unit := modify (·.dropWhile unwanted)

def symbol (c : Char) : Reader Unit := do
  match ← get with
  | d :: rest => if d = c then set rest else failure
  | [] => failure

/-! ### Strings -/

def hexValue? (cs : List Char) : Option Nat :=
  let b := encode cs
  if b.all Numeral.isHexDigit then some (Numeral.value 16 b) else none

/-- The character with a number given in hexadecimal digits. -/
def numbered? (cs : List Char) : Option Char := do
  let n ← hexValue? cs
  if h : n.isValidChar then some (Char.ofNatAux n h) else none

def escape? : Char → Option Char
  | 'b' => some '\x08'
  | 't' => some '\t'
  | 'n' => some '\n'
  | 'f' => some '\x0c'
  | 'r' => some '\r'
  | '"' => some '"'
  | '\\' => some '\\'
  | _ => none

def basic : List Char → Option (List Char × List Char)
  | '"' :: rest => some ([], rest)
  | '\\' :: 'u' :: a :: b :: c :: d :: rest => do
    let x ← numbered? [a, b, c, d]
    let (cs, rest) ← basic rest
    return (x :: cs, rest)
  | '\\' :: 'U' :: a :: b :: c :: d :: e :: f :: g :: h :: rest => do
    let x ← numbered? [a, b, c, d, e, f, g, h]
    let (cs, rest) ← basic rest
    return (x :: cs, rest)
  | '\\' :: l :: rest => do
    let x ← escape? l
    let (cs, rest) ← basic rest
    return (x :: cs, rest)
  | c :: rest =>
    if c = '\\' ∨ isNewline c then none
    else do
      let (cs, rest) ← basic rest
      return (c :: cs, rest)
  | [] => none

def raw : List Char → Option (List Char × List Char)
  | '\'' :: rest => some ([], rest)
  | c :: rest =>
    if isNewline c then none
    else do
      let (cs, rest) ← raw rest
      return (c :: cs, rest)
  | [] => none

/-- The end of a string of several lines, after three quotes: up to `most` more belong to it. -/
def closing (quote : Char) (most : Nat) (rest : List Char) : Option (List Char × List Char) :=
  let more := rest.takeWhile (· == quote)
  if more.length ≤ most then some (more, rest.drop more.length) else none

/-- A backslash at the end of a line, which takes the blank space after it with it. -/
def endsLine (rest : List Char) : Bool := (rest.dropWhile isBlank).head?.any isNewline

/-- What was written before a place in a string of several lines. -/
inductive Previous where
  /-- A backslash at the end of a line, with blank space after it. -/
  | lineEnd
  /-- A backslash that stands for itself. -/
  | backslash
  | other
  deriving DecidableEq, Repr

/-- The quotes that belong to a string of several lines before the three that close it are at
most two, or three if a backslash is directly before them. -/
def mostQuotes : Previous → Nat
  | .backslash => 3
  | .lineEnd | .other => 2

def afterEscape (letter : Char) : Previous := if letter = '\\' then .backslash else .other

/-- A string of several lines. Blank space after the backslash that ends a line is left out. -/
def multiline (previous : Previous) : List Char → Option (List Char × List Char)
  | [] => none
  | c :: rest =>
    if previous = .lineEnd ∧ (isBlank c ∨ isNewline c) then multiline .lineEnd rest
    else match c, rest with
      | '"', '"' :: '"' :: rest => closing '"' (mostQuotes previous) rest
      | '\\', 'u' :: a :: b :: c :: d :: rest => do
        let x ← numbered? [a, b, c, d]
        let (cs, rest) ← multiline .other rest
        return (x :: cs, rest)
      | '\\', 'U' :: a :: b :: c :: d :: e :: f :: g :: h :: rest => do
        let x ← numbered? [a, b, c, d, e, f, g, h]
        let (cs, rest) ← multiline .other rest
        return (x :: cs, rest)
      | '\\', l :: rest =>
        if endsLine (l :: rest) then multiline .lineEnd rest
        else do
          let x ← escape? l
          let (cs, rest) ← multiline (afterEscape l) rest
          return (x :: cs, rest)
      | '\\', [] => none
      | c, rest => do
        let (cs, rest) ← multiline .other rest
        return (c :: cs, rest)

def rawMultiline : List Char → Option (List Char × List Char)
  | '\'' :: '\'' :: '\'' :: rest => closing '\'' 2 rest
  | c :: rest => do
    let (cs, rest) ← rawMultiline rest
    return (c :: cs, rest)
  | [] => none

/-- A line feed directly after the opening quotes does not count. -/
def withoutFirstNewline : List Char → List Char
  | '\n' :: rest => rest
  | '\r' :: '\n' :: rest => rest
  | cs => cs

/-- A string of one line, quote included. -/
def lineString? : List Char → Option (List Char × List Char)
  | '"' :: rest => basic rest
  | '\'' :: rest => raw rest
  | _ => none

def string? : List Char → Option (List Char × List Char)
  | '"' :: '"' :: '"' :: rest => multiline .other (withoutFirstNewline rest)
  | '\'' :: '\'' :: '\'' :: rest => rawMultiline (withoutFirstNewline rest)
  | cs => lineString? cs

/-! ### Keys -/

def key : Reader Key := do
  let cs ← get
  match lineString? cs with
  | some (k, rest) => do
    set rest
    return k
  | none =>
    let k := cs.takeWhile isBare
    if k.isEmpty then failure
    set (cs.drop k.length)
    return k

def path : Nat → Reader Path
  | 0 => failure
  | fuel + 1 => do
    skip isBlank
    let k ← key
    skip isBlank
    match ← get with
    | '.' :: rest => do
      set rest
      return k :: (← path fuel)
    | _ => return [k]

/-! ### Values -/

/-- The bytes of a word that is neither a string nor a structure. Within a date, a space counts
as part of it. -/
def word : Reader Bytes := do
  let cs ← get
  let isDate := (cs.dropWhile Char.isDigit).head?.any (fun c => c == '-' || c == ':')
    && cs.head?.any Char.isDigit
  let isPart (c : Char) : Bool :=
    if isDate then c.isDigit || ['-', ':', 'T', 't', ' ', '.', 'Z', 'z', '+'].contains c
    else c.isAlphanum || ['_', '.', '+', '-'].contains c
  let found := cs.takeWhile isPart
  set (cs.drop found.length)
  return encode (found.reverse.dropWhile (· == ' ')).reverse

def plainValue : Reader Datum := do
  let w ← word
  if w = text "true" then return .bool true
  else if w = text "false" then return .bool false
  else if isInteger w || isFloat w || isDateTime w then return .scalar
  else failure

def skipSpace : Nat → Reader Unit
  | 0 => return
  | fuel + 1 => do
    skip fun c => isBlank c || isNewline c
    match ← get with
    | '#' :: rest => do
      set (rest.dropWhile (!isNewline ·))
      skipSpace fuel
    | _ => return

mutual

/-- A value; `fuel` bounds how deep and how long it is. -/
def value : Nat → Reader Datum
  | 0 => failure
  | fuel + 1 => do
    skip isBlank
    let cs ← get
    match cs with
    | '[' :: rest => do
      set rest
      return .array (← arrayItems fuel)
    | '\x7b' :: rest => do
      set rest
      skip isBlank
      match ← get with
      | '\x7d' :: rest => do
        set rest
        return .inline []
      | _ => return .inline (← inlinePairs fuel)
    | '"' :: _ | '\'' :: _ => do
      match string? cs with
      | some (s, rest) => do
        set rest
        return .string s
      | none => failure
    | _ => plainValue

def arrayItems : Nat → Reader (List Datum)
  | 0 => failure
  | fuel + 1 => do
    skipSpace (← get).length
    match ← get with
    | ']' :: rest => do
      set rest
      return []
    | _ => do
      let item ← value fuel
      skipSpace (← get).length
      match ← get with
      | ',' :: rest => do
        set rest
        return item :: (← arrayItems fuel)
      | ']' :: rest => do
        set rest
        return [item]
      | _ => failure

def inlinePairs : Nat → Reader (List (Path × Datum))
  | 0 => failure
  | fuel + 1 => do
    let p ← path (← get).length
    symbol '='
    let v ← value fuel
    skip isBlank
    match ← get with
    | ',' :: rest => do
      set rest
      return (p, v) :: (← inlinePairs fuel)
    | '\x7d' :: rest => do
      set rest
      return [(p, v)]
    | _ => failure

end

/-! ### Documents -/

def endOfLine : Reader Unit := do
  skip isBlank
  match ← get with
  | [] => return
  | '#' :: rest => set (rest.dropWhile (!isNewline ·))
  | c :: _ => if isNewline c then return else failure

def item : Reader Item := do
  let fuel := (← get).length
  match ← get with
  | '[' :: '[' :: rest => do
    set rest
    let p ← path fuel
    symbol ']'
    symbol ']'
    return .element p
  | '[' :: rest => do
    set rest
    let p ← path fuel
    symbol ']'
    return .table p
  | _ => do
    let p ← path fuel
    symbol '='
    return .pair p (← value fuel)

def items : Nat → Reader (List Item)
  | 0 => return []
  | fuel + 1 => do
    skipSpace (← get).length
    if (← get).isEmpty then return []
    let i ← item
    endOfLine
    return i :: (← items fuel)

/-- Controls other than tabs and line ends are refused, and so is a carriage return alone. -/
def isClean : List Char → Bool
  | [] => true
  | c :: rest =>
    (c == '\t' || c == '\n' || (c == '\r' && rest.head? == some '\n')
      || !(c.toNat < 0x20 || c.toNat == 0x7F)) && isClean rest

def withoutOrderMark : Bytes → Bytes
  | 0xFF :: 0xFE :: rest => rest
  | 0xFE :: 0xFF :: rest => rest
  | 0xEF :: 0xBB :: 0xBF :: rest => rest
  | b => b

def read? (b : Bytes) : Option (List Item) := do
  let cs ← Utf8.decode? (withoutOrderMark b)
  if !isClean cs then failure
  let (found, _) ← items (cs.length + 1) cs
  return found

end ScriptFront.Toml
