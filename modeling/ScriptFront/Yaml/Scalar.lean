import ScriptFront.Text.Base64
import ScriptFront.Text.Utf8
import ScriptFront.Value
import ScriptFront.Yaml.Implicit

/-! # Scalars

A text is written plainly where that is read back as the same text. Otherwise it goes between
quotes, or, if it has several lines, into a literal block. Bytes that are no text are written in
base sixty-four.
-/

namespace ScriptFront.Yaml

/-- Numbers are written as elsewhere, but for the words. -/
def numberLayout : NumberLayout :=
  { NumberLayout.plain with
    nan := text ".nan", infinity := text ".inf", negativeInfinity := text "-.inf" }

def isPrintable (c : Char) : Bool :=
  let n := c.toNat
  n == 0x0A || (0x20 ≤ n && n ≤ 0x7E) || (0xA0 ≤ n && n ≤ 0xD7FF)
    || (0xE000 ≤ n && n ≤ 0xFFFD && n != 0xFEFF)

def isBlank (c : Char) : Bool := c == ' ' || c == '\t'

/-- Line breaks of all kinds; all but the first are escaped where they can be. -/
def isBreak (c : Char) : Bool :=
  c == '\n' || c == '\r' || c == '\u0085' || c == '\u2028' || c == '\u2029'

/-! ### Double quotes -/

def escapeLetter? (c : Char) : Option Char :=
  match c.toNat with
  | 0x00 => some '0'
  | 0x07 => some 'a'
  | 0x08 => some 'b'
  | 0x09 => some 't'
  | 0x0A => some 'n'
  | 0x0B => some 'v'
  | 0x0C => some 'f'
  | 0x0D => some 'r'
  | 0x1B => some 'e'
  | 0x22 => some '"'
  | 0x5C => some '\\'
  | 0x85 => some 'N'
  | 0x2028 => some 'L'
  | 0x2029 => some 'P'
  | _ => none

def upperHex (width n : Nat) : Bytes :=
  (Bytes.hex width n).map fun d => if isLetter d then d - 32 else d

def escaped (c : Char) : Bytes :=
  match escapeLetter? c with
  | some l => [byte '\\', byte l]
  | none =>
    let n := c.toNat
    byte '\\' ::
      if n ≤ 0xFF then byte 'x' :: upperHex 2 n
      else if n ≤ 0xFFFF then byte 'u' :: upperHex 4 n
      else byte 'U' :: upperHex 8 n

def doubleQuoted (cs : List Char) : Bytes :=
  let one (c : Char) : Bytes :=
    if !isPrintable c || isBreak c || c == '"' || c == '\\' then escaped c else encode [c]
  byte '"' :: cs.flatMap one ++ [byte '"']

/-! ### Plain texts and single quotes -/

def isIndicator (c : Char) : Bool :=
  ['#', ',', '[', ']', '\x7b', '\x7d', '&', '*', '!', '|', '>', '\'', '"', '%', '@', '\x60'].contains c

def opensStructure : List Char → Bool
  | [] => false
  | c :: rest =>
    isIndicator c || ((c == '-' || c == '?' || c == ':') && rest.head?.all isBlank)

/-- A colon that a blank follows, or a number sign that a blank precedes, after the first
character. -/
def hidesStructure : List Char → Bool
  | c :: d :: rest =>
    (d == ':' && rest.head?.all isBlank) || (d == '#' && isBlank c) || hidesStructure (d :: rest)
  | _ => false

def startsWith (start cs : List Char) : Bool := cs.take start.length == start

/-- Whether a text of one line may stand without quotes, its reading apart. -/
def isPlain (cs : List Char) : Bool :=
  !(opensStructure cs || hidesStructure cs || startsWith ['-', '-', '-'] cs
    || startsWith ['.', '.', '.'] cs || cs.head? == some ' ' || cs.getLast? == some ' ')

def singleQuoted (cs : List Char) : Bytes :=
  byte '\'' :: encode (cs.flatMap fun c => if c == '\'' then ['\'', '\''] else [c]) ++ [byte '\'']

/-! ### Literal blocks -/

/-- A space directly before a line feed. -/
def hasSpaceBeforeBreak : List Char → Bool
  | c :: d :: rest => (c == ' ' && d == '\n') || hasSpaceBeforeBreak (d :: rest)
  | _ => false

def fitsBlock (cs : List Char) : Bool :=
  cs.all (fun c => isPrintable c || c == '\t') && !hasSpaceBeforeBreak cs
    && cs.getLast? != some ' '

/-- How the end of a block is told from the text's own: a text that ends without a line feed is
stripped, and one that ends with more than one is kept. -/
def chomping (b : Bytes) : Bytes :=
  match b.reverse with
  | [] => [byte '-']
  | last :: before =>
    if last != Bytes.newline then [byte '-']
    else if before.head?.all (· == Bytes.newline) then [byte '+']
    else []

/-- The header of a block and its lines, each indented unless it is empty. A line feed at the
start of the text also ends the header. -/
def literalBlock (indent : Nat) (b : Bytes) : Bytes :=
  let hint := if b.head?.any (fun c => c == byte ' ' || c == Bytes.newline) then [byte '2'] else []
  let indented (line : Bytes) : Bytes :=
    if line.isEmpty then [] else List.replicate indent (byte ' ') ++ line
  let body := match Bytes.split Bytes.newline b with
    | [] => []
    | first :: rest =>
      (if first.isEmpty then [] else Bytes.newline :: indented first)
        ++ rest.flatMap fun line => Bytes.newline :: indented line
  byte '|' :: hint ++ chomping b ++ body

/-! ### All scalars -/

def binaryWidth : Nat := 70

/-- Cut into lines of `width` bytes, each of which is ended; `fuel` bounds their number. -/
def brokenLines (width : Nat) : Nat → Bytes → Bytes
  | 0, _ => []
  | fuel + 1, b =>
    if b.isEmpty then []
    else b.take width ++ Bytes.newline :: brokenLines width fuel (b.drop width)

def binary (indent : Nat) (b : Bytes) : Bytes :=
  let letters := Base64.encode b
  text "!!binary " ++
    if letters.length < binaryWidth then letters
    else literalBlock indent (brokenLines binaryWidth letters.length letters)

def ofText (indent : Nat) (b : Bytes) : Bytes :=
  match Utf8.decode? b with
  | none => binary indent b
  | some cs =>
    if cs.contains '\n' then
      if fitsBlock cs then literalBlock indent b else doubleQuoted cs
    else if isImplicit b || !cs.all isPrintable then doubleQuoted cs
    else if isPlain cs then b
    else singleQuoted cs

def ofValue (indent : Nat) : Value → Bytes
  | .null => text "null"
  | .bool b => Value.ofBool b
  | .number x => numberLayout.write x
  | .text s => ofText indent s
  | .int n => Bytes.integer n

end ScriptFront.Yaml
