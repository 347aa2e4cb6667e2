import ScriptFront.Text.Printable
import ScriptFront.Text.Utf8

/-! # Quoted texts

A byte string between double quotes, on one line and in printable characters only: controls
have a letter or a number after a backslash, and a stray byte is written as its number.
-/

namespace ScriptFront.Quoted

/-- The letter written after a backslash for a control or a mark that has one. -/
def letter? (c : Char) : Option Char :=
  match c.toNat with
  | 0x07 => some 'a'
  | 0x08 => some 'b'
  | 0x0C => some 'f'
  | 0x0A => some 'n'
  | 0x0D => some 'r'
  | 0x09 => some 't'
  | 0x0B => some 'v'
  | 0x5C => some '\\'
  | 0x22 => some '"'
  | _ => none

def escaped (mark : Char) (width n : Nat) : Bytes :=
  byte '\\' :: byte mark :: Bytes.hex width n

def ofChar (c : Char) : Bytes :=
  match letter? c with
  | some l => [byte '\\', byte l]
  | none =>
    if isPrintable c then String.utf8EncodeChar c
    else if c.toNat < 0x80 then escaped 'x' 2 c.toNat
    else if c.toNat < 0x10000 then escaped 'u' 4 c.toNat
    else escaped 'U' 8 c.toNat

def ofRune : Rune → Bytes
  | .char c => ofChar c
  | .stray b => escaped 'x' 2 b.toNat

end ScriptFront.Quoted

namespace ScriptFront

/-- The text between double quotes with its controls and stray bytes escaped. -/
def quoted (b : Bytes) : Bytes :=
  byte '"' :: (Utf8.runes b).flatMap Quoted.ofRune ++ [byte '"']

end ScriptFront
