/-! # Byte strings

Sources, lexemes and every written text are byte strings: a source need not be valid UTF-8,
and what is written must hold its bytes unchanged.
-/

namespace ScriptFront

abbrev Bytes := List UInt8

def text (s : String) : Bytes := s.toUTF8.data.toList

def byte (c : Char) : UInt8 := UInt8.ofNat c.toNat

def encode (cs : List Char) : Bytes := cs.flatMap String.utf8EncodeChar

namespace Bytes

def newline : UInt8 := 10

def newlines (b : Bytes) : Nat := b.count newline

/-- The digits of `n` in a base up to sixteen, with lower-case letters. -/
def digits (base n : Nat) : Bytes := (Nat.toDigits base n).map byte

def decimal (n : Nat) : Bytes := digits 10 n

def integer (n : Int) : Bytes :=
  if n < 0 then byte '-' :: decimal n.natAbs else decimal n.natAbs

/-- `b` widened on the left with zeros to at least `width` bytes. -/
def zeroPadded (width : Nat) (b : Bytes) : Bytes :=
  List.replicate (width - b.length) (byte '0') ++ b

def hex (width n : Nat) : Bytes := zeroPadded width (digits 16 n)

/-- The parts in order, with `gap` between each two. -/
def join (gap : Bytes) : List Bytes → Bytes
  | [] => []
  | [b] => b
  | b :: rest => b ++ gap ++ join gap rest

def lines (parts : List Bytes) : Bytes := parts.flatMap (· ++ [newline])

/-- The parts between the occurrences of `mark`; one more than there are marks. -/
def split (mark : UInt8) : Bytes → List Bytes
  | [] => [[]]
  | b :: rest =>
    if b = mark then [] :: split mark rest
    else match split mark rest with
      | [] => [[b]]
      | first :: more => (b :: first) :: more

def before : Bytes → Bytes → Bool
  | [], _ => true
  | _ :: _, [] => false
  | a :: as, b :: bs => a < b || (a == b && before as bs)

end Bytes

def isDigit (b : UInt8) : Bool := byte '0' ≤ b && b ≤ byte '9'

def isLetter (b : UInt8) : Bool :=
  (byte 'a' ≤ b && b ≤ byte 'z') || (byte 'A' ≤ b && b ≤ byte 'Z')

def digitsValue (ds : Bytes) : Nat := ds.foldl (fun n d => 10 * n + (d.toNat - 48)) 0

end ScriptFront
