import ScriptFront.Text.Bytes

/-! # Reading UTF-8

A byte string is read as characters and stray bytes: a byte that begins no well-formed
sequence counts alone. Overlong forms, surrogates and numbers above U+10FFFF are not
well-formed.
-/

namespace ScriptFront

/-- One unit of a byte string read as UTF-8. -/
inductive Rune where
  | char (c : Char)
  | stray (b : UInt8)
  deriving DecidableEq, Repr

namespace Rune

def width : Rune → Nat
  | .char c => c.utf8Size
  | .stray _ => 1

theorem width_pos (r : Rune) : 0 < r.width := by
  cases r with
  | char c => exact c.utf8Size_pos
  | stray b => exact Nat.one_pos

/-- The unit as a character; the replacement character stands for a stray byte. -/
def shown : Rune → Char
  | .char c => c
  | .stray _ => '\uFFFD'

end Rune

namespace Utf8

def tail? (b : UInt8) : Option Nat :=
  if 0x80 ≤ b.toNat ∧ b.toNat < 0xC0 then some (b.toNat - 0x80) else none

/-- The character with number `n`, if `n` needs a sequence of this length. -/
def scalar? (least n : Nat) : Option Char :=
  if h : least ≤ n ∧ n.isValidChar then some (Char.ofNatAux n h.2) else none

/-- The character of a sequence that begins with the byte `n ≥ 0x80`. -/
def sequence? (n : Nat) (rest : Bytes) : Option Char :=
  if n < 0xC0 then none
  else if n < 0xE0 then
    match rest with
    | x :: _ => do
      let x ← tail? x
      scalar? 0x80 ((n - 0xC0) * 64 + x)
    | _ => none
  else if n < 0xF0 then
    match rest with
    | x :: y :: _ => do
      let x ← tail? x
      let y ← tail? y
      scalar? 0x800 (((n - 0xE0) * 64 + x) * 64 + y)
    | _ => none
  else if n < 0xF8 then
    match rest with
    | x :: y :: z :: _ => do
      let x ← tail? x
      let y ← tail? y
      let z ← tail? z
      scalar? 0x10000 ((((n - 0xF0) * 64 + x) * 64 + y) * 64 + z)
    | _ => none
  else none

def first (b : UInt8) (rest : Bytes) : Rune :=
  if b.toNat < 0x80 then .char (Char.ofNat b.toNat)
  else match sequence? b.toNat rest with
    | some c => .char c
    | none => .stray b

/-- The units after the next `skip` bytes. -/
def runesFrom : Nat → Bytes → List Rune
  | _, [] => []
  | skip + 1, _ :: rest => runesFrom skip rest
  | 0, b :: rest =>
    let unit := first b rest
    unit :: runesFrom (unit.width - 1) rest

def runes (b : Bytes) : List Rune := runesFrom 0 b

def decode? (b : Bytes) : Option (List Char) :=
  (runes b).mapM fun
    | .char c => some c
    | .stray _ => none

end Utf8

end ScriptFront
