import ScriptFront.Diagnostic.Basic
import ScriptFront.Number.Numeral
import ScriptFront.Token.Segment

/-! # Scanning

Every symbol, word, number and string of a source is a token; a stray unit and an open string
are reported. A token and a report carry the line on which their segment ends, and the end of the
input the line that is reached. Lines are counted while the segments are gone through.
-/

namespace ScriptFront

namespace Segment

def numberValue (bytes : Bytes) : Value :=
  .number ((Numeral.number? bytes).getD .nan)

def token? (line : Int) (s : Segment) : Option Token :=
  match s.kind with
  | .symbol kind => some ⟨kind, s.bytes, line, .null⟩
  | .word => some ⟨Kind.ofWord s.bytes, s.bytes, line, .null⟩
  | .number => some ⟨.number, s.bytes, line, numberValue s.bytes⟩
  | .string => some ⟨.string, s.bytes, line, .text (s.bytes.drop 1).dropLast⟩
  | .blank | .comment | .openString | .stray _ => none

def diagnostic? (line : Int) (s : Segment) : Option Diagnostic :=
  match s.kind with
  | .stray unit => some (.atLine line (.unexpectedCharacter unit))
  | .openString => some (.atLine line .unterminatedString)
  | .symbol _ | .word | .number | .string | .blank | .comment => none

/-- The line feeds that are met while a segment is read unit by unit: one that is a blank, and those
after a quote. -/
def breaks (s : Segment) : Nat :=
  match s.kind with
  | .blank | .string | .openString => (Utf8.runes s.bytes).count (.char '\n')
  | .comment | .symbol _ | .word | .number | .stray _ => 0

/-- Each segment with the line on which it ends, when the first begins on `line`. -/
def located : Nat → List Segment → List (Nat × Segment)
  | _, [] => []
  | line, s :: rest =>
    let line := line + s.breaks
    (line, s) :: located line rest

def lineAfter (line : Nat) (segments : List Segment) : Nat :=
  segments.foldl (fun line s => line + s.breaks) line

end Segment

structure Scan where
  tokens : List Token
  diagnostics : List Diagnostic
  deriving DecidableEq, Repr

/-- Scanning when the source begins on `line`. -/
def Source.scanFrom (line : Nat) (source : Bytes) : Scan :=
  let segments := Source.segments source
  let located := Segment.located line segments
  { tokens := located.filterMap (fun (line, s) => s.token? line)
      ++ [Token.ending (Segment.lineAfter line segments : Nat)]
    diagnostics := located.filterMap fun (line, s) => s.diagnostic? line }

def scan (source : Bytes) : Scan := Source.scanFrom 1 source

end ScriptFront
