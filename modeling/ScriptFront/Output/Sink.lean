import ScriptFront.Text.Bytes

/-! # Sinks

A sink takes what is written to it until a write would take it past its capacity; that write is
refused as a whole.
-/

namespace ScriptFront

structure Sink where
  /-- The number of bytes it can take, if that is bounded. -/
  capacity : Option Nat := none
  refusal : Bytes := []
  written : Bytes := []
  deriving Repr

namespace Sink

def accepts (s : Sink) (b : Bytes) : Bool :=
  s.capacity.all (s.written.length + b.length ≤ ·)

/-- One write: the error if it is refused, and the sink after it. -/
def write (s : Sink) (b : Bytes) : Option Bytes × Sink :=
  if s.accepts b then (none, { s with written := s.written ++ b }) else (some s.refusal, s)

/-- One write for each line, up to the first that is refused. -/
def writeLines (s : Sink) : List Bytes → Option Bytes × Sink
  | [] => (none, s)
  | line :: rest =>
    match s.write (line ++ [Bytes.newline]) with
    | (none, s) => s.writeLines rest
    | (some error, s) => (some error, s)

end Sink

end ScriptFront
