import ScriptFront.Output.Format
import ScriptFront.Session

/-! # The prompt

Lines are read one by one. Each is parsed by itself; its statements are written, and its
diagnostics do not bear on the lines after it. The lines read are kept as a history.
-/

namespace ScriptFront.Repl

/-- The greatest number of bytes that are handed out as one line. -/
def mostBytes : Nat := 4096

/-- The first line and what follows it. A line feed ends a line, and a carriage return before it
is dropped. A line that is too long is handed out in pieces, but a carriage return at the end of
a piece stays with the next one. -/
def firstLine (b : Bytes) : Bytes × Bool × Bytes :=
  let window := b.take mostBytes
  let line := window.takeWhile (· != Bytes.newline)
  if line.length < window.length then
    let kept := if line.getLast? = some (byte '\r') then line.dropLast else line
    (kept, true, b.drop (line.length + 1))
  else if window.length < mostBytes then (window, true, [])
  else if window.getLast? = some (byte '\r') then (window.dropLast, false, b.drop (mostBytes - 1))
  else (window, false, b.drop mostBytes)

/-- The lines of an input, each with whether it is a whole line; `fuel` bounds their number. -/
def linesFrom : Nat → Bytes → List (Bytes × Bool)
  | 0, _ => []
  | fuel + 1, b =>
    if b.isEmpty then []
    else
      let (line, whole, rest) := firstLine b
      (line, whole) :: linesFrom fuel rest

def lines (b : Bytes) : List (Bytes × Bool) := linesFrom (b.length + 1) b

/-! ### History -/

def mostEntries : Nat := 1000

def newest (history : List Bytes) : List Bytes := history.drop (history.length - mostEntries)

/-- A line is remembered unless it is the same as the latest one. -/
def remember (history : List Bytes) (line : Bytes) : List Bytes :=
  if history.getLast? = some line then history else newest (history ++ [line])

inductive HistoryError where
  | tooLong (line : Nat)
  | invalid (line : Nat)
  deriving DecidableEq, Repr

def HistoryError.message : HistoryError → Bytes
  | .tooLong n => text "line " ++ Bytes.decimal n ++ text " is too long"
  | .invalid n => text "invalid string at line " ++ Bytes.decimal n

/-- The history of lines that were saved. It ends before a line that is too long or no text. -/
def restore (history : List Bytes) (number : Nat) :
    List (Bytes × Bool) → List Bytes × Option HistoryError
  | [] => (history, none)
  | (line, whole) :: rest =>
    if !whole then (history, some (.tooLong number))
    else if (Utf8.decode? line).isNone then (history, some (.invalid number))
    else restore (newest (history ++ [line])) (number + 1) rest

/-! ### Prompts -/

/-- Format characters and characters for private use, as inclusive ranges. -/
def controlRanges : List (Nat × Nat) :=
  [(0x00, 0x1F), (0x7F, 0x9F), (0xAD, 0xAD), (0x600, 0x605), (0x61C, 0x61C), (0x6DD, 0x6DD),
   (0x70F, 0x70F), (0x890, 0x891), (0x8E2, 0x8E2), (0x180E, 0x180E), (0x200B, 0x200F),
   (0x202A, 0x202E), (0x2060, 0x2064), (0x2066, 0x206F), (0xE000, 0xF8FF), (0xFEFF, 0xFEFF),
   (0xFFF9, 0xFFFB), (0x110BD, 0x110BD), (0x110CD, 0x110CD), (0x13430, 0x1343F),
   (0x1BCA0, 0x1BCA3), (0x1D173, 0x1D17A), (0xE0001, 0xE0001), (0xE0020, 0xE007F),
   (0xF0000, 0xFFFFD), (0x100000, 0x10FFFD)]

/-- A prompt may hold no character that controls the terminal or is not assigned to be shown. -/
def isValidPrompt (prompt : Bytes) : Bool :=
  (Utf8.runes prompt).all fun r =>
    let n := r.shown.toNat
    !controlRanges.any fun (low, high) => low ≤ n && n ≤ high

/-! ### Lines -/

structure State where
  session : Session
  sink : Sink
  history : List Bytes := []
  deriving Repr

def step (format : Format) (s : State) (line : Bytes) : Option Bytes × State :=
  let (stmts, _, session) := s.session.reset.run line
  let (error, sink) := format.writeProgram stmts s.sink
  (error, ⟨session, sink, remember s.history line⟩)

/-- Shows the prompt; a sink that refuses it is not minded. -/
def showPrompt (prompt : Bytes) (s : State) : State :=
  { s with sink := (s.sink.write prompt).2 }

def run (format : Format) (prompt : Bytes) (s : State) : List Bytes → Option Bytes × State
  | [] => (none, showPrompt prompt s)
  | line :: rest =>
    match step format (showPrompt prompt s) line with
    | (none, s) => run format prompt s rest
    | (some error, s) => (some error, s)

def invalidPrompt : Bytes := text "invalid prompt"

def start (format : Format) (prompt : Bytes) (s : State) (input : Bytes) : Option Bytes × State :=
  if isValidPrompt prompt then run format prompt s ((lines input).map Prod.fst)
  else (some invalidPrompt, s)

end ScriptFront.Repl
