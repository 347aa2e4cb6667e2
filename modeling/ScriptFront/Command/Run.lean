import ScriptFront.Command.Help
import ScriptFront.Command.Repl
import ScriptFront.Config.Load

/-! # Running the program

What the program answers to its arguments, given the environment, the files and the input.
-/

namespace ScriptFront.Command

/-- All that a run of the program depends on. -/
structure World where
  args : List Bytes
  environment : Variables := []
  files : Files := {}
  input : Bytes := []
  /-- Whether every write to the output fails. -/
  outputFull : Bool := false

structure Outcome where
  succeeded : Bool
  output : Bytes := []
  errors : Bytes := []
  files : Files := {}

/-- Why a command fails. -/
inductive Failure where
  /-- The source has problems, which were reported already. -/
  | reported
  | message (text : Bytes)

structure Settings where
  config : Config
  format : Format
  echo : Echo

structure Written where
  sink : Sink
  errors : Bytes := []
  files : Files

def Written.error (w : Written) (b : Bytes) : Written := { w with errors := w.errors ++ b }

/-- Colours are shown when they are forced and not forbidden; the output is no terminal. -/
def terminal (vs : Variables) : Terminal :=
  let forced := vs.get "CLICOLOR_FORCE"
  if !forced.isEmpty && forced != text "0" && (vs.get "NO_COLOR").isEmpty then .colored else .plain

def settings (w : World) (o : Options) : Except Bytes Settings := do
  let config ← Config.loadFound w.files w.environment o.config
  let format ← Format.ofName (o.format.getD config.format)
  let echo := if config.color && !o.noColor then .painted (terminal w.environment) else .plain
  return { config, format, echo }

def Settings.session (s : Settings) : Session := ⟨{ echo := s.echo }⟩

abbrev Ending := Option Failure

/-- Ends after writing: with an error, or with problems of the source, or without failure. -/
def ending (writeError : Option Bytes) (sourceError : Option Bytes) : Ending :=
  match writeError, sourceError with
  | some e, _ => some (.message e)
  | none, some _ => some .reported
  | none, none => none

def scanSource (s : Settings) (source : Bytes) (w : Written) : Ending × Written :=
  let (tokens, error, session) := s.session.scan source
  let (writeError, sink) := s.format.writeTokens tokens w.sink
  (ending writeError error, { w with sink, errors := w.errors ++ session.log.written })

def parseSource (s : Settings) (source : Bytes) (w : Written) : Ending × Written :=
  let (stmts, error, session) := s.session.run source
  let (writeError, sink) := s.format.writeProgram stmts w.sink
  (ending writeError error, { w with sink, errors := w.errors ++ session.log.written })

def withFile (path : Bytes) (use : Bytes → Written → Ending × Written) (w : Written) :
    Ending × Written :=
  match w.files.read path with
  | .ok source => use source w
  | .error e => (some (.message e.message), w)

def historyPath (vs : Variables) : Bytes :=
  Path.join [vs.dataHome, text "inzertion", text ".izr_history"]

/-- The history saved earlier. A file that cannot be opened is not minded, one that cannot be
read to its end is. -/
def loadHistory (path : Bytes) (w : Written) : List Bytes × Written :=
  match w.files.read path with
  | .ok saved =>
    match Repl.restore [] 1 (Repl.lines saved) with
    | (history, none) => (history, w)
    | (history, some e) => (history, w.error (e.message ++ [Bytes.newline]))
  | .error e =>
    if e.reason = .isDirectory then ([], w.error (e.message ++ [Bytes.newline])) else ([], w)

def saveHistory (path : Bytes) (history : List Bytes) (w : Written) : Written :=
  match w.files.save path (Bytes.lines history) with
  | .ok files => { w with files }
  | .error e => w.error (e.message ++ [Bytes.newline])

def runPrompt (s : Settings) (vs : Variables) (input : Bytes) (w : Written) : Ending × Written :=
  let path := historyPath vs
  let (history, w) := if s.config.history then loadHistory path w else ([], w)
  let (error, state) :=
    Repl.start s.format s.config.prompt ⟨s.session, w.sink, history⟩ input
  let w := { w with sink := state.sink, errors := w.errors ++ state.session.log.written }
  let w := if s.config.history then saveHistory path state.history w else w
  (error.map .message, w)

/-- The help of a command. That it cannot be written is an error, but no failure. -/
def showHelp (c : Command) (w : Written) : Ending × Written :=
  let (error, sink) := w.sink.write c.helpText
  let w := { w with sink }
  (none, match error with
    | none => w
    | some e => w.error (e ++ [Bytes.newline]))

def checkArguments (c : Command) (args : List Bytes) : Option Bytes :=
  match c with
  | .scan | .parse =>
    if args.length = 1 then none
    else some (text "accepts 1 arg(s), received " ++ Bytes.decimal args.length)
  | .root | .repl =>
    args.head?.map fun a => text "unknown command " ++ quoted a ++ text " for " ++ quoted c.path
  | .help => none

def runCommand (world : World) (c : Command) (o : Options) (args : List Bytes) (w : Written) :
    Ending × Written :=
  if o.help then showHelp c w
  else
    match checkArguments c args with
    | some message => (some (.message message), w)
    | none =>
      if c = .help then showHelp (select args).1 w
      else
        match settings world o with
        | .error message => (some (.message message), w)
        | .ok s =>
          match c with
          | .scan => withFile (args.headD []) (scanSource s) w
          | .parse => withFile (args.headD []) (parseSource s) w
          | _ => runPrompt s world.environment world.input w

def readsInput (args : List Bytes) : Bool :=
  let (c, rest) := select args
  match Options.parse rest with
  | .error _ => false
  | .ok (o, found) => (c == .root || c == .repl) && !o.help && found.isEmpty

def pathsUsed (args : List Bytes) (vs : Variables) : List Bytes :=
  let given := match Options.parse (select args).2 with
    | .error _ => []
    | .ok (o, found) => o.config :: found
  given ++ vs.get Config.variableName :: historyPath vs :: Config.places vs

def fullOutput : Bytes := text "write /dev/stdout: no space left on device"

def run (world : World) : Outcome :=
  let (c, rest) := select world.args
  let sink : Sink :=
    { capacity := if world.outputFull then some 0 else none, refusal := fullOutput }
  let start : Written := { sink, files := world.files }
  let (end?, w) : Ending × Written := match Options.parse rest with
    | .error e => (some (.message e.message), start)
    | .ok (o, args) => runCommand world c o args start
  let errors := match end? with
    | some (.message m) => w.errors ++ text "Error: " ++ m ++ [Bytes.newline]
    | _ => w.errors
  { succeeded := end?.isNone, output := w.sink.written, errors, files := w.files }

end ScriptFront.Command
