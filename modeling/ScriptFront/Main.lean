import ScriptFront.Command.Run

/-! # The program

Takes a snapshot of all that a run depends on, and does what the run answers.
-/

namespace ScriptFront.Program

def variableNames : List String :=
  ["HOME", "XDG_CONFIG_HOME", "XDG_CONFIG_DIRS", "XDG_DATA_HOME", "CLICOLOR_FORCE", "NO_COLOR",
   Config.variableName]

def environment : IO Variables := do
  let found ← variableNames.mapM fun name => do
    return (← IO.getEnv name).map fun value => (text name, text value)
  return found.filterMap id

def pathString (b : Bytes) : String := String.ofList ((Utf8.runes b).map Rune.shown)

def look (l : Location) : IO (Option Entry) := do
  let path := (← IO.currentDir) / pathString (Files.pathOf l)
  if ← path.isDir then return some .directory
  try
    return some (.file (← IO.FS.readBinFile path).data.toList)
  catch _ =>
    return none

/-- The files with all places on the way along the parts of a path. -/
def lookAlong (fs : Files) (l : Location) : List Bytes → IO Files
  | [] => return fs
  | part :: rest => do
    let l := Path.reduce true l part
    match ← look l with
    | some e => lookAlong (fs.insert l e) l rest
    | none => return fs

def snapshot (paths : List Bytes) : IO Files := do
  let workingDirectory := (Path.parts (text (← IO.currentDir).toString)).filter (!·.isEmpty)
  let start ← lookAlong { workingDirectory } [] workingDirectory
  paths.foldlM (fun fs path =>
    lookAlong fs (if Path.isAbsolute path then [] else workingDirectory) (Path.parts path)) start

partial def readAll (stream : IO.FS.Stream) (found : ByteArray) : IO ByteArray := do
  let chunk ← stream.read 65536
  if chunk.isEmpty then return found
  readAll stream (found ++ chunk)

def toByteArray (b : Bytes) : ByteArray := ⟨b.toArray⟩

def saveHistory (world : Command.World) (out : Command.Outcome) : IO Unit := do
  let path := Command.historyPath world.environment
  let old := (world.files.read path).toOption
  if let some content := (out.files.read path).toOption then
    if old != some content then
      let file := (← IO.currentDir) / pathString path
      if let some parent := file.parent then IO.FS.createDirAll parent
      IO.FS.writeBinFile file (toByteArray content)

/-- Writes the output of a run, or, if that fails, runs with an output that is full. -/
def finish (world : Command.World) : IO Command.Outcome := do
  let out := Command.run world
  let stdout ← IO.getStdout
  try
    stdout.write (toByteArray out.output)
    stdout.flush
    return out
  catch _ => return Command.run { world with outputFull := true }

end ScriptFront.Program

open ScriptFront in
def main (arguments : List String) : IO UInt32 := do
  let args := arguments.map text
  let environment ← Program.environment
  let files ← Program.snapshot (Command.pathsUsed args environment)
  let input ← if Command.readsInput args then Program.readAll (← IO.getStdin) ByteArray.empty
    else pure ByteArray.empty
  let world : Command.World := { args, environment, files, input := input.data.toList }
  let out ← Program.finish world
  Program.saveHistory world out
  (← IO.getStderr).write (Program.toByteArray out.errors)
  return if out.succeeded then 0 else 1
