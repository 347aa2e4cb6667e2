import ScriptFront.Files.Path

/-! # Files

A snapshot of a part of a file system: what is at each place, and the directory that paths which
are not absolute start from.
-/

namespace ScriptFront

inductive Entry where
  | file (content : Bytes)
  | directory
  deriving DecidableEq, Repr

/-- The parts of an absolute path. -/
abbrev Location := List Bytes

structure Files where
  workingDirectory : Location := []
  /-- The top directory is there without being listed. -/
  entries : List (Location × Entry) := []
  deriving Repr

inductive FileReason where
  | missing
  | notDirectory
  | isDirectory
  deriving DecidableEq, Repr

def FileReason.message : FileReason → String
  | .missing => "no such file or directory"
  | .notDirectory => "not a directory"
  | .isDirectory => "is a directory"

inductive FileAction where
  | opening
  | reading
  | makingDirectory
  deriving DecidableEq, Repr

def FileAction.name : FileAction → String
  | .opening => "open"
  | .reading => "read"
  | .makingDirectory => "mkdir"

structure FileError where
  action : FileAction
  path : Bytes
  reason : FileReason
  deriving DecidableEq, Repr

def FileError.message (e : FileError) : Bytes :=
  text e.action.name ++ text " " ++ e.path ++ text ": " ++ text e.reason.message

namespace Files

def entry? (fs : Files) (l : Location) : Option Entry :=
  if l.isEmpty then some .directory else fs.entries.lookup l

/-- Puts an entry in its place, and directories on the way to it where there is nothing. -/
def insert (fs : Files) (l : Location) (e : Entry) : Files :=
  let ways := (List.range l.length).map l.take
  let missing := ways.filter fun w => (fs.entry? w).isNone
  { fs with
    entries := fs.entries.filter (·.1 != l) ++ missing.map (·, .directory) ++ [(l, e)] }

/-- Follows the parts of a path from a place. Only a directory leads on. -/
def follow (fs : Files) : Location → List Bytes → Except FileReason Location
  | l, [] => .ok l
  | l, part :: rest =>
    match fs.entry? l with
    | none => .error .missing
    | some (.file _) => .error .notDirectory
    | some .directory =>
      if part = [] ∨ part = text "." then fs.follow l rest
      else if part = text ".." then fs.follow l.dropLast rest
      else if (fs.entry? (l ++ [part])).isNone then .error .missing
      else fs.follow (l ++ [part]) rest

def locate (fs : Files) (path : Bytes) : Except FileReason Location :=
  if path.isEmpty then .error .missing
  else fs.follow (if Path.isAbsolute path then [] else fs.workingDirectory) (Path.parts path)

def status (fs : Files) (path : Bytes) : Except FileReason Entry := do
  let l ← fs.locate path
  match fs.entry? l with
  | some e => return e
  | none => throw .missing

def contains (fs : Files) (path : Bytes) : Bool :=
  match fs.status path with
  | .ok _ => true
  | .error _ => false

def read (fs : Files) (path : Bytes) : Except FileError Bytes :=
  match fs.status path with
  | .ok (.file content) => .ok content
  | .ok .directory => .error ⟨.reading, path, .isDirectory⟩
  | .error reason => .error ⟨.opening, path, reason⟩

def names (fs : Files) (l : Location) : List Bytes :=
  let inside := fs.entries.filterMap fun (m, _) =>
    if m.length = l.length + 1 ∧ m.take l.length = l then m.getLast? else none
  inside.mergeSort Bytes.before

/-- The places from the top down to one. -/
def ancestry (l : Location) : List Location := (List.range l.length).map fun n => l.take (n + 1)

def pathOf (l : Location) : Bytes := Path.slash :: Bytes.join [Path.slash] l

def isFile : Option Entry → Bool
  | some (.file _) => true
  | _ => false

def save (fs : Files) (path content : Bytes) : Except FileError Files :=
  let l := (Path.parts (Path.clean path)).filter (!·.isEmpty)
  match (ancestry l.dropLast).find? (fun m => isFile (fs.entry? m)) with
  | some m => .error ⟨.makingDirectory, pathOf m, .notDirectory⟩
  | none =>
    if fs.entry? l = some .directory then .error ⟨.opening, path, .isDirectory⟩
    else .ok (fs.insert l (.file content))

end Files

end ScriptFront
