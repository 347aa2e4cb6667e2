import ScriptFront.Config.Basic
import ScriptFront.Files.Basic

/-! # Finding and loading settings

The document with the settings is named explicitly, or by a variable of the environment, or it
is the first that exists in the directories for settings.
-/

namespace ScriptFront

abbrev Variables := List (Bytes × Bytes)

namespace Variables

/-- The value of a variable; one that is missing is empty. -/
def get (vs : Variables) (name : String) : Bytes := (vs.lookup (text name)).getD []

def home (vs : Variables) : Bytes := vs.get "HOME"

/-- A path whose start may stand for the home directory. -/
def expandHome (vs : Variables) (p : Bytes) : Bytes :=
  let variableName := text "$HOME"
  if vs.home.isEmpty then p
  else if p.head? = some (byte '~') then Path.join [vs.home, p.drop 1]
  else if p.take variableName.length = variableName then
    Path.join [vs.home, p.drop variableName.length]
  else p

/-- The directory a variable names, if it is absolute, or another one in the home directory. -/
def directory (vs : Variables) (name : String) (others : List String) : Bytes :=
  let p := vs.expandHome (vs.get name)
  if Path.isAbsolute p then p else Path.join (vs.home :: others.map text)

def configHome (vs : Variables) : Bytes := vs.directory "XDG_CONFIG_HOME" [".config"]

def dataHome (vs : Variables) : Bytes := vs.directory "XDG_DATA_HOME" [".local", "share"]

def configDirs (vs : Variables) : List Bytes :=
  let given := (Bytes.split (byte ':') (vs.get "XDG_CONFIG_DIRS")).map vs.expandHome
  match (given.filter Path.isAbsolute).eraseDups with
  | [] => [text "/etc/xdg"]
  | dirs => dirs

end Variables

namespace Config

inductive LoadProblem where
  | unreadable (error : FileError)
  | document (problem : ConfigProblem)
  deriving Repr

def LoadProblem.message (path : Bytes) : LoadProblem → Bytes
  | .unreadable e => text "failed to parse config " ++ path ++ text ": " ++ e.message
  | .document p => Config.message path p

def load (fs : Files) (path : Bytes) : Except LoadProblem Config :=
  match fs.read path with
  | .error e => .error (.unreadable e)
  | .ok b => (ofDocument b).mapError .document

def variableName : String := "IZR_CONFIG"

/-- The places where a document is looked for if none is named. -/
def places (vs : Variables) : List Bytes :=
  (vs.configHome :: vs.configDirs).map fun dir =>
    Path.join [dir, text "inzertion", text "config.toml"]

def find? (fs : Files) (vs : Variables) (explicit : Bytes) : Option Bytes :=
  let named := vs.get variableName
  if !explicit.isEmpty then some explicit
  else if !named.isEmpty then some named
  else (places vs).find? fs.contains

def loadFound (fs : Files) (vs : Variables) (explicit : Bytes) : Except Bytes Config :=
  match find? fs vs explicit with
  | none => .ok {}
  | some path => (load fs path).mapError (LoadProblem.message path)

end Config

end ScriptFront
