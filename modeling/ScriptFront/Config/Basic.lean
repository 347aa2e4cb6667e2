import ScriptFront.Output.Format
import ScriptFront.Toml.Read
import ScriptFront.Toml.Table

/-! # Settings

The settings of the program and how a document changes them. Names of settings are read in
letters of either case; settings that a document does not give keep their values.
-/

namespace ScriptFront

structure Config where
  format : Bytes := text Format.sexpr.name
  color : Bool := true
  prompt : Bytes := text "> "
  history : Bool := true
  deriving DecidableEq, Repr

/-- Why a document does not give settings. -/
inductive ConfigProblem where
  /-- It is malformed, in conflict with itself, or gives a value of the wrong type. -/
  | malformed
  | unknownKeys (paths : List Toml.Path)
  | unknownFormat (message : Bytes)
  deriving Repr

namespace Config

open Toml (Key Content Table)

/-- A small letter for each letter that differs from it by case alone. -/
def folded (c : Char) : Char :=
  if c = '\u017f' then 's' else if c = '\u212a' then 'k' else c.toLower

def names (setting : String) (k : Key) : Bool := k.map folded == setting.toList

/-- The settings so far, and the paths they were taken from. -/
structure Taken where
  config : Config := {}
  paths : List Toml.Path := []

def takeOutput (c : Config) (k : Key) (n : Content) : Option (Option Config) :=
  if names "format" k then
    match n with
    | .string cs => some (some { c with format := encode cs })
    | _ => none
  else if names "color" k then
    match n with
    | .bool color => some (some { c with color })
    | _ => none
  else some none

def takeRepl (c : Config) (k : Key) (n : Content) : Option (Option Config) :=
  if names "prompt" k then
    match n with
    | .string cs => some (some { c with prompt := encode cs })
    | _ => none
  else if names "history" k then
    match n with
    | .bool history => some (some { c with history })
    | _ => none
  else some none

/-- Takes the settings of one table; what is no setting is passed over. -/
def takeAll (take : Config → Key → Content → Option (Option Config)) (outer : Key) (t : Table)
    (taken : Taken) : Option Taken :=
  t.foldlM (fun taken (k, n) => do
    match ← take taken.config k n with
    | some config => return ⟨config, taken.paths ++ [[outer, k]]⟩
    | none => return taken) { taken with paths := taken.paths ++ [[outer]] }

def takeTop (taken : Taken) (k : Key) (n : Content) : Option Taken :=
  let section? : Option (Config → Key → Content → Option (Option Config)) :=
    if names "output" k then some takeOutput
    else if names "repl" k then some takeRepl
    else none
  match section?, n with
  | none, _ => some taken
  | some take, .table t => takeAll take k t taken
  | some _, _ => none

def ofDocument (b : Bytes) : Except ConfigProblem Config := do
  let found := do
    let items ← Toml.read? b
    let d ← Toml.define? items
    let taken ← d.root.foldlM (fun taken (k, n) => takeTop taken k n) ({} : Taken)
    return (d, taken)
  match found with
  | none => throw .malformed
  | some (d, taken) =>
    let unknown := d.named.filter fun p => !taken.paths.contains p
    if !unknown.isEmpty then throw (.unknownKeys unknown)
    match Format.ofName taken.config.format with
    | .error message => throw (.unknownFormat message)
    | .ok _ => return taken.config

/-! ### Messages -/

/-- A character of a key between quotes. -/
def escapedInKey (c : Char) : Bytes :=
  match c with
  | '"' => text "\\\""
  | '\\' => text "\\\\"
  | '\x08' => text "\\b"
  | '\t' => text "\\t"
  | '\n' => text "\\n"
  | '\x0c' => text "\\f"
  | '\r' => text "\\r"
  | c =>
    if c.toNat < 0x20 ∨ c.toNat = 0x7F then text "\\u" ++ Bytes.hex 4 c.toNat else encode [c]

def keyText (k : Key) : Bytes :=
  if !k.isEmpty && k.all Toml.isBare then encode k
  else byte '"' :: k.flatMap escapedInKey ++ [byte '"']

def pathText (p : Toml.Path) : Bytes := Bytes.join (text ".") (p.map keyText)

def message (path : Bytes) : ConfigProblem → Bytes
  | .malformed => text "failed to parse config " ++ path ++ text ": malformed document"
  | .unknownKeys paths =>
    text "unknown keys in config " ++ path ++ text ": "
      ++ Bytes.join (text ", ") (paths.map pathText)
  | .unknownFormat m => text "invalid config " ++ path ++ text ": output.format: " ++ m

end Config

end ScriptFront
