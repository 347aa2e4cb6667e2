import ScriptFront.Text.Quoted

/-! # Flags

Flags have a long name after two dashes or a letter after one. Letters may stand together, and
what follows the letter of a flag with a value is that value. Flags and other arguments may come
in any order; two dashes alone end the flags.
-/

namespace ScriptFront.Command

inductive Flag where
  | config
  | format
  | noColor
  | help
  deriving DecidableEq, Repr

namespace Flag

def name : Flag → String
  | .config => "config"
  | .format => "format"
  | .noColor => "no-color"
  | .help => "help"

def letter? : Flag → Option Char
  | .format => some 'f'
  | .help => some 'h'
  | .config | .noColor => none

def isSwitch : Flag → Bool
  | .noColor | .help => true
  | .config | .format => false

def all : List Flag := [.config, .format, .noColor, .help]

def ofName? (n : Bytes) : Option Flag := all.find? fun f => text f.name == n

def ofLetter? (b : UInt8) : Option Flag := all.find? fun f => f.letter?.any (byte · == b)

def shown (f : Flag) : Bytes :=
  (match f.letter? with
    | some l => [byte '-', byte l] ++ text ", "
    | none => []) ++ text "--" ++ text f.name

end Flag

inductive FlagError where
  | malformed (arg : Bytes)
  | unknown (name : Bytes)
  | unknownLetter (letter : UInt8) (letters : Bytes)
  | needsValue (arg : Bytes)
  | letterNeedsValue (letter : UInt8) (letters : Bytes)
  | notTruthValue (flag : Flag) (value : Bytes)
  deriving DecidableEq, Repr

def quotedByte (b : UInt8) : Bytes :=
  let c := Char.ofNat b.toNat
  let inner :=
    if c = '\'' then text "\\'"
    else if c = '"' then text "\""
    else Quoted.ofChar c
  byte '\'' :: inner ++ [byte '\'']

def FlagError.message : FlagError → Bytes
  | .malformed arg => text "bad flag syntax: " ++ arg
  | .unknown name => text "unknown flag: --" ++ name
  | .unknownLetter letter letters =>
    text "unknown shorthand flag: " ++ quotedByte letter ++ text " in -" ++ letters
  | .needsValue arg => text "flag needs an argument: " ++ arg
  | .letterNeedsValue letter letters =>
    text "flag needs an argument: " ++ quotedByte letter ++ text " in -" ++ letters
  | .notTruthValue flag value =>
    text "invalid argument " ++ quoted value ++ text " for " ++ quoted flag.shown
      ++ text " flag: strconv.ParseBool: parsing " ++ quoted value ++ text ": invalid syntax"

structure Options where
  config : Bytes := []
  format : Option Bytes := none
  noColor : Bool := false
  help : Bool := false
  deriving DecidableEq, Repr

namespace Options

def truth? (value : Bytes) : Option Bool :=
  if ["1", "t", "T", "TRUE", "true", "True"].any (text · == value) then some true
  else if ["0", "f", "F", "FALSE", "false", "False"].any (text · == value) then some false
  else none

def set (o : Options) (f : Flag) (value : Bytes) : Except FlagError Options :=
  let switch (change : Bool → Options) : Except FlagError Options :=
    match truth? value with
    | some b => .ok (change b)
    | none => .error (.notTruthValue f value)
  match f with
  | .config => .ok { o with config := value }
  | .format => .ok { o with format := some value }
  | .noColor => switch fun b => { o with noColor := b }
  | .help => switch fun b => { o with help := b }

/-- A flag that waits for its value, and the error if there is none. -/
structure Waiting where
  flag : Flag
  error : FlagError

/-- Letters after a dash. The last one may still wait for its value. -/
def setLetters (o : Options) : Bytes → Except FlagError (Options × Option Waiting)
  | [] => .ok (o, none)
  | c :: more => do
    let letters := c :: more
    if letters.take 5 = text "test." then return (o, none)
    match Flag.ofLetter? c with
    | none => throw (.unknownLetter c letters)
    | some f =>
      if more.head? = some (byte '=') ∧ 1 < more.length then
        return (← o.set f (more.drop 1), none)
      else if f.isSwitch then (← o.set f (text "true")).setLetters more
      else if !more.isEmpty then return (← o.set f more, none)
      else return (o, some ⟨f, .letterNeedsValue c letters⟩)

def setName (o : Options) (arg : Bytes) : Except FlagError (Options × Option Waiting) := do
  let body := arg.drop 2
  if body.head?.all (fun b => b == byte '-' || b == byte '=') then throw (.malformed arg)
  let name := body.takeWhile (· != byte '=')
  match Flag.ofName? name with
  | none => throw (.unknown name)
  | some f =>
    if name.length < body.length then return (← o.set f (body.drop (name.length + 1)), none)
    else if f.isSwitch then return (← o.set f (text "true"), none)
    else return (o, some ⟨f, .needsValue arg⟩)

def parseFrom (o : Options) (found : List Bytes) :
    Option Waiting → List Bytes → Except FlagError (Options × List Bytes)
  | none, [] => .ok (o, found)
  | some w, [] => .error w.error
  | some w, value :: rest => do (← o.set w.flag value).parseFrom found none rest
  | none, arg :: rest =>
    if arg.head? ≠ some (byte '-') ∨ arg.length = 1 then o.parseFrom (found ++ [arg]) none rest
    else if arg = text "--" then .ok (o, found ++ rest)
    else do
      let (o, waiting) ←
        if arg.take 2 = text "--" then o.setName arg else o.setLetters (arg.drop 1)
      o.parseFrom found waiting rest

def parse (args : List Bytes) : Except FlagError (Options × List Bytes) :=
  parseFrom {} [] none args

end Options

end ScriptFront.Command
