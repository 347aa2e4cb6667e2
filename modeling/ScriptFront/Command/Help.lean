import ScriptFront.Command.Options

/-! # Commands and their help

The commands of the program, how the arguments select one, and what its help says.
-/

namespace ScriptFront

inductive Command where
  /-- No command: lines are read as by `repl`. -/
  | root
  | scan
  | parse
  | repl
  | help
  deriving DecidableEq, Repr

namespace Command

def name : Command → String
  | .root => "izr"
  | .scan => "scan"
  | .parse => "parse"
  | .repl => "repl"
  | .help => "help"

def path : Command → Bytes
  | .root => text "izr"
  | c => text "izr " ++ text c.name

def ofName? (n : Bytes) : Option Command :=
  [Command.scan, .parse, .repl, .help].find? fun c => text c.name == n

/-! ### Selection -/

/-- Whether the argument after a flag is taken for its value while the command is looked for.
Only one flag is known not to take one. -/
def takesNext (arg : Bytes) : Bool :=
  !arg.contains (byte '=') &&
    if arg.take 2 = text "--" then arg.drop 2 != text Flag.noColor.name
    else arg.head? == some (byte '-') && arg.length == 2

/-- The arguments that are neither flags nor their values. A value that would be the last
argument ends the search. -/
def withoutFlags : Bool → List Bytes → List Bytes
  | _, [] => []
  | true, _ :: rest => withoutFlags false rest
  | false, arg :: rest =>
    if arg = text "--" then []
    else if takesNext arg then if rest.length ≤ 1 then [] else withoutFlags true rest
    else if !arg.isEmpty && arg.head? != some (byte '-') then arg :: withoutFlags false rest
    else withoutFlags false rest

def withoutFirst (name : Bytes) : Bool → List Bytes → List Bytes
  | _, [] => []
  | true, arg :: rest => arg :: withoutFirst name false rest
  | false, arg :: rest =>
    if arg = text "--" then arg :: rest
    else if takesNext arg then arg :: withoutFirst name true rest
    else if arg.head? != some (byte '-') && arg == name then rest
    else arg :: withoutFirst name false rest

/-- The command that the arguments select, and the arguments without its name. -/
def select (args : List Bytes) : Command × List Bytes :=
  match (withoutFlags false args).head? with
  | none => (.root, args)
  | some n =>
    match ofName? n with
    | some c => (c, withoutFirst n false args)
    | none => (.root, args)

/-! ### Help -/

def summary : Command → String
  | .root =>
    "izr runs the InZertion front end: it prints the tokens or the syntax tree of a script.\nWithout a subcommand it starts an interactive prompt."
  | .scan => "Print the tokens of a script"
  | .parse => "Print the statements of a script"
  | .repl => "Parse lines interactively"
  | .help =>
    "Help provides help for any command in the application.\nSimply type izr help [path to command] for full details."

def usage : Command → String
  | .root => "  izr [flags]\n  izr [command]"
  | .scan => "  izr scan FILE [flags]"
  | .parse => "  izr parse FILE [flags]"
  | .repl => "  izr repl [flags]"
  | .help => "  izr help [command] [flags]"

def helpText : Command → Bytes
  | .root =>
    text (summary .root) ++ text "\n\nUsage:\n" ++ text (usage .root) ++ text
      "\n\nAvailable Commands:
  completion  Generate the autocompletion script for the specified shell
  help        Help about any command
  parse       Print the statements of a script
  repl        Parse lines interactively
  scan        Print the tokens of a script

Flags:
      --config string   config file (default: $IZR_CONFIG or $XDG_CONFIG_HOME/inzertion/config.toml)
  -f, --format string   output format: sexpr or yaml (default \"sexpr\")
  -h, --help            help for izr
      --no-color        disable colored diagnostics

Use \"izr [command] --help\" for more information about a command.\n"
  | c =>
    text (summary c) ++ text "\n\nUsage:\n" ++ text (usage c) ++ text "\n\nFlags:\n  -h, --help   help for "
      ++ text c.name ++ text
      "\n\nGlobal Flags:
      --config string   config file (default: $IZR_CONFIG or $XDG_CONFIG_HOME/inzertion/config.toml)
  -f, --format string   output format: sexpr or yaml (default \"sexpr\")
      --no-color        disable colored diagnostics\n"

end Command

end ScriptFront
