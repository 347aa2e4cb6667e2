import ScriptFront.Output.Sink
import ScriptFront.Tree.Render
import ScriptFront.Yaml.Document

/-! # Output formats

Tokens and statements are written one per line in parentheses, or all together as one YAML
document.
-/

namespace ScriptFront

inductive Format where
  | sexpr
  | yaml
  deriving DecidableEq, Repr

namespace Format

def name : Format → String
  | .sexpr => "sexpr"
  | .yaml => "yaml"

def ofName (given : Bytes) : Except Bytes Format :=
  if given = text sexpr.name then .ok .sexpr
  else if given = text yaml.name then .ok .yaml
  else .error (text "unknown format " ++ quoted given ++ text " (want "
    ++ quoted (text sexpr.name) ++ text " or " ++ quoted (text yaml.name) ++ text ")")

def writeDocument (items : List Outline) (sink : Sink) : Option Bytes × Sink :=
  let (error, sink) := sink.write (Yaml.document items)
  (error.map (text "encode yaml: yaml: write error: " ++ ·), sink)

def writeTokens (format : Format) (tokens : List Token) (sink : Sink) : Option Bytes × Sink :=
  match format with
  | .sexpr => sink.writeLines (tokens.map Token.render)
  | .yaml => writeDocument (tokens.map Token.outline) sink

def writeProgram (format : Format) (stmts : List Stmt) (sink : Sink) : Option Bytes × Sink :=
  match format with
  | .sexpr => sink.writeLines (stmts.map Stmt.render)
  | .yaml => writeDocument (stmts.map Stmt.outline) sink

end Format

end ScriptFront
