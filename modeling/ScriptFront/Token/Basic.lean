import ScriptFront.Token.Kind
import ScriptFront.Value

/-! # Tokens -/

namespace ScriptFront

structure Token where
  kind : Kind
  /-- The bytes of the source the token was cut from. -/
  lexeme : Bytes
  /-- The line the token ends on. -/
  line : Int
  literal : Value
  deriving DecidableEq, Repr

namespace Token

/-- The end of the input, on a line. -/
def ending (line : Int) : Token := ⟨.eof, [], line, .null⟩

/-- The token on one line: kind, quoted lexeme, line and value between braces. -/
def render (t : Token) : Bytes :=
  byte '\x7b' :: Bytes.join (text ", ")
    [t.kind.name, quoted t.lexeme, Bytes.integer t.line, t.literal.bare] ++ [byte '\x7d']

end Token

end ScriptFront
