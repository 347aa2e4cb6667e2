import ScriptFront.Text.Bytes

/-! # Token kinds

The kinds of token a script is made of, their names and numbers, and the words and symbols that
have a kind of their own. A number outside the table is kept as an unknown kind.
-/

namespace ScriptFront

inductive Kind where
  | eof
  | leftParen | rightParen | leftBrace | rightBrace
  | comma | dot | minus | plus | semicolon | slash | star
  | bang | bangEqual | equal | equalEqual
  | greater | greaterEqual | less | lessEqual
  | plusEqual | minusEqual | slashEqual | starEqual
  | identifier | string | number
  | logicalAnd | breakKw | classKw | elseKw | falseKw | functionKw | forKw | ifKw | nullKw
  | logicalOr | printKw | returnKw | superKw | thisKw | trueKw | whileKw | varKw
  | dynaKw | dataKw | arrayKw | stackKw | queueKw
  | unknown (code : Int)
  deriving DecidableEq, Repr

namespace Kind

/-- The known kinds with their names, in the order of their numbers. -/
def table : List (Kind × String) :=
  [(eof, "EOF"), (leftParen, "LEFTPAREN"), (rightParen, "RIGHTPAREN"), (leftBrace, "LEFTBRACE"),
   (rightBrace, "RIGHTBRACE"), (comma, "COMMA"), (dot, "DOT"), (minus, "MINUS"), (plus, "PLUS"),
   (semicolon, "SEMICOLON"), (slash, "SLASH"), (star, "STAR"), (bang, "BANG"),
   (bangEqual, "BANGEQUAL"), (equal, "EQUAL"), (equalEqual, "EQUALEQUAL"), (greater, "GREATER"),
   (greaterEqual, "GREATEREQUAL"), (less, "LESS"), (lessEqual, "LESSEQUAL"),
   (plusEqual, "PLUSEQUAL"), (minusEqual, "MINUSEQUAL"), (slashEqual, "SLASHEQUAL"),
   (starEqual, "STAREQUAL"), (identifier, "IDENT"), (string, "STRING"), (number, "NUMBER"),
   (logicalAnd, "AND"), (breakKw, "BREAK"), (classKw, "CLASS"), (elseKw, "ELSE"),
   (falseKw, "FALSE"), (functionKw, "FUNCTION"), (forKw, "FOR"), (ifKw, "IF"), (nullKw, "NULL"),
   (logicalOr, "OR"), (printKw, "PRINT"), (returnKw, "RETURN"), (superKw, "SUPER"),
   (thisKw, "THIS"), (trueKw, "TRUE"), (whileKw, "WHILE"), (varKw, "VAR"), (dynaKw, "DYNA"),
   (dataKw, "DATA"), (arrayKw, "ARRAY"), (stackKw, "STACK"), (queueKw, "QUEUE")]

def ofCode : Int → Kind
  | .ofNat n => ((table[n]?).map Prod.fst).getD (unknown n)
  | .negSucc n => unknown (.negSucc n)

def name : Kind → Bytes
  | .unknown code => text "Kind(" ++ Bytes.integer code ++ text ")"
  | k => ((table.lookup k).map text).getD []

def keywords : List (String × Kind) :=
  [("and", logicalAnd), ("array", arrayKw), ("break", breakKw), ("class", classKw),
   ("data", dataKw), ("dyna", dynaKw), ("else", elseKw), ("false", falseKw), ("for", forKw),
   ("function", functionKw), ("if", ifKw), ("null", nullKw), ("or", logicalOr),
   ("print", printKw), ("queue", queueKw), ("return", returnKw), ("stack", stackKw),
   ("super", superKw), ("this", thisKw), ("true", trueKw), ("var", varKw), ("while", whileKw)]

def ofWord (word : Bytes) : Kind :=
  ((keywords.find? fun entry => text entry.1 == word).map Prod.snd).getD identifier

def symbols : List (String × Kind) :=
  [("(", leftParen), (")", rightParen), ("\x7b", leftBrace), ("\x7d", rightBrace), (",", comma),
   (".", dot), (";", semicolon), ("-", minus), ("-=", minusEqual), ("+", plus), ("+=", plusEqual),
   ("*", star), ("*=", starEqual), ("!", bang), ("!=", bangEqual), ("=", equal),
   ("==", equalEqual), ("<", less), ("<=", lessEqual), (">", greater), (">=", greaterEqual),
   ("/", slash), ("/=", slashEqual), ("&&", logicalAnd), ("||", logicalOr)]

def ofSymbol? (symbol : Bytes) : Option Kind :=
  (symbols.find? fun entry => text entry.1 == symbol).map Prod.snd

/-- The kinds a declaration or statement may begin with that no expression contains. -/
def startsDeclaration : Kind → Bool
  | classKw | functionKw | varKw | forKw | ifKw | whileKw | printKw | returnKw => true
  | _ => false

end Kind

end ScriptFront
