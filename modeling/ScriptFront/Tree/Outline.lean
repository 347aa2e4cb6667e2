import ScriptFront.Tree.Walk

/-! # Outlines

The outline of a token or a node is a record of its kind, its line and its parts, ready to be
written in a data format. The fields of a record stand in the order of their names.
-/

namespace ScriptFront

inductive Field where
  | args | body | callee | condition | elseBranch | expr | initial | kind | left | lexeme | line
  | literal | name | op | params | right | stmts | thenBranch | value
  deriving DecidableEq, Repr

def Field.label : Field → String
  | .args => "args"
  | .body => "body"
  | .callee => "callee"
  | .condition => "cond"
  | .elseBranch => "else"
  | .expr => "expr"
  | .initial => "init"
  | .kind => "kind"
  | .left => "left"
  | .lexeme => "lexeme"
  | .line => "line"
  | .literal => "literal"
  | .name => "name"
  | .op => "op"
  | .params => "params"
  | .right => "right"
  | .stmts => "stmts"
  | .thenBranch => "then"
  | .value => "value"

inductive Outline where
  | int (n : Int)
  | text (b : Bytes)
  | value (v : Value)
  | list (items : List Outline)
  | record (fields : List (Field × Outline))
  deriving Repr

namespace Outline

def get? (o : Outline) (f : Field) : Option Outline :=
  match o with
  | .record fields => fields.lookup f
  | _ => none

def kindOf (name : String) : Field × Outline := (.kind, .text (ScriptFront.text name))

def lineOf (t : Token) : Field × Outline := (.line, .int t.line)

def nameOf (t : Token) : Field × Outline := (.name, .text t.lexeme)

def opOf (t : Token) : Field × Outline := (.op, .text t.lexeme)

end Outline

open Outline (kindOf lineOf nameOf opOf)

mutual

def Expr.outline : Expr → Outline
  | .assign name value =>
    .record [kindOf "assign", lineOf name, nameOf name, (.value, value.outline)]
  | .binary left op right =>
    .record [kindOf "binary", (.left, left.outline), lineOf op, opOf op, (.right, right.outline)]
  | .logical left op right =>
    .record [kindOf "logical", (.left, left.outline), lineOf op, opOf op, (.right, right.outline)]
  | .grouping inner =>
    .record [(.expr, inner.outline), kindOf "grouping", lineOf inner.base]
  | .literal token value =>
    .record [kindOf "literal", lineOf token, (.value, .value value)]
  | .unary op right =>
    .record [kindOf "unary", lineOf op, opOf op, (.right, right.outline)]
  | .reference token => .record [kindOf "variable", lineOf token, nameOf token]
  | .call callee paren args =>
    .record [(.args, .list (Expr.outlineAll args)), (.callee, callee.outline), kindOf "call",
      lineOf paren]

def Expr.outlineAll : List Expr → List Outline
  | [] => []
  | e :: es => e.outline :: Expr.outlineAll es

end

mutual

def Stmt.outline : Stmt → Outline
  | .block brace body =>
    .record [kindOf "block", lineOf brace, (.stmts, .list (Stmt.outlineAll body))]
  | .expression value =>
    .record [(.expr, value.outline), kindOf "expression", lineOf value.base]
  | .conditional keyword condition thenBranch none =>
    .record [(.condition, condition.outline), kindOf "if", lineOf keyword,
      (.thenBranch, thenBranch.outline)]
  | .conditional keyword condition thenBranch (some elseBranch) =>
    .record [(.condition, condition.outline), (.elseBranch, elseBranch.outline), kindOf "if",
      lineOf keyword, (.thenBranch, thenBranch.outline)]
  | .print keyword value =>
    .record [(.expr, value.outline), kindOf "print", lineOf keyword]
  | .define name initial =>
    .record ((initial.map fun e => (.initial, e.outline)).toList
      ++ [kindOf "var", lineOf name, nameOf name])
  | .loop keyword condition body =>
    .record [(.body, body.outline), (.condition, condition.outline), kindOf "while",
      lineOf keyword]
  | .function name params body =>
    .record [(.body, .list (Stmt.outlineAll body)), kindOf "function", lineOf name, nameOf name,
      (.params, .list (params.map fun t => .text t.lexeme))]
  | .leave keyword value =>
    .record ([(.kind, .text keyword.lexeme), lineOf keyword]
      ++ (value.map fun e => (.value, e.outline)).toList)

def Stmt.outlineAll : List Stmt → List Outline
  | [] => []
  | s :: ss => s.outline :: Stmt.outlineAll ss

end

/-- A token without a value has no field for it. -/
def Token.outline (t : Token) : Outline :=
  .record ([(.kind, .text t.kind.name), (.lexeme, .text t.lexeme), (.line, .int t.line)]
    ++ if t.literal = .null then [] else [(.literal, .value t.literal)])

def Node.outline : Node → Outline
  | .expr e => e.outline
  | .stmt s => s.outline

end ScriptFront
