import ScriptFront.Parse.Expression

/-! # Derivations of expressions

The grammar of expressions:

    assignment = logicOr ( "=" assignment | ( "+=" | "-=" | "*=" | "/=" ) term )? ;
    logicOr    = logicAnd ( "or" logicAnd )* ;
    logicAnd   = equality ( "and" equality )* ;
    equality   = comparison ( ( "!=" | "==" ) comparison )* ;
    comparison = term ( ( ">" | ">=" | "<" | "<=" ) term )* ;
    term       = factor ( ( "-" | "+" ) factor )* ;
    factor     = unary ( ( "/" | "*" ) unary )* ;
    unary      = ( "!" | "-" ) unary | call ;
    call       = primary ( "(" arguments? ")" )* ;
    arguments  = assignment ( "," assignment )* ;
    primary    = "true" | "false" | "null" | NUMBER | STRING | IDENT | "(" assignment ")" ;

A derivation is a tree of this grammar with a token at each leaf. It has a yield, a value and
the problems that have to be reported on it.
-/

namespace ScriptFront.Grammar

open Parse

/-- A token of one kind. The rest of it is arbitrary. -/
abbrev Terminal (kind : Kind) : Type := { t : Token // t.kind = kind }

/-- A token of one of several kinds. -/
abbrev TerminalOf (wanted : Kind → Bool) : Type := { t : Token // wanted t.kind = true }

/-- The levels whose operators associate to the left, from the tightest to the loosest. -/
inductive Chain where
  | factor | term | comparison | equality | logicAnd | logicOr

def Chain.isOperator : Chain → Kind → Bool
  | .factor, k => k == .slash || k == .star
  | .term, k => k == .minus || k == .plus
  | .comparison, k => k == .greater || k == .greaterEqual || k == .less || k == .lessEqual
  | .equality, k => k == .bangEqual || k == .equalEqual
  | .logicAnd, k => k == .logicalAnd
  | .logicOr, k => k == .logicalOr

def Chain.build : Chain → Expr → Token → Expr → Expr
  | .logicAnd | .logicOr => .logical
  | _ => .binary

inductive Level where
  | primary | call | unary
  | chain (c : Chain)
  | assignment

def Chain.operand : Chain → Level
  | .factor => .unary
  | .term => .chain .factor
  | .comparison => .chain .term
  | .equality => .chain .comparison
  | .logicAnd => .chain .equality
  | .logicOr => .chain .logicAnd

/-- What a derivation is one of: an expression of a level, or one of the repeated and optional
parts that occur in expressions. -/
inductive ExprForm where
  | expr (level : Level)
  /-- `( operator operand )*` -/
  | operations (c : Chain)
  /-- `( "(" arguments? ")" )*` -/
  | calls
  /-- `arguments?` -/
  | arguments
  /-- `( "," assignment )*` after a number of arguments. -/
  | furtherArguments (count : Nat)

/-- The kinds of the tokens that are expressions by themselves. -/
def isAtom (k : Kind) : Bool :=
  k == .trueKw || k == .falseKw || k == .nullKw || k == .number || k == .string || k == .identifier

/-- The operators before an operand. -/
def isSign (k : Kind) : Bool := k == .bang || k == .minus

/-- The operators of compound assignments. -/
def isCompound (k : Kind) : Bool :=
  k == .plusEqual || k == .minusEqual || k == .starEqual || k == .slashEqual

inductive ExprTree : ExprForm → Type where
  | atom (t : TerminalOf isAtom) : ExprTree (.expr .primary)
  | grouping (opening : Terminal .leftParen) (inner : ExprTree (.expr .assignment))
      (closing : Terminal .rightParen) : ExprTree (.expr .primary)
  | call (callee : ExprTree (.expr .primary)) (more : ExprTree .calls) : ExprTree (.expr .call)
  | noCalls : ExprTree .calls
  | moreCalls (opening : Terminal .leftParen) (args : ExprTree .arguments)
      (closing : Terminal .rightParen) (more : ExprTree .calls) : ExprTree .calls
  | noArguments : ExprTree .arguments
  | someArguments (first : ExprTree (.expr .assignment)) (more : ExprTree (.furtherArguments 1)) :
      ExprTree .arguments
  | noFurtherArguments {count : Nat} : ExprTree (.furtherArguments count)
  | furtherArguments {count : Nat} (comma : Terminal .comma)
      (argument : ExprTree (.expr .assignment)) (more : ExprTree (.furtherArguments (count + 1))) :
      ExprTree (.furtherArguments count)
  | signed (op : TerminalOf isSign) (operand : ExprTree (.expr .unary)) :
      ExprTree (.expr .unary)
  | unsigned (e : ExprTree (.expr .call)) : ExprTree (.expr .unary)
  | chain {c : Chain} (first : ExprTree (.expr c.operand)) (more : ExprTree (.operations c)) :
      ExprTree (.expr (.chain c))
  | noOperations {c : Chain} : ExprTree (.operations c)
  | moreOperations {c : Chain} (op : TerminalOf c.isOperator) (right : ExprTree (.expr c.operand))
      (more : ExprTree (.operations c)) : ExprTree (.operations c)
  | unassigned (e : ExprTree (.expr (.chain .logicOr))) : ExprTree (.expr .assignment)
  | assigned (target : ExprTree (.expr (.chain .logicOr))) (op : Terminal .equal)
      (right : ExprTree (.expr .assignment)) : ExprTree (.expr .assignment)
  | compound (target : ExprTree (.expr (.chain .logicOr))) (op : TerminalOf isCompound)
      (right : ExprTree (.expr (.chain .term))) : ExprTree (.expr .assignment)

abbrev Expression : Type := ExprTree (.expr .assignment)

/-! ### Meaning -/

/-- What stands for a derivation in the syntax tree: an expression, the operators with their right
operands, the argument lists with their closing parentheses, or the arguments. -/
abbrev ExprForm.Value : ExprForm → Type
  | .expr _ => Expr
  | .operations _ => List (Token × Expr)
  | .calls => List (List Expr × Token)
  | .arguments | .furtherArguments _ => List Expr

def literalValue (t : Token) : Value :=
  if t.kind = .trueKw then .bool true
  else if t.kind = .falseKw then .bool false
  else if t.kind = .nullKw then .null
  else t.literal

def atomValue (t : Token) : Expr :=
  if t.kind = .identifier then .reference t else .literal t (literalValue t)

/-- The value of an assignment. A target that is not a bare name is dropped. -/
def assignedValue (target : Expr) (op : Token) (right : Expr) : Expr :=
  match target with
  | .reference name =>
    .assign name (if op.kind = .equal then right else .binary (.reference name) op right)
  | _ => right

def targetReports (target : Expr) (op : Token) : List Report :=
  match target with
  | .reference _ => []
  | _ => [⟨some op, .invalidAssignmentTarget⟩]

def argumentReports (count : Nat) (site : Option Token) : List Report :=
  if mostParameters ≤ count then [⟨site, .tooManyArguments⟩] else []

namespace ExprTree

@[simp]
def yield {form : ExprForm} : ExprTree form → List Token
  | atom t => [t.1]
  | grouping opening inner closing => opening.1 :: (inner.yield ++ [closing.1])
  | call callee more => callee.yield ++ more.yield
  | noCalls => []
  | moreCalls opening args closing more =>
    opening.1 :: (args.yield ++ closing.1 :: more.yield)
  | noArguments => []
  | someArguments first more => first.yield ++ more.yield
  | noFurtherArguments => []
  | furtherArguments comma argument more => comma.1 :: (argument.yield ++ more.yield)
  | signed op operand => op.1 :: operand.yield
  | unsigned e => e.yield
  | chain first more => first.yield ++ more.yield
  | noOperations => []
  | moreOperations op right more => op.1 :: (right.yield ++ more.yield)
  | unassigned e => e.yield
  | assigned target op right => target.yield ++ op.1 :: right.yield
  | compound target op right => target.yield ++ op.1 :: right.yield

@[simp]
def value {form : ExprForm} : ExprTree form → form.Value
  | atom t => atomValue t.1
  | grouping _ inner _ => .grouping inner.value
  | call callee more => more.value.foldl (fun e c => .call e c.2 c.1) callee.value
  | noCalls => []
  | moreCalls _ args closing more => (args.value, closing.1) :: more.value
  | noArguments => []
  | someArguments first more => first.value :: more.value
  | noFurtherArguments => []
  | furtherArguments _ argument more => argument.value :: more.value
  | signed op operand => .unary op.1 operand.value
  | unsigned e => e.value
  | @chain c first more => more.value.foldl (fun left o => c.build left o.1 o.2) first.value
  | noOperations => []
  | moreOperations op right more => (op.1, right.value) :: more.value
  | unassigned e => e.value
  | assigned target op right => assignedValue target.value op.1 right.value
  | compound target op right => assignedValue target.value op.1 right.value

/-- The problems of an expression, in the order in which they are met. A bad target is met after
the right side, an argument too many before the argument itself. -/
@[simp]
def reports {form : ExprForm} : ExprTree form → List Report
  | atom _ => []
  | grouping _ inner _ => inner.reports
  | call callee more => callee.reports ++ more.reports
  | noCalls => []
  | moreCalls _ args _ more => args.reports ++ more.reports
  | noArguments => []
  | someArguments first more => first.reports ++ more.reports
  | noFurtherArguments => []
  | @furtherArguments count _ argument more =>
    argumentReports count argument.yield.head? ++ argument.reports ++ more.reports
  | signed _ operand => operand.reports
  | unsigned e => e.reports
  | chain first more => first.reports ++ more.reports
  | noOperations => []
  | moreOperations _ right more => right.reports ++ more.reports
  | unassigned e => e.reports
  | assigned target op right => target.reports ++ right.reports ++ targetReports target.value op.1
  | compound target op right => target.reports ++ right.reports ++ targetReports target.value op.1

end ExprTree

end ScriptFront.Grammar
