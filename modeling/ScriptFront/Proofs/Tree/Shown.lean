import ScriptFront.Proofs.Tree.Universe
import ScriptFront.Proofs.Value
import ScriptFront.Tree.Outline

/-! # What is shown of a tree

Both the text of a tree and its outline show the forms of its nodes, how they are nested, the names
and the operators, and the values of the literals. The outline also has lines; neither has anything
else. Where the names, operators and values can be told apart, each of the two determines what is
shown, and so the other.
-/

namespace ScriptFront

@[simp]
theorem text_inj {s s' : String} : text s = text s' ↔ s = s' := by
  refine ⟨fun h => ?_, congrArg text⟩
  exact String.toByteArray_inj.mp (ByteArray.ext (Array.toList_inj.mp h))

theorem map_eq_map_iff {α β γ : Type} {f : α → β} {g : α → γ} {as as' : List α}
    (h : ∀ a ∈ as, ∀ a' ∈ as', (f a = f a' ↔ g a = g a')) :
    as.map f = as'.map f ↔ as.map g = as'.map g := by
  induction as generalizing as' with
  | nil => cases as' <;> simp
  | cons a as ih =>
    cases as' with
    | nil => simp
    | cons a' as' =>
      obtain ⟨hfirst, hrest⟩ := List.forall_mem_cons.mp h
      have hmore := ih fun b hb b' hb' => hrest b hb b' (List.mem_cons_of_mem a' hb')
      simp only [List.map_cons, List.cons.injEq, hfirst a' List.mem_cons_self, hmore]

/-! ### Outlines without lines -/

namespace Outline

mutual

/-- The outline without its lines. -/
def withoutLines : Outline → Outline
  | .list items => .list (withoutLinesAll items)
  | .record fields => .record (withoutLineFields fields)
  | .int n => .int n
  | .text b => .text b
  | .value v => .value v

def withoutLinesAll : List Outline → List Outline
  | [] => []
  | o :: rest => o.withoutLines :: withoutLinesAll rest

def withoutLineFields : List (Field × Outline) → List (Field × Outline)
  | [] => []
  | (f, o) :: rest =>
    if f = .line then withoutLineFields rest
    else (f, o.withoutLines) :: withoutLineFields rest

end

attribute [simp] withoutLines withoutLineFields

@[simp]
theorem withoutLinesAll_eq_map (items : List Outline) :
    withoutLinesAll items = items.map withoutLines := by
  induction items with
  | nil => rfl
  | cons o items ih => rw [withoutLinesAll, ih, List.map_cons]

end Outline

@[simp]
theorem Expr.outlineAll_eq_map (es : List Expr) : Expr.outlineAll es = es.map Expr.outline := by
  induction es with
  | nil => rfl
  | cons e es ih => rw [Expr.outlineAll, ih, List.map_cons]

@[simp]
theorem Stmt.outlineAll_eq_map (ss : List Stmt) : Stmt.outlineAll ss = ss.map Stmt.outline := by
  induction ss with
  | nil => rfl
  | cons s ss ih => rw [Stmt.outlineAll, ih, List.map_cons]

/-! ### What a node shows -/

/-- What an expression itself shows: what it is, its name, operator or value. -/
inductive Expr.Label where
  | assign (name : Bytes)
  | binary (op : Bytes)
  | logical (op : Bytes)
  | grouping
  | literal (value : Value)
  | unary (op : Bytes)
  | reference (name : Bytes)
  | call

def Expr.label : Expr → Expr.Label
  | .assign name _ => .assign name.lexeme
  | .binary _ op _ => .binary op.lexeme
  | .logical _ op _ => .logical op.lexeme
  | .grouping _ => .grouping
  | .literal _ value => .literal value
  | .unary op _ => .unary op.lexeme
  | .reference token => .reference token.lexeme
  | .call .. => .call

inductive Stmt.Label where
  | block
  | expression
  | conditional (hasElse : Bool)
  | print
  | define (name : Bytes) (hasInitial : Bool)
  | loop
  | function (name : Bytes) (params : List Bytes)
  | leave (keyword : Bytes) (hasValue : Bool)

def Stmt.label : Stmt → Stmt.Label
  | .block .. => .block
  | .expression _ => .expression
  | .conditional _ _ _ elseBranch => .conditional elseBranch.isSome
  | .print .. => .print
  | .define name initial => .define name.lexeme initial.isSome
  | .loop .. => .loop
  | .function name params _ => .function name.lexeme (params.map Token.lexeme)
  | .leave keyword value => .leave keyword.lexeme value.isSome

inductive Node.Label where
  | expr (l : Expr.Label)
  | stmt (l : Stmt.Label)

def Node.label : Node → Node.Label
  | .expr e => .expr e.label
  | .stmt s => .stmt s.label

/-- All that is shown of a tree: what its root shows, and all that is shown of the children. -/
inductive Shown where
  | node (label : Node.Label) (parts : List Shown)

def Node.shown (n : Node) : Shown :=
  .node n.label (n.children.attach.map fun child => shown child.1)
termination_by n.universe.length
decreasing_by exact length_universe_lt child.2

theorem Node.shown_eq (n : Node) : n.shown = .node n.label (n.children.map shown) := by
  rw [shown, List.map_attach_eq_pmap, List.pmap_eq_map]

/-! ### Trees as lists -/

mutual

/-- The list of which the text of the expression is written. -/
def Expr.sexp : Expr → Sexp
  | .assign name value => .list [.atom (text "assign"), .atom name.lexeme, value.sexp]
  | .binary left op right => .list [.atom (text "binary"), left.sexp, .atom op.lexeme, right.sexp]
  | .logical left op right => .list [.atom (text "logical"), left.sexp, .atom op.lexeme, right.sexp]
  | .grouping inner => .list [.atom (text "grouping"), inner.sexp]
  | .literal _ value => .list [.atom (text "literal"), .atom value.literal]
  | .unary op right => .list [.atom (text "unary"), .atom op.lexeme, right.sexp]
  | .reference token => .list [.atom (text "var"), .atom token.lexeme]
  | .call callee _ args => .list (.atom (text "call") :: callee.sexp :: Expr.sexpAll args)

def Expr.sexpAll : List Expr → List Sexp
  | [] => []
  | e :: es => e.sexp :: Expr.sexpAll es

end

mutual

def Stmt.sexp : Stmt → Sexp
  | .block _ body => .list (.atom (text "block") :: Stmt.sexpAll body)
  | .expression value => .list [.atom (text "expr"), value.sexp]
  | .conditional _ condition thenBranch none =>
    .list [.atom (text "if"), condition.sexp, thenBranch.sexp]
  | .conditional _ condition thenBranch (some elseBranch) =>
    .list [.atom (text "if"), condition.sexp, thenBranch.sexp, elseBranch.sexp]
  | .print _ value => .list [.atom (text "print"), value.sexp]
  | .define name initial =>
    .list (.atom (text "def") :: .atom name.lexeme :: (initial.map Expr.sexp).toList)
  | .loop _ condition body => .list [.atom (text "while"), condition.sexp, body.sexp]
  | .function name params body =>
    .list (.atom (text "function") :: .atom name.lexeme ::
      .list (params.map fun t => .atom t.lexeme) :: Stmt.sexpAll body)
  | .leave keyword value => .list (.atom keyword.lexeme :: (value.map Expr.sexp).toList)

def Stmt.sexpAll : List Stmt → List Sexp
  | [] => []
  | s :: ss => s.sexp :: Stmt.sexpAll ss

end

@[simp]
theorem Expr.sexpAll_eq_map (es : List Expr) : Expr.sexpAll es = es.map Expr.sexp := by
  induction es with
  | nil => rfl
  | cons e es ih => rw [Expr.sexpAll, ih, List.map_cons]

@[simp]
theorem Stmt.sexpAll_eq_map (ss : List Stmt) : Stmt.sexpAll ss = ss.map Stmt.sexp := by
  induction ss with
  | nil => rfl
  | cons s ss ih => rw [Stmt.sexpAll, ih, List.map_cons]

namespace Node

def sexp : Node → Sexp
  | .expr e => e.sexp
  | .stmt s => s.sexp

/-- What the node itself shows can be told from all else. -/
def IsLegible : Node → Prop
  | .expr (.assign name _) | .expr (.reference name) | .stmt (.define name _) => IsWord name.lexeme
  | .expr (.binary _ op _) | .expr (.logical _ op _) | .expr (.unary op _) => IsWord op.lexeme
  | .expr (.literal _ value) => value.IsRead
  | .stmt (.function name params _) => IsWord name.lexeme ∧ ∀ p ∈ params, IsWord p.lexeme
  | .stmt (.leave keyword _) => keyword.lexeme = text "return" ∨ keyword.lexeme = text "break"
  | .expr (.grouping _) | .expr (.call ..) | .stmt _ => True

/-- The function tells two nodes apart if and only if they show different things or it tells their
children apart. -/
def Shows {α : Type} (f : Node → α) : Prop :=
  ∀ n n' : Node, n.IsLegible → n'.IsLegible →
    (f n = f n' ↔ n.label = n'.label ∧ n.children.map f = n'.children.map f)

/-- Any two such functions make the same distinctions between trees. -/
theorem Shows.eq_iff_eq {α β : Type} {f : Node → α} {g : Node → β} (hf : Shows f) (hg : Shows g)
    {n n' : Node} (hn : n.Everywhere IsLegible) (hn' : n'.Everywhere IsLegible) :
    f n = f n' ↔ g n = g n' := by
  induction n using child_induction generalizing n' with
  | h n ih =>
    obtain ⟨hroot, hc⟩ := everywhere_iff.mp hn
    obtain ⟨hroot', hc'⟩ := everywhere_iff.mp hn'
    have hchildren : n.children.map f = n'.children.map f ↔ n.children.map g = n'.children.map g :=
      map_eq_map_iff fun child hm child' hm' => ih child hm (hc child hm) (hc' child' hm')
    rw [hf n n' hroot hroot', hg n n' hroot hroot', hchildren]

theorem shown_shows : Shows shown := by
  intro n n' _ _
  rw [shown_eq n, shown_eq n', Shown.node.injEq]

/-! ### Nodes of one form -/

inductive SameForm : Node → Node → Prop where
  | assign {name value name' value'} :
      SameForm (.expr (.assign name value)) (.expr (.assign name' value'))
  | binary {left op right left' op' right'} :
      SameForm (.expr (.binary left op right)) (.expr (.binary left' op' right'))
  | logical {left op right left' op' right'} :
      SameForm (.expr (.logical left op right)) (.expr (.logical left' op' right'))
  | grouping {inner inner'} : SameForm (.expr (.grouping inner)) (.expr (.grouping inner'))
  | literal {token value token' value'} :
      SameForm (.expr (.literal token value)) (.expr (.literal token' value'))
  | unary {op right op' right'} : SameForm (.expr (.unary op right)) (.expr (.unary op' right'))
  | reference {token token'} : SameForm (.expr (.reference token)) (.expr (.reference token'))
  | call {callee paren args callee' paren' args'} :
      SameForm (.expr (.call callee paren args)) (.expr (.call callee' paren' args'))
  | block {brace body brace' body'} :
      SameForm (.stmt (.block brace body)) (.stmt (.block brace' body'))
  | expression {value value'} :
      SameForm (.stmt (.expression value)) (.stmt (.expression value'))
  | conditional {keyword condition thenBranch elseBranch keyword' condition' thenBranch'
      elseBranch'} : SameForm (.stmt (.conditional keyword condition thenBranch elseBranch))
        (.stmt (.conditional keyword' condition' thenBranch' elseBranch'))
  | print {keyword value keyword' value'} :
      SameForm (.stmt (.print keyword value)) (.stmt (.print keyword' value'))
  | define {name initial name' initial'} :
      SameForm (.stmt (.define name initial)) (.stmt (.define name' initial'))
  | loop {keyword condition body keyword' condition' body'} :
      SameForm (.stmt (.loop keyword condition body)) (.stmt (.loop keyword' condition' body'))
  | function {name params body name' params' body'} :
      SameForm (.stmt (.function name params body)) (.stmt (.function name' params' body'))
  | leave {keyword value keyword' value'} :
      SameForm (.stmt (.leave keyword value)) (.stmt (.leave keyword' value'))

def Label.form : Label → Nat
  | .expr l => l.ctorIdx
  | .stmt l => 8 + l.ctorIdx

theorem sameForm_of_form_eq {n n' : Node} (h : n.label.form = n'.label.form) : n.SameForm n' := by
  rcases n with e | s <;> rcases n' with e' | s'
  · cases e <;> cases e' <;> first | constructor | cases h
  · cases e <;> cases s' <;> cases h
  · cases s <;> cases e' <;> cases h
  · cases s <;> cases s' <;> first | constructor | cases h

/-- Of a function that tells the forms of nodes apart, only nodes of one form are of interest. -/
theorem shows_of_sameForm {α : Type} {f : Node → α} {form : α → Nat}
    (hform : ∀ n : Node, n.IsLegible → form (f n) = n.label.form)
    (hf : ∀ n n' : Node, n.SameForm n' → n.IsLegible → n'.IsLegible →
      (f n = f n' ↔ n.label = n'.label ∧ n.children.map f = n'.children.map f)) : Shows f := by
  intro n n' hn hn'
  by_cases h : n.label.form = n'.label.form
  · exact hf n n' (sameForm_of_form_eq h) hn hn'
  · refine iff_of_false (fun heq => h ?_) (fun heq => h (congrArg Label.form heq.1))
    rw [← hform n hn, ← hform n' hn', heq]

def place (table : List (List String)) (word : Bytes) : Nat :=
  table.findIdx fun names => names.any fun name => text name == word

end Node

/-! ### Outlines show it all -/

namespace Node

def kinds : List (List String) :=
  [["assign"], ["binary"], ["logical"], ["grouping"], ["literal"], ["unary"], ["variable"],
    ["call"], ["block"], ["expression"], ["if"], ["print"], ["var"], ["while"], ["function"],
    ["return", "break"]]

def formOfOutline (o : Outline) : Nat :=
  match o.get? .kind with
  | some (.text kind) => place kinds kind
  | _ => kinds.length

open Outline (kindOf lineOf nameOf opOf)

theorem formOfOutline_eq (n : Node) (h : n.IsLegible) :
    formOfOutline n.outline.withoutLines = n.label.form := by
  rcases n with e | s
  · cases e <;> rfl
  · cases s with
    | conditional _ _ _ o => cases o <;> rfl
    | define _ o => cases o <;> rfl
    | leave keyword o =>
      -- The keyword itself is the kind, so that the form is known only if it is one of the two.
      have hget : formOfOutline (Stmt.leave keyword o).outline.withoutLines =
          place kinds keyword.lexeme := by cases o <;> rfl
      change formOfOutline (Stmt.leave keyword o).outline.withoutLines = 15
      rcases h with h | h <;> rw [hget, h] <;> rfl
    | _ => rfl

/-- The outline without lines shows no more and no less. -/
theorem outline_shows : Shows fun n => n.outline.withoutLines := by
  refine shows_of_sameForm formOfOutline_eq fun n n' h hn hn' => ?_
  have htexts (params params' : List Token) :
      (params.map fun t => Outline.text t.lexeme) = (params'.map fun t => Outline.text t.lexeme) ↔
        params.map Token.lexeme = params'.map Token.lexeme :=
    map_eq_map_iff (by simp)
  cases h with
  | @conditional _ _ _ o _ _ _ o' =>
    cases o <;> cases o' <;>
      simp [outline, Stmt.outline, label, Stmt.label, children, kindOf, lineOf, and_comm]
  | @define _ o _ o' | @leave _ o _ o' =>
    cases o <;> cases o' <;>
      simp [outline, Stmt.outline, label, Stmt.label, children, kindOf, lineOf, nameOf, and_comm]
  | block | expression | print | loop =>
    simp [outline, Stmt.outline, label, Stmt.label, children, kindOf, lineOf, and_comm,
      Function.comp_def]
  | function =>
    simp [outline, Stmt.outline, label, Stmt.label, children, kindOf, lineOf, nameOf, htexts,
      Function.comp_def, and_comm]
  | binary | logical =>
    simp [outline, Expr.outline, label, Expr.label, children, Expr.children, kindOf, lineOf, opOf,
      and_left_comm]
  | assign | grouping | literal | unary | reference | call =>
    simp [outline, Expr.outline, label, Expr.label, children, Expr.children, kindOf, lineOf, nameOf,
      opOf, and_comm, Function.comp_def]

/-! ### Texts show it all -/

/-- The words that the texts of the forms begin with. -/
def heads : List (List String) :=
  [["assign"], ["binary"], ["logical"], ["grouping"], ["literal"], ["unary"], ["var"], ["call"],
    ["block"], ["expr"], ["if"], ["print"], ["def"], ["while"], ["function"], ["return", "break"]]

def formOfSexp : Sexp → Nat
  | .list (.atom head :: _) => place heads head
  | _ => heads.length

theorem formOfSexp_eq (n : Node) (h : n.IsLegible) : formOfSexp n.sexp = n.label.form := by
  rcases n with e | s
  · cases e <;> rfl
  · cases s with
    | conditional _ _ _ o => cases o <;> rfl
    | leave keyword o =>
      change place heads keyword.lexeme = 15
      rcases h with h | h <;> rw [h] <;> rfl
    | _ => rfl

theorem sexp_shows : Shows sexp := by
  refine shows_of_sameForm formOfSexp_eq fun n n' h hn hn' => ?_
  have hparams (params params' : List Token) :
      (params.map fun t => Sexp.atom t.lexeme) = (params'.map fun t => Sexp.atom t.lexeme) ↔
        params.map Token.lexeme = params'.map Token.lexeme :=
    map_eq_map_iff (by simp)
  cases h with
  | @literal _ v _ v' =>
    have hv : v.literal = v'.literal ↔ v = v' := Value.literal_inj hn hn'
    simp [sexp, Expr.sexp, label, Expr.label, children, Expr.children, hv]
  | @conditional _ _ _ o _ _ _ o' =>
    cases o <;> cases o' <;> simp [sexp, Stmt.sexp, label, Stmt.label, children]
  | @define _ o _ o' | @leave _ o _ o' =>
    cases o <;> cases o' <;> simp [sexp, Stmt.sexp, label, Stmt.label, children]
  | block | expression | print | loop =>
    simp [sexp, Stmt.sexp, label, Stmt.label, children, Function.comp_def]
  | function =>
    simp [sexp, Stmt.sexp, label, Stmt.label, children, hparams, Function.comp_def, and_assoc]
  | binary | logical =>
    simp [sexp, Expr.sexp, label, Expr.label, children, Expr.children, and_left_comm]
  | assign | grouping | unary | reference | call =>
    simp [sexp, Expr.sexp, label, Expr.label, children, Expr.children, Function.comp_def]

end Node

end ScriptFront
