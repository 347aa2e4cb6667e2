import ScriptFront.Parse.Statement

/-! # Parsers defined through themselves

Every parser leaves an end of the list it was given. The parsers that are defined through
themselves read a token before they ask for themselves, so that they satisfy the equations that
define them, however long the list is:

* `expression_eq`: an expression is an assignment whose parts are expressions
* `statement_eq`: the statements inside a statement are statements
* `declaration_eq`: the declarations inside a declaration recover by themselves
-/

namespace ScriptFront

open Parse

namespace Parse.Reply

variable {α : Type}

@[simp]
theorem rest_after (earlier : List Report) (r : Reply α) : (r.after earlier).rest = r.rest := by
  cases r <;> rfl

end Parse.Reply

namespace Parser

variable {α β : Type} {n : Nat}

theorem bind_of_done {p : Parser α} {f : α → Parser β} {ts rest : List Token} {a : α}
    {reports : List Report} (h : p ts = .done a reports rest) :
    (p >>= f) ts = (f a rest).after reports := by
  change Parser.bind p f ts = _
  rw [Parser.bind, h]

theorem bind_of_failed {p : Parser α} {f : α → Parser β} {ts rest : List Token}
    {missing : Expectation} {reports : List Report} (h : p ts = .failed missing reports rest) :
    (p >>= f) ts = .failed missing reports rest := by
  change Parser.bind p f ts = _
  rw [Parser.bind, h]

/-- On lists shorter than `n`, both parsers reply the same and leave an end of the list. -/
def Agree (n : Nat) (p q : Parser α) : Prop :=
  ∀ ts, ts.length < n → p ts = q ts ∧ (p ts).rest <:+ ts

/-- Two ways to go on after a token agree, or there is none. -/
inductive Choices (n : Nat) : Option (Parser α) → Option (Parser α) → Prop where
  | none : Choices n none none
  | some {p q : Parser α} (h : Agree n p q) : Choices n (some p) (some q)

/-- What is left is an end of the list. -/
def Within (p : Parser α) : Prop := ∀ ts, (p ts).rest <:+ ts

/-- A definition of a parser through itself that reads a token before it asks for itself. -/
def Guarded (body : Parser α → Parser α) : Prop :=
  ∀ n p q, Agree n p q → Agree (n + 1) (body p) (body q)

theorem Within.agree {p : Parser α} (h : Within p) (n : Nat) : Agree n p p :=
  fun ts _ => ⟨rfl, h ts⟩

theorem Within.of_agree {p : Parser α} (h : ∀ n, Agree n p p) : Within p :=
  fun ts => (h (ts.length + 1) ts (Nat.lt_succ_self _)).2

namespace Agree

theorem mono {m : Nat} {p q : Parser α} (h : m ≤ n) (hp : Agree n p q) : Agree m p q :=
  fun ts ht => hp ts (Nat.lt_of_lt_of_le ht h)

theorem succ {p q : Parser α} (hp : Agree (n + 1) p q) : Agree n p q := hp.mono (Nat.le_succ n)

theorem pure (a : α) : Agree n (Pure.pure a : Parser α) (Pure.pure a) :=
  fun ts _ => ⟨rfl, List.suffix_refl ts⟩

theorem fail (missing : Expectation) : Agree n (Parser.fail missing : Parser α) (.fail missing) :=
  fun ts _ => ⟨rfl, List.suffix_refl ts⟩

theorem report (site : Option Token) (problem : Problem) :
    Agree n (Parser.report site problem) (.report site problem) :=
  fun ts _ => ⟨rfl, List.suffix_refl ts⟩

theorem peek : Agree n Parser.peek .peek := fun ts _ => ⟨rfl, List.suffix_refl ts⟩

theorem nextIs (kind : Kind) : Agree n (Parser.nextIs kind) (.nextIs kind) :=
  fun ts _ => ⟨rfl, List.suffix_refl ts⟩

theorem accept (wanted : Kind → Bool) : Agree n (Parser.accept wanted) (.accept wanted) := by
  intro ts _
  refine ⟨rfl, ?_⟩
  cases ts with
  | nil => exact List.suffix_refl []
  | cons t rest =>
    rw [Parser.accept]
    split
    · exact List.suffix_cons t rest
    · exact List.suffix_refl _

theorem expect (kind : Kind) (missing : Expectation) :
    Agree n (Parser.expect kind missing) (.expect kind missing) := by
  intro ts _
  refine ⟨rfl, ?_⟩
  cases ts with
  | nil => exact List.suffix_refl []
  | cons t rest =>
    rw [Parser.expect]
    split
    · exact List.suffix_cons t rest
    · exact List.suffix_refl _

theorem bind {p q : Parser α} {f g : α → Parser β} (hp : Agree n p q)
    (hf : ∀ a, Agree n (f a) (g a)) : Agree n (p >>= f) (q >>= g) := by
  intro ts ht
  obtain ⟨e, s⟩ := hp ts ht
  cases hr : p ts with
  | done a reports rest =>
    rw [hr] at e s
    obtain ⟨e', s'⟩ := hf a rest (Nat.lt_of_le_of_lt s.length_le ht)
    rw [bind_of_done hr, bind_of_done e.symm, e', Reply.rest_after, ← e']
    exact ⟨rfl, s'.trans s⟩
  | failed missing reports rest =>
    rw [hr] at e s
    rw [bind_of_failed hr, bind_of_failed e.symm]
    exact ⟨rfl, s⟩

theorem map {p q : Parser α} (f : α → β) (hp : Agree n p q) : Agree n (f <$> p) (f <$> q) :=
  hp.bind fun a => pure (f a)

theorem accept_bind {wanted : Kind → Bool} {f g : Option Token → Parser β}
    (hnone : Agree (n + 1) (f none) (g none))
    (hsome : ∀ t, Agree n (f (some t)) (g (some t))) :
    Agree (n + 1) (Parser.accept wanted >>= f) (Parser.accept wanted >>= g) := by
  intro ts ht
  have hread (t : Option Token) (rest : List Token) (h : Parser.accept wanted ts = .done t [] rest)
      (hl : rest <:+ ts) (ha : f t rest = g t rest ∧ (f t rest).rest <:+ rest) :
      (Parser.accept wanted >>= f) ts = (Parser.accept wanted >>= g) ts ∧
        ((Parser.accept wanted >>= f) ts).rest <:+ ts := by
    rw [bind_of_done h, bind_of_done h, Reply.rest_after, ← ha.1]
    exact ⟨rfl, ha.2.trans hl⟩
  cases ts with
  | nil => exact hread none [] rfl (List.suffix_refl []) (hnone [] ht)
  | cons t rest =>
    by_cases hw : wanted t.kind
    · exact hread (some t) rest (by simp [Parser.accept, hw]) (List.suffix_cons t rest)
        (hsome t rest (Nat.lt_of_succ_lt_succ ht))
    · exact hread none (t :: rest) (by simp [Parser.accept, hw]) (List.suffix_refl _)
        (hnone (t :: rest) ht)

theorem dispatch {choose choose' : Token → Option (Parser α)} {p q : Parser α}
    (hc : ∀ t, Choices n (choose t) (choose' t)) (hp : Agree (n + 1) p q) :
    Agree (n + 1) (Parser.dispatch choose p) (Parser.dispatch choose' q) := by
  intro ts ht
  cases ts with
  | nil => exact hp [] ht
  | cons t rest =>
    have h := hc t
    rw [Parser.dispatch, Parser.dispatch]
    generalize choose t = c at h
    generalize choose' t = d at h
    cases h with
    | none => exact hp (t :: rest) ht
    | some h =>
      obtain ⟨e, s⟩ := h rest (Nat.lt_of_succ_lt_succ ht)
      exact ⟨e, s.trans (List.suffix_cons t rest)⟩

theorem iterate {step step' : α → Parser (Option α)} (hs : ∀ a, Agree n (step a) (step' a))
    (k : Nat) (a : α) : Agree n (Parser.iterate step k a) (Parser.iterate step' k a) := by
  induction k generalizing a with
  | zero => exact pure a
  | succ k ih =>
    refine (hs a).bind fun b => ?_
    cases b with
    | none => exact pure a
    | some b => exact ih b

theorem repeatFrom {step step' : α → Parser (Option α)} (hs : ∀ a, Agree n (step a) (step' a))
    (a : α) : Agree n (Parser.repeatFrom step a) (Parser.repeatFrom step' a) :=
  fun ts ht => iterate hs ts.length a ts ht

theorem approximate {body body' : Parser α → Parser α}
    (hb : ∀ p q, Agree n p q → Agree n (body p) (body' q)) (k : Nat) :
    Agree n (Parser.approximate body k) (Parser.approximate body' k) := by
  induction k with
  | zero => exact fail _
  | succ k ih => exact hb _ _ ih

theorem fixed {body body' : Parser α → Parser α}
    (hb : ∀ p q, Agree n p q → Agree n (body p) (body' q)) :
    Agree n (Parser.fixed body) (Parser.fixed body') :=
  fun ts ht => approximate hb (ts.length + 1) ts ht

end Agree

namespace Guarded

variable {body : Parser α → Parser α}

theorem approximate (h : Guarded body) {k m : Nat} (hk : k ≤ m) :
    Agree k (Parser.approximate body k) (Parser.approximate body m) := by
  induction k generalizing m with
  | zero => exact fun ts ht => absurd ht (Nat.not_lt_zero _)
  | succ k ih =>
    cases m with
    | zero => exact absurd hk (Nat.not_succ_le_zero k)
    | succ m => exact h k _ _ (ih (Nat.le_of_succ_le_succ hk))

theorem within (h : Guarded body) : Within (Parser.fixed body) :=
  fun ts => (h.approximate (Nat.le_refl (ts.length + 1)) ts (Nat.lt_succ_self _)).2

theorem fixed_agree (h : Guarded body) (k : Nat) :
    Agree k (Parser.fixed body) (Parser.approximate body k) :=
  fun ts ht => ⟨(h.approximate ht ts (Nat.lt_succ_self _)).1, h.within ts⟩

/-- A parser defined through itself satisfies its definition. -/
theorem fixed_eq (h : Guarded body) : Parser.fixed body = body (Parser.fixed body) := by
  funext ts
  exact (h ts.length _ _ (h.fixed_agree ts.length) ts (Nat.lt_succ_self _)).1.symm

end Guarded

end Parser

namespace Parse

open ScriptFront.Parser

/-! ### Expressions -/

section Expressions

variable {n : Nat} {p q : Parser Expr}

theorem grouping_agree (h : Agree n p q) : Agree n (grouping p) (grouping q) :=
  h.bind fun _ => (Agree.expect _ _).bind fun _ => .pure _

theorem primaryAfter_agree (h : Agree n p q) (t : Token) :
    Choices n (primaryAfter p t) (primaryAfter q t) := by
  unfold primaryAfter
  split
  · exact .some (grouping_agree h)
  · cases literal? t with
    | none => exact .none
    | some e => exact .some (.pure e)

theorem primary_agree (h : Agree n p q) : Agree (n + 1) (primary p) (primary q) :=
  .dispatch (primaryAfter_agree h) (.fail _)

theorem limitArguments_agree (count : Nat) :
    Agree n (limitArguments count) (limitArguments count) := by
  unfold limitArguments
  split
  · exact Agree.peek.bind fun _ => .report _ _
  · exact .pure _

theorem argument_agree (h : Agree n p q) (count : Nat) :
    Agree n (argument p count) (argument q count) :=
  (limitArguments_agree count).bind fun _ => h

theorem moreArguments_agree (h : Agree n p q) (args : List Expr) :
    Agree n (moreArguments p args) (moreArguments q args) := by
  refine (Agree.accept _).bind fun t => ?_
  cases t with
  | none => exact .pure _
  | some t => exact (argument_agree h _).bind fun _ => .pure _

theorem arguments_agree (h : Agree n p q) : Agree n (arguments p) (arguments q) := by
  refine (Agree.nextIs _).bind fun b => ?_
  cases b with
  | true => exact .pure _
  | false => exact (argument_agree h 0).bind fun _ => .repeatFrom (moreArguments_agree h) _

theorem moreCalls_agree (h : Agree n p q) (callee : Expr) :
    Agree (n + 1) (moreCalls p callee) (moreCalls q callee) :=
  .accept_bind (.pure _) fun _ =>
    (arguments_agree h).bind fun _ => (Agree.expect _ _).bind fun _ => .pure _

theorem call_agree (h : Agree n p q) : Agree (n + 1) (call p) (call q) :=
  (primary_agree h).bind fun _ => .repeatFrom (moreCalls_agree h) _

theorem unaryAfter_agree (h : Agree n p q) (t : Token) :
    Choices n (unaryAfter p t) (unaryAfter q t) := by
  unfold unaryAfter
  split
  · exact .some (h.map _)
  · exact .none

theorem unary_agree (h : Agree n p q) : Agree (n + 1) (unary p) (unary q) :=
  .fixed fun _ _ hr => .dispatch (unaryAfter_agree hr.succ) (call_agree h)

theorem moreOperands_agree {isOperator : Kind → Bool} {build : Expr → Token → Expr → Expr}
    (h : Agree n p q) (left : Expr) :
    Agree n (moreOperands isOperator build p left) (moreOperands isOperator build q left) := by
  refine (Agree.accept _).bind fun t => ?_
  cases t with
  | none => exact .pure _
  | some t => exact h.bind fun _ => .pure _

theorem chain_agree {isOperator : Kind → Bool} {build : Expr → Token → Expr → Expr}
    (h : Agree n p q) : Agree n (chain isOperator build p) (chain isOperator build q) :=
  h.bind fun _ => .repeatFrom (moreOperands_agree h) _

theorem term_agree (h : Agree n p q) : Agree (n + 1) (term p) (term q) :=
  chain_agree (chain_agree (unary_agree h))

theorem logicOr_agree (h : Agree n p q) : Agree (n + 1) (logicOr p) (logicOr q) :=
  chain_agree (chain_agree (chain_agree (chain_agree (term_agree h))))

theorem assigned_agree (target : Expr) (op : Token) (value : Expr) :
    Agree n (assigned target op value) (assigned target op value) := by
  cases target with
  | reference t => exact .pure _
  | _ => exact (Agree.report _ _).bind fun _ => .pure _

theorem rightSide_agree (h : Agree n p q) (op : Token) :
    Agree n (rightSide p op) (rightSide q op) := by
  unfold rightSide
  split
  · exact h
  · exact (term_agree h).succ

theorem guarded_assignment : Guarded assignment :=
  fun _ _ _ h => (logicOr_agree h).bind fun target =>
    .accept_bind (.pure target) fun op =>
      (rightSide_agree h op).bind fun value => assigned_agree target op value

theorem expression_eq : expression = assignment expression := guarded_assignment.fixed_eq

theorem expression_within : Within expression := guarded_assignment.within

theorem unary_eq (h : Within p) : unary p = dispatch (unaryAfter (unary p)) (call p) :=
  Guarded.fixed_eq fun n _ _ hr => .dispatch (unaryAfter_agree hr) (call_agree (h.agree n))

end Expressions

/-! ### Statements -/

section Statements

variable {n : Nat} {p q : Parser Stmt} {d e : Parser (Option Stmt)}

theorem expression_agree (n : Nat) : Agree n expression expression := expression_within.agree n

theorem expressionStatement_agree : Agree n expressionStatement expressionStatement :=
  (expression_agree n).bind fun _ => (Agree.expect _ _).bind fun _ => .pure _

theorem initialValue_agree : Agree n initialValue initialValue := by
  refine (Agree.accept _).bind fun t => ?_
  cases t with
  | none => exact .pure _
  | some t => exact (expression_agree n).map _

theorem variableDeclaration_agree : Agree n variableDeclaration variableDeclaration :=
  (Agree.expect _ _).bind fun _ => initialValue_agree.bind fun _ =>
    (Agree.expect _ _).bind fun _ => .pure _

theorem printStatement_agree (t : Token) : Agree n (printStatement t) (printStatement t) :=
  (expression_agree n).bind fun _ => (Agree.expect _ _).bind fun _ => .pure _

theorem breakStatement_agree (t : Token) : Agree n (breakStatement t) (breakStatement t) :=
  (Agree.expect _ _).bind fun _ => .pure _

theorem expressionUnless_agree (stop : Kind) :
    Agree n (expressionUnless stop) (expressionUnless stop) := by
  refine (Agree.nextIs _).bind fun b => ?_
  cases b with
  | true => exact .pure _
  | false => exact (expression_agree n).map _

theorem returnStatement_agree (t : Token) : Agree n (returnStatement t) (returnStatement t) :=
  (expressionUnless_agree _).bind fun _ => (Agree.expect _ _).bind fun _ => .pure _

theorem whileStatement_agree (h : Agree n p q) (t : Token) :
    Agree n (whileStatement p t) (whileStatement q t) :=
  (Agree.expect _ _).bind fun _ => (expression_agree n).bind fun _ =>
    (Agree.expect _ _).bind fun _ => h.bind fun _ => .pure _

theorem alternative_agree (h : Agree n p q) : Agree n (alternative p) (alternative q) := by
  refine (Agree.accept _).bind fun t => ?_
  cases t with
  | none => exact .pure _
  | some t => exact h.map _

theorem ifStatement_agree (h : Agree n p q) (t : Token) :
    Agree n (ifStatement p t) (ifStatement q t) :=
  (Agree.expect _ _).bind fun _ => (expression_agree n).bind fun _ =>
    (Agree.expect _ _).bind fun _ => h.bind fun _ => (alternative_agree h).bind fun _ => .pure _

theorem initializer_agree : Agree n initializer initializer := by
  refine Agree.succ (Agree.dispatch (fun t => ?_) (expressionStatement_agree.map _))
  unfold initializerAfter
  split
  · exact .some (.pure _)
  · exact .some (variableDeclaration_agree.map _)
  · exact .none

theorem forStatement_agree (h : Agree n p q) (t : Token) :
    Agree n (forStatement p t) (forStatement q t) :=
  (Agree.expect _ _).bind fun _ => initializer_agree.bind fun _ =>
    (expressionUnless_agree _).bind fun _ => (Agree.expect _ _).bind fun _ =>
    (expressionUnless_agree _).bind fun _ => (Agree.expect _ _).bind fun _ =>
    h.bind fun _ => .pure _

theorem nextParameter_agree (params : List Token) :
    Agree n (nextParameter params) (nextParameter params) := by
  refine (Agree.nextIs _).bind fun b => ?_
  cases b with
  | true => exact .pure _
  | false =>
    refine (Agree.expect _ _).bind fun param => ?_
    split
    · exact (Agree.report _ _).bind fun _ => .pure _
    · exact .pure _

theorem moreParameters_agree (params : List Token) :
    Agree n (moreParameters params) (moreParameters params) := by
  refine (Agree.accept _).bind fun t => ?_
  cases t with
  | none => exact .pure _
  | some t => exact nextParameter_agree params

theorem parameters_agree : Agree n parameters parameters :=
  (Agree.accept _).bind fun _ => .repeatFrom moreParameters_agree _

theorem moreDeclarations_agree {isEnd : Option Kind → Bool} (h : Agree n d e) (body : List Stmt) :
    Agree n (moreDeclarations isEnd d body) (moreDeclarations isEnd e body) := by
  refine Agree.peek.bind fun t => ?_
  split
  · exact .pure _
  · exact h.bind fun _ => .pure _

theorem declarations_agree {isEnd : Option Kind → Bool} (h : Agree n d e) :
    Agree n (declarations isEnd d) (declarations isEnd e) :=
  .repeatFrom (moreDeclarations_agree h) []

theorem blockOf_agree (h : Agree n d e) : Agree n (blockOf d) (blockOf e) :=
  (declarations_agree h).bind fun _ => (Agree.expect _ _).bind fun _ => .pure _

theorem functionDeclaration_agree (h : Agree n d e) :
    Agree n (functionDeclaration d) (functionDeclaration e) :=
  (Agree.expect _ _).bind fun _ => (Agree.expect _ _).bind fun _ =>
    parameters_agree.bind fun _ => (Agree.expect _ _).bind fun _ =>
    (Agree.expect _ _).bind fun _ => (blockOf_agree h).bind fun _ => .pure _

theorem declarationAfter_agree (h : Agree n d e) (t : Token) :
    Choices n (declarationAfter d t) (declarationAfter e t) := by
  unfold declarationAfter
  split
  · exact .some (functionDeclaration_agree h)
  · exact .some variableDeclaration_agree
  · exact .none

theorem declarationBody_agree (hp : Agree (n + 1) p q) (hd : Agree n d e) :
    Agree (n + 1) (declarationBody p d) (declarationBody q e) :=
  .dispatch (declarationAfter_agree hd) hp

theorem recovering_agree (h : Agree n p q) : Agree n (recovering p) (recovering q) := by
  intro ts ht
  obtain ⟨e, s⟩ := h ts ht
  unfold recovering
  rw [← e]
  cases hr : p ts with
  | done a reports rest =>
    rw [hr] at s
    exact ⟨rfl, s⟩
  | failed missing reports rest =>
    rw [hr] at s
    exact ⟨rfl, (resume_isSuffix rest).trans s⟩

theorem guarded_declaration (h : Within p) :
    Guarded fun d => recovering (declarationBody p d) :=
  fun n _ _ hd => recovering_agree (declarationBody_agree (h.agree (n + 1)) hd)

theorem declarationOf_agree (h : Agree (n + 1) p q) :
    Agree (n + 1) (declarationOf p) (declarationOf q) :=
  .fixed fun _ _ hd => recovering_agree (declarationBody_agree h hd.succ)

theorem statementAfter_agree (h : Agree n p q) (t : Token) :
    Choices n (statementAfter p t) (statementAfter q t) := by
  unfold statementAfter
  split
  · exact .some (forStatement_agree h t)
  · exact .some (ifStatement_agree h t)
  · exact .some (printStatement_agree t)
  · exact .some (breakStatement_agree t)
  · exact .some (returnStatement_agree t)
  · exact .some (whileStatement_agree h t)
  · refine .some (Agree.map _ (blockOf_agree ?_))
    cases n with
    | zero => exact fun ts ht => absurd ht (Nat.not_lt_zero _)
    | succ n => exact declarationOf_agree h
  · exact .none

theorem guarded_statement : Guarded statementBody :=
  fun _ _ _ h => .dispatch (statementAfter_agree h) expressionStatement_agree

/-- The statements inside a statement are statements. -/
theorem statement_eq : statement = statementBody statement := guarded_statement.fixed_eq

theorem statement_within : Within statement := guarded_statement.within

/-- A declaration recovers from what its body misses, and the declarations inside it do so
themselves. -/
theorem declaration_eq : declaration = recovering (declarationBody statement declaration) :=
  (guarded_declaration statement_within).fixed_eq

theorem declaration_within : Within declaration := (guarded_declaration statement_within).within

end Statements

end Parse

end ScriptFront
