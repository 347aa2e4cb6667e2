import Mathlib.Data.List.Forall2
import ScriptFront.Proofs.Parse.Success

/-! # Corresponding runs

Two lists of tokens correspond if their tokens do, one by one, and tokens that correspond are of
the same kind. Two trees correspond if they are built alike from tokens that correspond. On lists
that correspond, parsers put together in the same way make replies that correspond.
-/

namespace ScriptFront

open Parse

variable {R : Token → Token → Prop}

/-- Literals correspond if they have the same value, or each the value of its own token. -/
def LiteralAlike (t u : Token) (v w : Value) : Prop :=
  if t.kind = .number ∨ t.kind = .string then v = t.literal ∧ w = u.literal else v = w

inductive Expr.Alike (R : Token → Token → Prop) : Expr → Expr → Prop where
  | assign {name name' : Token} {value value' : Expr} (hn : R name name')
      (hv : Alike R value value') : Alike R (.assign name value) (.assign name' value')
  | binary {left left' right right' : Expr} {op op' : Token} (hl : Alike R left left')
      (ho : R op op') (hr : Alike R right right') :
      Alike R (.binary left op right) (.binary left' op' right')
  | logical {left left' right right' : Expr} {op op' : Token} (hl : Alike R left left')
      (ho : R op op') (hr : Alike R right right') :
      Alike R (.logical left op right) (.logical left' op' right')
  | grouping {inner inner' : Expr} (hi : Alike R inner inner') :
      Alike R (.grouping inner) (.grouping inner')
  | literal {t t' : Token} {v v' : Value} (ht : R t t') (hv : LiteralAlike t t' v v') :
      Alike R (.literal t v) (.literal t' v')
  | unary {op op' : Token} {right right' : Expr} (ho : R op op') (hr : Alike R right right') :
      Alike R (.unary op right) (.unary op' right')
  | reference {t t' : Token} (ht : R t t') : Alike R (.reference t) (.reference t')
  | call {callee callee' : Expr} {paren paren' : Token} {args args' : List Expr}
      (hc : Alike R callee callee') (hp : R paren paren')
      (ha : List.Forall₂ (Alike R) args args') :
      Alike R (.call callee paren args) (.call callee' paren' args')

inductive Stmt.Alike (R : Token → Token → Prop) : Stmt → Stmt → Prop where
  | block {brace brace' : Token} {body body' : List Stmt} (hk : R brace brace')
      (hb : List.Forall₂ (Alike R) body body') : Alike R (.block brace body) (.block brace' body')
  | expression {e e' : Expr} (he : e.Alike R e') : Alike R (.expression e) (.expression e')
  | conditional {keyword keyword' : Token} {condition condition' : Expr}
      {thenBranch thenBranch' : Stmt} {elseBranch elseBranch' : Option Stmt}
      (hk : R keyword keyword') (hc : condition.Alike R condition')
      (ht : Alike R thenBranch thenBranch') (he : Option.Rel (Alike R) elseBranch elseBranch') :
      Alike R (.conditional keyword condition thenBranch elseBranch)
        (.conditional keyword' condition' thenBranch' elseBranch')
  | print {keyword keyword' : Token} {e e' : Expr} (hk : R keyword keyword')
      (he : e.Alike R e') : Alike R (.print keyword e) (.print keyword' e')
  | define {name name' : Token} {initial initial' : Option Expr} (hn : R name name')
      (hi : Option.Rel (Expr.Alike R) initial initial') :
      Alike R (.define name initial) (.define name' initial')
  | loop {keyword keyword' : Token} {condition condition' : Expr} {body body' : Stmt}
      (hk : R keyword keyword') (hc : condition.Alike R condition') (hb : Alike R body body') :
      Alike R (.loop keyword condition body) (.loop keyword' condition' body')
  | function {name name' : Token} {params params' : List Token} {body body' : List Stmt}
      (hn : R name name') (hp : List.Forall₂ R params params')
      (hb : List.Forall₂ (Alike R) body body') :
      Alike R (.function name params body) (.function name' params' body')
  | leave {keyword keyword' : Token} {value value' : Option Expr} (hk : R keyword keyword')
      (hv : Option.Rel (Expr.Alike R) value value') :
      Alike R (.leave keyword value) (.leave keyword' value')

/-- The same problem, at tokens that correspond or at the end of both inputs. -/
structure Parse.Report.Alike (R : Token → Token → Prop) (r r' : Report) : Prop where
  site : Option.Rel R r.site r'.site
  problem : r.problem = r'.problem

variable {α β γ δ : Type}

inductive Parse.Reply.Alike (R : Token → Token → Prop) (V : α → β → Prop) :
    Reply α → Reply β → Prop where
  | done {a : α} {b : β} {reports reports' : List Report} {rest rest' : List Token}
      (ha : V a b) (hr : List.Forall₂ (Report.Alike R) reports reports')
      (hs : List.Forall₂ R rest rest') : Alike R V (.done a reports rest) (.done b reports' rest')
  | failed {missing : Expectation} {reports reports' : List Report} {rest rest' : List Token}
      (hr : List.Forall₂ (Report.Alike R) reports reports')
      (hs : List.Forall₂ R rest rest') :
      Alike R V (.failed missing reports rest) (.failed missing reports' rest')

/-- Tokens that correspond are of the same kind. -/
def SameKinds (R : Token → Token → Prop) : Prop := ∀ ⦃t u : Token⦄, R t u → t.kind = u.kind

theorem optionRel_head? {ts us : List Token} (h : List.Forall₂ R ts us) :
    Option.Rel R ts.head? us.head? := by
  cases h with
  | nil => exact .none
  | cons ht hs => exact .some ht

theorem SameKinds.map_kind (hR : SameKinds R) {o o' : Option Token} (h : Option.Rel R o o') :
    o.map Token.kind = o'.map Token.kind := by
  cases h with
  | none => rfl
  | some h => exact congrArg some (hR h)

namespace Parser

/-- On lists that correspond, the replies correspond. -/
def Alike (R : Token → Token → Prop) (V : α → β → Prop) (p : Parser α) (q : Parser β) : Prop :=
  ∀ ts us, List.Forall₂ R ts us → Reply.Alike R V (p ts) (q us)

namespace Alike

variable {V : α → β → Prop} {W : γ → δ → Prop} {p : Parser α} {q : Parser β}

theorem pure {a : α} {b : β} (h : V a b) : Alike R V (Pure.pure a) (Pure.pure b) :=
  fun _ _ hs => .done h .nil hs

theorem fail (missing : Expectation) :
    Alike R V (Parser.fail missing : Parser α) (Parser.fail missing : Parser β) :=
  fun _ _ hs => .failed .nil hs

theorem report {site site' : Option Token} (h : Option.Rel R site site') (problem : Problem) :
    Alike R (fun _ _ => True) (Parser.report site problem) (Parser.report site' problem) :=
  fun _ _ hs => .done trivial (.cons ⟨h, rfl⟩ .nil) hs

theorem peek : Alike R (Option.Rel R) Parser.peek Parser.peek :=
  fun _ _ hs => .done (optionRel_head? hs) .nil hs

theorem bind {f : α → Parser γ} {g : β → Parser δ} (hp : Alike R V p q)
    (hf : ∀ a b, V a b → Alike R W (f a) (g b)) : Alike R W (p >>= f) (q >>= g) := by
  intro ts us hs
  have h := hp ts us hs
  generalize hx : p ts = x at h
  generalize hy : q us = y at h
  cases h with
  | failed hr hs =>
    rw [bind_of_failed hx, bind_of_failed hy]
    exact .failed hr hs
  | @done a b reports reports' rest rest' ha hr hs =>
    rw [bind_of_done hx, bind_of_done hy]
    have h' := hf a b ha rest rest' hs
    generalize f a rest = x' at h'
    generalize g b rest' = y' at h'
    cases h' with
    | failed hr' hs' => exact .failed (List.rel_append hr hr') hs'
    | done hb hr' hs' => exact .done hb (List.rel_append hr hr') hs'

theorem map {f : α → γ} {g : β → δ} (hp : Alike R V p q) (hf : ∀ a b, V a b → W (f a) (g b)) :
    Alike R W (f <$> p) (g <$> q) :=
  hp.bind fun a b h => pure (hf a b h)

theorem dispatch {choose : Token → Option (Parser α)} {choose' : Token → Option (Parser β)}
    (hc : ∀ t u, R t u → Option.Rel (Alike R V) (choose t) (choose' u)) (hp : Alike R V p q) :
    Alike R V (Parser.dispatch choose p) (Parser.dispatch choose' q) := by
  intro ts us hs
  cases hs with
  | nil => exact hp [] [] .nil
  | @cons t u ts us ht hs =>
    have h := hc t u ht
    rw [Parser.dispatch, Parser.dispatch]
    generalize choose t = c at h
    generalize choose' u = c' at h
    cases h with
    | none => exact hp (t :: ts) (u :: us) (.cons ht hs)
    | some h => exact h ts us hs

theorem iterate {step : α → Parser (Option α)} {step' : β → Parser (Option β)}
    (hs : ∀ a b, V a b → Alike R (Option.Rel V) (step a) (step' b)) (n : Nat) {a : α} {b : β}
    (h : V a b) : Alike R V (Parser.iterate step n a) (Parser.iterate step' n b) := by
  induction n generalizing a b with
  | zero => exact pure h
  | succ n ih =>
    refine (hs a b h).bind fun o o' ho => ?_
    cases ho with
    | none => exact pure h
    | some ho => exact ih ho

theorem repeatFrom {step : α → Parser (Option α)} {step' : β → Parser (Option β)}
    (hs : ∀ a b, V a b → Alike R (Option.Rel V) (step a) (step' b)) {a : α} {b : β}
    (h : V a b) : Alike R V (Parser.repeatFrom step a) (Parser.repeatFrom step' b) := by
  intro ts us hl
  rw [Parser.repeatFrom, Parser.repeatFrom, hl.length_eq]
  exact iterate hs us.length h ts us hl

theorem fixed {body : Parser α → Parser α} {body' : Parser β → Parser β}
    (hb : ∀ p q, Alike R V p q → Alike R V (body p) (body' q)) :
    Alike R V (Parser.fixed body) (Parser.fixed body') := by
  have ha (n : Nat) : Alike R V (approximate body n) (approximate body' n) := by
    induction n with
    | zero => exact fail _
    | succ n ih => exact hb _ _ ih
  intro ts us hl
  rw [Parser.fixed, Parser.fixed, hl.length_eq]
  exact ha (us.length + 1) ts us hl

/-! ### Where kinds are looked at -/

variable (hR : SameKinds R)

include hR

theorem nextIs (kind : Kind) : Alike R (· = ·) (Parser.nextIs kind) (Parser.nextIs kind) := by
  intro ts us hs
  refine .done ?_ .nil hs
  cases hs with
  | nil => rfl
  | cons ht _ => simp [hR ht]

theorem accept (wanted : Kind → Bool) :
    Alike R (Option.Rel R) (Parser.accept wanted) (Parser.accept wanted) := by
  intro ts us hs
  cases hs with
  | nil => exact .done .none .nil .nil
  | @cons t u ts us ht hs =>
    rw [Parser.accept, Parser.accept, hR ht]
    split
    · exact .done (.some ht) .nil hs
    · exact .done .none .nil (.cons ht hs)

theorem expect (kind : Kind) (missing : Expectation) :
    Alike R R (Parser.expect kind missing) (Parser.expect kind missing) := by
  intro ts us hs
  cases hs with
  | nil => exact .failed .nil .nil
  | @cons t u ts us ht hs =>
    rw [Parser.expect, Parser.expect, hR ht]
    split
    · exact .done ht .nil hs
    · exact .failed .nil (.cons ht hs)

theorem resume {ts us : List Token} (hs : List.Forall₂ R ts us) :
    List.Forall₂ R (Parse.resume ts) (Parse.resume us) := by
  induction hs with
  | nil => exact .nil
  | @cons t u ts us ht hs ih =>
    have hh : ts.head?.any (·.kind.startsDeclaration) = us.head?.any (·.kind.startsDeclaration) := by
      cases hs with
      | nil => rfl
      | cons ht _ => simp [hR ht]
    rw [Parse.resume, Parse.resume, hR ht, hh]
    split
    · exact hs
    · exact ih

theorem recovering (hp : Alike R V p q) :
    Alike R (Option.Rel V) (Parse.recovering p) (Parse.recovering q) := by
  intro ts us hs
  have h := hp ts us hs
  rw [Parse.recovering, Parse.recovering]
  generalize p ts = x at h
  generalize q us = y at h
  cases h with
  | done ha hr hs => exact .done (.some ha) hr hs
  | failed hr hs =>
    exact .done .none (List.rel_append hr (.cons ⟨optionRel_head? hs, rfl⟩ .nil)) (resume hR hs)

end Alike

end Parser

end ScriptFront
