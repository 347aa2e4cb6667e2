import ScriptFront.Parse.Recursion

/-! # Progress

An expression, a statement and a declaration read at least one token; a declaration does so also
when it is dropped. So a list is repeated for as long as it goes on, and the declarations of a
program end only with the input.
-/

namespace ScriptFront

open Parse

namespace Parser

variable {α β : Type}

theorem bind_eq_done {p : Parser α} {f : α → Parser β} {ts middle rest : List Token} {a : α} {b : β}
    {earlier later : List Report} (hp : p ts = .done a earlier middle)
    (hf : f a middle = .done b later rest) : (p >>= f) ts = .done b (earlier ++ later) rest := by
  rw [bind_of_done hp, hf]
  rfl

/-- A sequence succeeds exactly if its first part does and then the second. -/
theorem bind_eq_done_iff {p : Parser α} {f : α → Parser β} {ts rest : List Token} {b : β}
    {reports : List Report} :
    (p >>= f) ts = .done b reports rest ↔ ∃ a earlier middle later,
      p ts = .done a earlier middle ∧ f a middle = .done b later rest ∧
        reports = earlier ++ later := by
  constructor
  · intro h
    cases hp : p ts with
    | failed missing earlier middle =>
      rw [bind_of_failed hp] at h
      cases h
    | done a earlier middle =>
      rw [bind_of_done hp] at h
      cases hf : f a middle with
      | failed missing later left =>
        rw [hf] at h
        cases h
      | done c later left =>
        rw [hf] at h
        cases h
        exact ⟨a, earlier, middle, later, rfl, hf, rfl⟩
  · rintro ⟨a, earlier, middle, later, hp, hf, rfl⟩
    exact bind_eq_done hp hf

/-! ### Consumption -/

/-- What is left after success is shorter than the list. -/
def Consumes (p : Parser α) : Prop :=
  ∀ ts a reports rest, p ts = .done a reports rest → rest.length < ts.length

theorem Within.length_le {p : Parser α} (hp : Within p) {ts rest : List Token} {a : α}
    {reports : List Report} (h : p ts = .done a reports rest) : rest.length ≤ ts.length := by
  have hs := hp ts
  rw [h] at hs
  exact hs.length_le

/-- What is left after success is shorter than the list, unless there was nothing to read. -/
def Advances (p : Parser α) : Prop :=
  ∀ t ts a reports rest, p (t :: ts) = .done a reports rest → rest.length < (t :: ts).length

namespace Consumes

theorem fail (missing : Expectation) : Consumes (Parser.fail missing : Parser α) :=
  fun _ _ _ _ h => nomatch h

theorem bind {p : Parser α} {f : α → Parser β} (hp : Consumes p) (hf : ∀ a, Within (f a)) :
    Consumes (p >>= f) := by
  intro ts b reports rest h
  obtain ⟨a, earlier, middle, later, h₁, h₂, -⟩ := bind_eq_done_iff.mp h
  exact Nat.lt_of_le_of_lt ((hf a).length_le h₂) (hp ts a earlier middle h₁)

theorem dispatch {choose : Token → Option (Parser α)} {p : Parser α}
    (hc : ∀ n t, Choices n (choose t) (choose t)) (hp : Consumes p) :
    Consumes (Parser.dispatch choose p) := by
  intro ts a reports rest h
  cases ts with
  | nil => exact hp [] a reports rest h
  | cons t ts =>
    have hq := hc (ts.length + 1) t
    cases ht : choose t with
    | none =>
      simp only [Parser.dispatch, ht] at h
      exact hp _ _ _ _ h
    | some q =>
      simp only [Parser.dispatch, ht] at h
      rw [ht] at hq
      cases hq with
      | some hq =>
        have hs := (hq ts (Nat.lt_succ_self _)).2
        rw [h] at hs
        exact Nat.lt_succ_of_le hs.length_le

end Consumes

/-! ### Repetition -/

/-- A step that goes on has read a token, and at the end of the input none goes on. -/
structure Progresses (step : α → Parser (Option α)) : Prop where
  nil (a : α) : step a [] = .done none [] []
  shorter {a b : α} {ts rest : List Token} {reports : List Report} :
    step a ts = .done (some b) reports rest → rest.length < ts.length

namespace Progresses

variable {step : α → Parser (Option α)}

/-- A step that begins with a token it accepts. -/
theorem of_accept {wanted : Kind → Bool} {next : α → Option Token → Parser (Option α)}
    (hnone : ∀ a, next a none = Pure.pure none) (hsome : ∀ a t, Within (next a (some t))) :
    Progresses fun a => accept wanted >>= next a where
  nil a := by
    have h : accept wanted [] = .done none [] [] := rfl
    rw [bind_of_done h, hnone]
    rfl
  shorter {a b ts rest reports} h := by
    obtain ⟨t, earlier, middle, later, h₁, h₂, -⟩ := bind_eq_done_iff.mp h
    cases t with
    | none =>
      rw [hnone] at h₂
      cases h₂
    | some t =>
      refine Nat.lt_of_le_of_lt ((hsome a t).length_le h₂) ?_
      cases ts with
      | nil => cases h₁
      | cons u ts =>
        rw [accept] at h₁
        split at h₁
        · cases h₁
          exact Nat.lt_succ_self _
        · cases h₁

/-- More steps than there are tokens make no difference. -/
theorem iterate (h : Progresses step) {k m : Nat} (a : α) (ts : List Token) (hk : ts.length ≤ k)
    (hm : ts.length ≤ m) : Parser.iterate step k a ts = Parser.iterate step m a ts := by
  induction k generalizing a ts m with
  | zero =>
    obtain rfl := List.eq_nil_of_length_eq_zero (Nat.le_zero.1 hk)
    cases m with
    | zero => rfl
    | succ m =>
      rw [Parser.iterate, Parser.iterate, bind_of_done (h.nil a)]
      rfl
  | succ k ih =>
    cases m with
    | zero =>
      obtain rfl := List.eq_nil_of_length_eq_zero (Nat.le_zero.1 hm)
      rw [Parser.iterate, Parser.iterate, bind_of_done (h.nil a)]
      rfl
    | succ m =>
      rw [Parser.iterate, Parser.iterate]
      cases hs : step a ts with
      | failed missing reports rest => rw [bind_of_failed hs, bind_of_failed hs]
      | done b reports rest =>
        rw [bind_of_done hs, bind_of_done hs]
        cases b with
        | none => rfl
        | some b =>
          have hl := h.shorter hs
          exact congrArg _ (ih b rest (by omega) (by omega))

theorem repeatFrom_eq (h : Progresses step) (a : α) :
    repeatFrom step a = (do
      match ← step a with
      | none => Pure.pure a
      | some b => repeatFrom step b) := by
  funext ts
  rw [repeatFrom, h.iterate a ts (Nat.le_refl _) (Nat.le_succ _), Parser.iterate]
  cases hs : step a ts with
  | failed missing reports rest => rw [bind_of_failed hs, bind_of_failed hs]
  | done b reports rest =>
    rw [bind_of_done hs, bind_of_done hs]
    cases b with
    | none => rfl
    | some b =>
      have hl := h.shorter hs
      exact congrArg _ (h.iterate b rest (Nat.le_of_lt hl) (Nat.le_refl _))

end Progresses

end Parser

namespace Parse

open ScriptFront.Parser

/-! ### Expressions -/

section Expressions

variable {p : Parser Expr}

theorem primary_consumes (h : Within p) : Consumes (primary p) :=
  .dispatch (fun n => primaryAfter_agree (h.agree n)) (.fail _)

theorem call_consumes (h : Within p) : Consumes (call p) :=
  (primary_consumes h).bind fun _ =>
    .of_agree fun n => .repeatFrom (fun c => (moreCalls_agree (h.agree n) c).succ) _

theorem unary_within (h : Within p) : Within (unary p) :=
  .of_agree fun n => (unary_agree (h.agree n)).succ

theorem unary_consumes (h : Within p) : Consumes (unary p) := by
  rw [unary_eq h]
  exact .dispatch (fun n => unaryAfter_agree ((unary_within h).agree n)) (call_consumes h)

theorem chain_within {isOperator : Kind → Bool} {build : Expr → Token → Expr → Expr}
    (h : Within p) : Within (chain isOperator build p) :=
  .of_agree fun n => chain_agree (h.agree n)

theorem chain_consumes {isOperator : Kind → Bool} {build : Expr → Token → Expr → Expr}
    (hc : Consumes p) (hw : Within p) : Consumes (chain isOperator build p) :=
  hc.bind fun _ => .of_agree fun n => .repeatFrom (moreOperands_agree (hw.agree n)) _

theorem term_consumes (h : Within p) : Consumes (term p) :=
  have hu := unary_within h
  chain_consumes (chain_consumes (unary_consumes h) hu) (chain_within hu)

theorem logicOr_consumes (h : Within p) : Consumes (logicOr p) := by
  have hw : Within (term p) := chain_within (chain_within (unary_within h))
  have hc : Consumes (comparison p) := chain_consumes (term_consumes h) hw
  have he : Consumes (equality p) := chain_consumes hc (chain_within hw)
  have ha : Consumes (logicAnd p) := chain_consumes he (chain_within (chain_within hw))
  exact chain_consumes ha (chain_within (chain_within (chain_within hw)))

theorem expression_consumes : Consumes expression := by
  rw [expression_eq]
  refine (logicOr_consumes expression_within).bind fun target => .of_agree fun n => ?_
  refine (Agree.accept _).bind fun op => ?_
  cases op with
  | none => exact .pure _
  | some op =>
    exact (rightSide_agree (expression_within.agree n) op).bind fun _ => assigned_agree _ _ _

theorem moreArguments_progresses (h : Within p) : Progresses (moreArguments p) :=
  .of_accept (fun _ => rfl) fun _ _ => .of_agree fun n =>
    (argument_agree (h.agree n) _).bind fun _ => .pure _

theorem moreCalls_progresses (h : Within p) : Progresses (moreCalls p) :=
  .of_accept (fun _ => rfl) fun _ _ => .of_agree fun n =>
    (arguments_agree (h.agree n)).bind fun _ => (Agree.expect _ _).bind fun _ => .pure _

theorem moreOperands_progresses {isOperator : Kind → Bool} {build : Expr → Token → Expr → Expr}
    (h : Within p) : Progresses (moreOperands isOperator build p) :=
  .of_accept (fun _ => rfl) fun _ _ => .of_agree fun n => (h.agree n).bind fun _ => .pure _

end Expressions

/-! ### Statements -/

theorem expressionStatement_consumes : Consumes expressionStatement :=
  expression_consumes.bind fun _ => .of_agree fun _ => (Agree.expect _ _).bind fun _ => .pure _

theorem statement_consumes : Consumes statement := by
  rw [statement_eq]
  exact .dispatch (fun n => statementAfter_agree (statement_within.agree n))
    expressionStatement_consumes

theorem declarationBody_consumes : Consumes (declarationBody statement declaration) :=
  .dispatch (fun n => declarationAfter_agree (declaration_within.agree n)) statement_consumes

theorem declarationBody_within : Within (declarationBody statement declaration) :=
  .of_agree fun n =>
    (declarationBody_agree (statement_within.agree (n + 1)) (declaration_within.agree n)).succ

/-- Recovery drops a token where nothing was read. -/
theorem recovering_length_lt {p : Parser Stmt} (hc : Consumes p) (hw : Within p) (t : Token)
    (ts : List Token) : (recovering p (t :: ts)).rest.length < (t :: ts).length := by
  rw [recovering]
  have hs := hw (t :: ts)
  cases h : p (t :: ts) with
  | done a reports rest => exact hc _ _ _ _ h
  | failed missing reports rest =>
    rw [h] at hs
    cases rest with
    | nil => exact Nat.succ_pos _
    | cons u rest => exact Nat.lt_of_lt_of_le (resume_length_lt u rest) hs.length_le

theorem recovering_advances {p : Parser Stmt} (hc : Consumes p) (hw : Within p) :
    Advances (recovering p) := by
  intro t ts a reports rest h
  have hl := recovering_length_lt hc hw t ts
  rwa [h] at hl

theorem declaration_length_lt (t : Token) (ts : List Token) :
    (declaration (t :: ts)).rest.length < (t :: ts).length := by
  rw [declaration_eq]
  exact recovering_length_lt declarationBody_consumes declarationBody_within t ts

theorem declaration_advances : Advances declaration := by
  rw [declaration_eq]
  exact recovering_advances declarationBody_consumes declarationBody_within

/-- A declaration never fails. -/
theorem exists_declaration_eq_done (ts : List Token) :
    ∃ d reports rest, declaration ts = .done d reports rest := by
  rw [declaration_eq, recovering]
  split
  · exact ⟨_, _, _, rfl⟩
  · exact ⟨_, _, _, rfl⟩

theorem moreParameters_progresses : Progresses moreParameters :=
  .of_accept (fun _ => rfl) fun params _ => .of_agree fun _ => nextParameter_agree params

/-- A body that ends at the end of the input goes on by one declaration at a time. -/
theorem moreDeclarations_progresses {isEnd : Option Kind → Bool} {d : Parser (Option Stmt)}
    (hend : isEnd none = true) (hd : Advances d) : Progresses (moreDeclarations isEnd d) where
  nil body := by
    have h : peek [] = .done none [] [] := rfl
    rw [moreDeclarations, bind_of_done h, Option.map_none, if_pos hend]
    rfl
  shorter {body more ts rest reports} h := by
    cases ts with
    | nil =>
      have hp : peek [] = .done none [] [] := rfl
      rw [moreDeclarations, bind_of_done hp, Option.map_none, if_pos hend] at h
      cases h
    | cons t ts =>
      obtain ⟨next, _, middle, _, h₁, h₂, -⟩ := bind_eq_done_iff.mp h
      cases h₁
      split at h₂
      · cases h₂
      · obtain ⟨next, _, left, _, h₃, h₄, -⟩ := bind_eq_done_iff.mp h₂
        have hl := hd t ts _ _ _ h₃
        cases h₄
        exact hl

theorem moreDeclarations_cons {d : Option Stmt} {t : Token} {ts rest : List Token}
    {reports : List Report} (h : declaration (t :: ts) = .done d reports rest) (body : List Stmt) :
    moreDeclarations Option.isNone declaration body (t :: ts) =
      .done (some (body ++ d.toList)) reports rest := by
  have hp : peek (t :: ts) = .done (some t) [] (t :: ts) := rfl
  rw [moreDeclarations, bind_of_done hp, Option.map_some, if_neg (by simp), bind_of_done h]
  exact congrArg (Reply.done _ · rest) (List.append_nil reports)

theorem exists_program_eq_done (ts : List Token) :
    ∃ stmts reports, program ts = .done stmts reports [] := by
  have hp : Progresses (moreDeclarations Option.isNone declaration) :=
    moreDeclarations_progresses rfl declaration_advances
  suffices h : ∀ n ts body, ts.length ≤ n → ∃ stmts reports,
      repeatFrom (moreDeclarations Option.isNone declaration) body ts = .done stmts reports [] from
    h ts.length ts [] (Nat.le_refl _)
  intro n
  induction n with
  | zero =>
    intro ts body ht
    obtain rfl := List.eq_nil_of_length_eq_zero (Nat.le_zero.1 ht)
    exact ⟨body, [], rfl⟩
  | succ n ih =>
    intro ts body ht
    cases ts with
    | nil => exact ⟨body, [], rfl⟩
    | cons t ts =>
      obtain ⟨d, reports, rest, hd⟩ := exists_declaration_eq_done (t :: ts)
      have hl := declaration_length_lt t ts
      rw [hd] at hl
      obtain ⟨stmts, later, h⟩ :=
        ih rest (body ++ d.toList) (Nat.le_of_lt_succ (Nat.lt_of_lt_of_le hl ht))
      rw [hp.repeatFrom_eq, bind_of_done (moreDeclarations_cons hd body)]
      exact ⟨stmts, reports ++ later, congrArg (Reply.after reports) h⟩

end Parse

end ScriptFront
