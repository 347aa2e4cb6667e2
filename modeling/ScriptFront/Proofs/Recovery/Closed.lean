import ScriptFront.Proofs.Parse.Locality

/-! # Statements are closed

Once a statement or declaration has been read, what follows it makes no difference, except that an
`else` may go on with it.
-/

namespace ScriptFront

open Parse

namespace Parser

variable {α β : Type}

/-- A parser that ends with a token of its own: after success, what is left may be replaced by
anything that does not begin with `else`. -/
structure Sealed (p : Parser α) : Prop where
  built : Built p
  consumes : Consumes p
  closed : ∀ read left a reports, p (read ++ left) = .done a reports left →
    ∀ left', Lacks (· == .elseKw) left' → p (read ++ left') = .done a reports left'

namespace Sealed

theorem fail (missing : Expectation) : Sealed (Parser.fail missing : Parser α) where
  built := .fail missing
  consumes := .fail missing
  closed := fun _ _ _ _ h => nomatch h

theorem expect (kind : Kind) (missing : Expectation) : Sealed (Parser.expect kind missing) where
  built := .expect kind missing
  consumes := by
    intro ts t reports rest h
    obtain ⟨rfl, -, -⟩ := expect_eq_done_iff.mp h
    exact Nat.lt_succ_self _
  closed := by
    intro read left t reports h left' _
    obtain ⟨hr, hk, rfl⟩ := expect_eq_done_iff.mp h
    obtain rfl : read = [t] := List.append_cancel_right hr
    exact expect_eq_done_iff.mpr ⟨rfl, hk, rfl⟩

theorem bind {p : Parser α} {f : α → Parser β} (hp : Built p) (hf : ∀ a, Sealed (f a)) :
    Sealed (p >>= f) where
  built := hp.bind fun a => (hf a).built
  consumes := by
    intro ts b reports rest h
    obtain ⟨a, earlier, middle, later, hq, hr, -⟩ := bind_eq_done_iff.mp h
    exact Nat.lt_of_lt_of_le ((hf a).consumes _ _ _ _ hr) (hp.within.length_le hq)
  closed := by
    intro read left b reports h left' hl
    obtain ⟨a, earlier, middle, later, hq, hr, rfl⟩ := bind_eq_done_iff.mp h
    have hs : middle <:+ read ++ left := by
      have h := hp.within (read ++ left)
      rwa [hq] at h
    have hm : left <:+ middle := by
      have h := (hf a).built.within middle
      rwa [hr] at h
    obtain ⟨first, second, rfl, rfl⟩ := Built.exists_read hs hm
    have hlt := (hf a).consumes _ _ _ _ hr
    cases second with
    | nil => exact absurd hlt (Nat.lt_irrefl _)
    | cons t second =>
      rw [List.append_assoc] at hq ⊢
      have h₁ := hp.isLocal first (t :: second ++ left) (t :: second ++ left') (by rw [hq]; rfl) rfl
      rw [hq] at h₁
      exact bind_eq_done h₁ ((hf a).closed (t :: second) left b later hr left' hl)

theorem map {p : Parser α} (f : α → β) (hp : Sealed p) : Sealed (f <$> p) where
  built := hp.built.map f
  consumes := by
    intro ts b reports rest h
    obtain ⟨a, ha, -⟩ := map_eq_done_iff.mp h
    exact hp.consumes _ _ _ _ ha
  closed := by
    intro read left b reports h left' hl
    obtain ⟨a, ha, rfl⟩ := map_eq_done_iff.mp h
    exact map_eq_done_iff.mpr ⟨a, hp.closed read left a reports ha left' hl, rfl⟩

theorem dispatch {choose : Token → Option (Parser α)} {p : Parser α}
    (hc : ∀ t q, choose t = some q → Sealed q) (hp : Sealed p) :
    Sealed (Parser.dispatch choose p) where
  built := .dispatch (fun t q hq => (hc t q hq).built) hp.built
  consumes := by
    intro ts a reports rest h
    rcases dispatch_eq_iff.mp h with ⟨t, tail, q, rfl, hq, hr⟩ | ⟨-, hr⟩
    · exact Nat.lt_succ_of_lt ((hc t q hq).consumes _ _ _ _ hr)
    · exact hp.consumes _ _ _ _ hr
  closed := by
    intro read left a reports h left' hl
    rcases dispatch_eq_iff.mp h with ⟨t, tail, q, ht, hq, hr⟩ | ⟨hn, hr⟩
    · have hw := (hc t q hq).built.within tail
      rw [hr] at hw
      obtain ⟨second, rfl⟩ := hw
      obtain rfl : read = t :: second := List.append_cancel_right ht
      have hq' := (hc t q hq).closed second left a reports hr left' hl
      exact dispatch_eq_iff.mpr (Or.inl ⟨t, second ++ left', q, rfl, hq, hq'⟩)
    · cases read with
      | nil => exact absurd (hp.consumes _ _ _ _ hr) (Nat.lt_irrefl _)
      | cons t read =>
        exact dispatch_eq_iff.mpr
          (Or.inr ⟨hn, hp.closed (t :: read) left a reports hr left' hl⟩)

theorem fixed {body : Parser α → Parser α} (hg : Guarded body)
    (h : ∀ n, Sealed (approximate body n)) : Sealed (Parser.fixed body) where
  built := .fixed hg fun n => (h n).built
  consumes := fun ts a reports rest hr => (h (ts.length + 1)).consumes ts a reports rest hr
  closed := by
    intro read left a reports hr left' hl
    let n := (read ++ left).length + (read ++ left').length + 1
    have h₁ := (hg.fixed_agree n (read ++ left) (by omega)).1
    have h₂ := (hg.fixed_agree n (read ++ left') (by omega)).1
    rw [h₁] at hr
    rw [h₂]
    exact (h n).closed read left a reports hr left' hl

end Sealed

end Parser

namespace Parse

open ScriptFront.Parser

theorem expressionStatement_sealed : Sealed expressionStatement :=
  .bind expression_built fun _ => (Sealed.expect _ _).map _

theorem variableDeclaration_sealed : Sealed variableDeclaration :=
  .bind (.expect _ _) fun _ => .bind initialValue_built fun _ => (Sealed.expect _ _).map _

/-- What is used of the parser that reads the declarations of a block. -/
structure DeclarationReader (d : Parser (Option Stmt)) : Prop where
  built : Built d
  advances : Advances d

theorem blockOf_sealed {d : Parser (Option Stmt)} (h : DeclarationReader d) : Sealed (blockOf d) :=
  .bind (declarations_built rfl h.built h.advances) fun _ => (Sealed.expect _ _).map _

theorem functionDeclaration_sealed {d : Parser (Option Stmt)} (h : DeclarationReader d) :
    Sealed (functionDeclaration d) :=
  .bind (.expect _ _) fun _ => .bind (.expect _ _) fun _ => .bind parameters_built fun _ =>
    .bind (.expect _ _) fun _ => .bind (.expect _ _) fun _ => (blockOf_sealed h).map _

section Statements

variable {self : Parser Stmt} (h : Sealed self)

include h

theorem declarationBody_sealed {d : Parser (Option Stmt)} (hd : DeclarationReader d) :
    Sealed (declarationBody self d) := by
  refine .dispatch (fun t q hq => ?_) h
  unfold declarationAfter at hq
  split at hq
  · cases hq
    exact functionDeclaration_sealed hd
  · cases hq
    exact variableDeclaration_sealed
  · cases hq

theorem approximate_reader (n : Nat) :
    DeclarationReader (approximate (fun d => recovering (declarationBody self d)) n) := by
  induction n with
  | zero =>
    refine ⟨.fail _, ?_⟩
    intro t ts a reports rest hr
    cases hr
  | succ n ih =>
    have hb := declarationBody_sealed h ih
    exact ⟨hb.built.recovering, recovering_advances hb.consumes hb.built.within⟩

theorem declarationOf_reader : DeclarationReader (declarationOf self) where
  built := .fixed (guarded_declaration h.built.within) fun n => (approximate_reader h n).built
  advances := fun t ts _ _ _ hr => (approximate_reader h _).advances t ts _ _ _ hr

theorem whileStatement_sealed (keyword : Token) : Sealed (whileStatement self keyword) :=
  .bind (.expect _ _) fun _ => .bind expression_built fun _ => .bind (.expect _ _) fun _ => h.map _

theorem forStatement_sealed (keyword : Token) : Sealed (forStatement self keyword) :=
  .bind (.expect _ _) fun _ => .bind initializer_built fun _ =>
    .bind (expressionUnless_built _) fun _ => .bind (.expect _ _) fun _ =>
    .bind (expressionUnless_built _) fun _ => .bind (.expect _ _) fun _ => h.map _

theorem alternative_built : Built (alternative self) := by
  refine (Built.accept _).bind fun t => ?_
  cases t with
  | none => exact .pure none
  | some t => exact h.built.map some

/-- The one place where what follows a statement is looked at: if no `else` was read, none may
come. -/
theorem branches_sealed (build : Stmt → Option Stmt → Stmt) :
    Sealed (do
      let thenBranch ← self
      return build thenBranch (← alternative self)) where
  built := h.built.bind fun _ => (alternative_built h).bind fun _ => .pure _
  consumes := h.consumes.bind fun _ => ((alternative_built h).map _).within
  closed := by
    intro read left s reports hr left' hl
    obtain ⟨a, earlier, middle, later, hq, hb, rfl⟩ := bind_eq_done_iff.mp hr
    obtain ⟨e, he, rfl⟩ := map_eq_done_iff.mp hb
    rcases accept_bind_eq_iff.mp he with ⟨t, tail, rfl, ht, hs⟩ | ⟨-, hs⟩
    · obtain ⟨b, hi, rfl⟩ := map_eq_done_iff.mp hs
      have hw : left <:+ tail := by
        have hw := h.built.within tail
        rwa [hi] at hw
      have hm : t :: tail <:+ read ++ left := by
        have hm := h.built.within (read ++ left)
        rwa [hq] at hm
      obtain ⟨first, second, rfl, he⟩ :=
        Built.exists_read hm (hw.trans (List.suffix_cons t tail))
      cases second with
      | nil =>
        have hlt := hw.length_le
        rw [List.nil_append] at he
        rw [← he, List.length_cons] at hlt
        omega
      | cons u second =>
        cases he
        rw [List.append_assoc] at hq ⊢
        have h₁ := h.built.isLocal first (t :: second ++ left) (t :: second ++ left')
          (by rw [hq]; rfl) rfl
        rw [hq] at h₁
        have h₂ : alternative self (t :: second ++ left') = .done (some b) later left' := by
          refine accept_bind_eq_iff.mpr (Or.inl ⟨t, second ++ left', rfl, ht, ?_⟩)
          exact map_eq_done_iff.mpr ⟨b, h.closed second left b later hi left' hl, rfl⟩
        exact bind_eq_done h₁ (map_eq_done_iff.mpr ⟨some b, h₂, rfl⟩)
    · obtain ⟨rfl, rfl, rfl⟩ := pure_eq_done_iff.mp hs
      have h₁ := h.closed read left a earlier hq left' hl
      have h₂ : alternative self left' = .done none [] left' :=
        accept_bind_eq_iff.mpr (Or.inr ⟨hl, rfl⟩)
      exact bind_eq_done h₁ (map_eq_done_iff.mpr ⟨none, h₂, rfl⟩)

theorem ifStatement_sealed (keyword : Token) : Sealed (ifStatement self keyword) :=
  .bind (.expect _ _) fun _ => .bind expression_built fun condition =>
    .bind (.expect _ _) fun _ => branches_sealed h (.conditional keyword condition)

theorem statementBody_sealed : Sealed (statementBody self) := by
  refine .dispatch (fun t q hq => ?_) expressionStatement_sealed
  unfold statementAfter at hq
  split at hq
  · cases hq
    exact forStatement_sealed h t
  · cases hq
    exact ifStatement_sealed h t
  · cases hq
    exact .bind expression_built fun _ => (Sealed.expect _ _).map _
  · cases hq
    exact (Sealed.expect _ _).map _
  · cases hq
    exact .bind (expressionUnless_built _) fun _ => (Sealed.expect _ _).map _
  · cases hq
    exact whileStatement_sealed h t
  · cases hq
    exact (blockOf_sealed (declarationOf_reader h)).map _
  · cases hq

end Statements

theorem statement_sealed : Sealed statement := by
  refine .fixed guarded_statement fun n => ?_
  induction n with
  | zero => exact .fail _
  | succ n ih => exact statementBody_sealed ih

theorem declaration_reader : DeclarationReader declaration := declarationOf_reader statement_sealed

end Parse

end ScriptFront
