import ScriptFront.Proofs.NormalForm.Expression
import ScriptFront.Proofs.Slice.Safety

/-! # Programs are in normal form

Every tree that the parser hands out is in normal form at each of its nodes, also where problems
were reported and declarations were dropped.
-/

namespace ScriptFront

open Parse ScriptFront.Parser

/-- What is promised of a statement that was read, and of the tokens left after it: if the
statement could take an `else`, none comes. -/
structure Stmt.Closes (s : Stmt) (rest : List Token) : Prop where
  normal : s.Normal
  isStatement : s.isDeclaration = false
  closed : s.isOpen = true → Lacks (· == .elseKw) rest

/-! ### Trees in normal form -/

namespace Stmt

theorem normal_expression {e : Expr} (h : e.Fits 0) : (Stmt.expression e).Normal :=
  Node.everywhere_of_children trivial (by simpa [Node.children] using h)

theorem normal_print {keyword : Token} {e : Expr} (hk : keyword.kind = .printKw) (h : e.Fits 0) :
    (Stmt.print keyword e).Normal :=
  Node.everywhere_of_children hk (by simpa [Node.children] using h)

theorem normal_define {name : Token} {initial : Option Expr} (hn : name.kind = .identifier)
    (hi : ∀ e ∈ initial, e.Fits 0) : (Stmt.define name initial).Normal := by
  refine Node.everywhere_of_children hn ?_
  cases initial with
  | none => simp [Node.children]
  | some e => simpa [Node.children] using hi e rfl

theorem normal_leave {keyword : Token} {value : Option Expr}
    (hk : keyword.kind = .returnKw ∨ keyword.kind = .breakKw ∧ value = none)
    (hv : ∀ e ∈ value, e.Fits 0) : (Stmt.leave keyword value).Normal := by
  refine Node.everywhere_of_children hk ?_
  cases value with
  | none => simp [Node.children]
  | some e => simpa [Node.children] using hv e rfl

theorem normal_block {brace : Token} {body : List Stmt}
    (hk : brace.kind = .leftBrace ∨ brace.kind = .forKw ∧ IsLoopBlock brace body)
    (hb : ∀ s ∈ body, s.Normal) : (Stmt.block brace body).Normal := by
  refine Node.everywhere_of_children hk fun child h => ?_
  obtain ⟨s, hs, rfl⟩ := List.mem_map.mp h
  exact hb s hs

theorem normal_function {name : Token} {params : List Token} {body : List Stmt}
    (hn : name.kind = .identifier) (hp : ∀ p ∈ params, p.kind = .identifier)
    (hl : params.length ≤ mostParameters) (hb : ∀ s ∈ body, s.Normal) :
    (Stmt.function name params body).Normal := by
  refine Node.everywhere_of_children ⟨hn, hp, hl⟩ fun child h => ?_
  obtain ⟨s, hs, rfl⟩ := List.mem_map.mp h
  exact hb s hs

theorem normal_conditional {keyword : Token} {condition : Expr} {thenBranch : Stmt}
    {elseBranch : Option Stmt} (hk : keyword.kind = .ifKw) (hc : condition.Fits 0)
    (ht : thenBranch.Normal) (hd : thenBranch.isDeclaration = false)
    (he : ∀ s ∈ elseBranch, s.Normal ∧ s.isDeclaration = false ∧ thenBranch.isOpen = false) :
    (Stmt.conditional keyword condition thenBranch elseBranch).Normal := by
  refine Node.everywhere_of_children ⟨hk, hd, fun s hs => (he s hs).2⟩ fun child h => ?_
  rcases List.mem_cons.mp h with rfl | h
  · exact hc
  rcases List.mem_cons.mp h with rfl | h
  · exact ht
  obtain ⟨s, hs, rfl⟩ := List.mem_map.mp h
  exact (he s (by simpa using hs)).1

theorem normal_loop {keyword : Token} {condition : Expr} {body : Stmt}
    (hk : keyword.kind = .whileKw ∨ keyword.kind = .forKw) (hc : condition.Fits 0)
    (hb : body.Normal) (hd : body.isDeclaration = false) :
    (Stmt.loop keyword condition body).Normal := by
  refine Node.everywhere_of_children ⟨hk, hd⟩ ?_
  simpa [Node.children] using And.intro hc hb

theorem normal_endlessLoop {keyword : Token} {body : Stmt} (hk : keyword.kind = .forKw)
    (hb : body.Normal) (hd : body.isDeclaration = false) :
    (Stmt.loop keyword (.literal keyword (.bool true)) body).Normal := by
  have hc (e : Expr) (he : .expr e ∈
      (Node.stmt (.loop keyword (.literal keyword (.bool true)) body)).children) :
      e = .literal keyword (.bool true) := by
    simpa [Node.children] using he
  have hl : (Node.expr (.literal keyword (.bool true))).Everywhere Node.IsNormal := by
    refine Expr.Fits.everywhere_of_children ?_ (by simp [Expr.children])
    simp [Expr.HasShape, Token.StandsFor, hk]
  refine Node.everywhere_iff.mpr ⟨⟨⟨Or.inr hk, hd⟩, ?_, ?_⟩, ?_⟩
  · intro e he h
    rw [hc e he] at h
    cases h
  · intro e he _
    rw [hc e he]
    exact ⟨keyword, body, rfl, rfl⟩
  · intro child h
    rcases List.mem_cons.mp h with rfl | h
    · exact hl
    · rw [List.mem_singleton.mp h]
      exact hb

theorem isOpen_block {brace : Token} (hk : brace.kind ≠ .forKw) (body : List Stmt) :
    (Stmt.block brace body).isOpen = false := by
  rcases body with _ | ⟨first, _ | ⟨last, _ | ⟨more, body⟩⟩⟩
  · rfl
  · rfl
  · simp [isOpen, hk]
  · rfl

end Stmt

def Stmt.IsClause (s : Stmt) : Prop :=
  s.Normal ∧ ((∃ name initial, s = .define name initial) ∨ ∃ e, s = .expression e)

/-- The statement a `for` stands for closes as its body does. -/
theorem forLoop_closes {keyword : Token} {first : Option Stmt} {condition next : Option Expr}
    {body : Stmt} {rest : List Token} (hk : keyword.kind = .forKw)
    (hf : ∀ s ∈ first, s.IsClause) (hc : ∀ e ∈ condition, e.Fits 0) (hn : ∀ e ∈ next, e.Fits 0)
    (hb : body.Closes rest) : (forLoop keyword first condition next body).Closes rest := by
  -- The body with the last clause after it.
  obtain ⟨inner, hi, hinner⟩ : ∃ inner : Stmt, inner.Closes rest ∧
      forLoop keyword first condition next body = forLoop keyword first condition none inner := by
    cases next with
    | none => exact ⟨body, hb, rfl⟩
    | some e =>
      refine ⟨.block keyword [body, .expression e], ⟨?_, rfl, ?_⟩, rfl⟩
      · refine Stmt.normal_block (Or.inr ⟨hk, Or.inr ⟨body, e, rfl, hb.isStatement⟩⟩) ?_
        simpa using And.intro hb.normal (Stmt.normal_expression (hn e rfl))
      · intro h
        exact hb.closed (by simpa [Stmt.isOpen, hk] using h)
  rw [hinner]
  have hloop : (Stmt.loop keyword (condition.getD (.literal keyword (.bool true))) inner).Normal := by
    cases condition with
    | none => exact Stmt.normal_endlessLoop hk hi.normal hi.isStatement
    | some e => exact Stmt.normal_loop (Or.inr hk) (hc e rfl) hi.normal hi.isStatement
  cases first with
  | none => exact ⟨hloop, rfl, hi.closed⟩
  | some s =>
    obtain ⟨hs, hclause⟩ := hf s rfl
    have hopen : s.isOpen = false := by
      rcases hclause with ⟨name, initial, rfl⟩ | ⟨e, rfl⟩
      · rfl
      · rfl
    refine ⟨?_, rfl, ?_⟩
    · refine Stmt.normal_block (Or.inr ⟨hk, Or.inl ⟨s, _, inner, rfl, hclause⟩⟩) ?_
      simpa using And.intro hs hloop
    · intro h
      exact hi.closed (by simpa [forLoop, Stmt.isOpen, hk, hopen] using h)

namespace Parse

/-! ### Statements without statements in them -/

theorem expressionStatement_gives :
    Gives expressionStatement fun s _ => ∃ e : Expr, e.Fits 0 ∧ s = .expression e :=
  expression_fits.bind fun e he => .bind .any fun _ _ => .pure fun _ => ⟨e, he, rfl⟩

theorem initialValue_gives : Gives initialValue fun o _ => ∀ e ∈ o, e.Fits 0 := by
  refine .bind .any fun t _ => ?_
  cases t with
  | none => exact .pure (by simp)
  | some t =>
    refine expression_fits.map fun e _ he e' h => ?_
    cases h
    exact he

theorem variableDeclaration_gives :
    Gives variableDeclaration fun s _ =>
      ∃ name initial, s = .define name initial ∧ s.Normal := by
  refine (Gives.expect _ _).bind fun name hn => initialValue_gives.bind fun initial hi => ?_
  exact .bind .any fun _ _ => .pure fun _ => ⟨name, initial, rfl, Stmt.normal_define hn hi⟩

theorem expressionUnless_gives (stop : Kind) :
    Gives (expressionUnless stop) fun o _ => ∀ e ∈ o, e.Fits 0 := by
  refine .bind .any fun b _ => ?_
  cases b with
  | true => exact .pure (by simp)
  | false =>
    refine expression_fits.map fun e _ he e' h => ?_
    cases h
    exact he

theorem initializer_gives : Gives initializer fun o _ => ∀ s ∈ o, s.IsClause := by
  refine .dispatch (fun t q hq => ?_) ?_
  · unfold initializerAfter at hq
    split at hq
    · cases hq
      exact .pure (by simp)
    · cases hq
      refine variableDeclaration_gives.map fun s _ hs s' h => ?_
      cases h
      obtain ⟨name, initial, rfl, hn⟩ := hs
      exact ⟨hn, Or.inl ⟨name, initial, rfl⟩⟩
    · cases hq
  · refine expressionStatement_gives.map fun s _ hs s' h => ?_
    cases h
    obtain ⟨e, he, rfl⟩ := hs
    exact ⟨Stmt.normal_expression he, Or.inr ⟨e, rfl⟩⟩

/-- A parameter too many is not kept. -/
theorem parameters_gives :
    Gives parameters fun params _ =>
      (∀ p ∈ params, p.kind = .identifier) ∧ params.length ≤ mostParameters := by
  have hstep (params : List Token)
      (h : (∀ p ∈ params, p.kind = .identifier) ∧ params.length ≤ mostParameters) :
      Gives (moreParameters params) fun o _ => ∀ more ∈ o,
        (∀ p ∈ more, p.kind = .identifier) ∧ more.length ≤ mostParameters := by
    refine .bind .any fun comma _ => ?_
    cases comma with
    | none => exact .pure (by simp)
    | some comma =>
      refine .bind .any fun stop _ => ?_
      cases stop with
      | true => exact .pure (by simp)
      | false =>
        refine (Gives.expect _ _).bind fun param hp => ?_
        split
        · refine .bind .any fun _ _ => .pure fun _ more hm => ?_
          cases hm
          exact h
        · rename_i hlt
          refine .pure fun _ more hm => ?_
          cases hm
          refine ⟨fun p hmem => ?_, ?_⟩
          · rcases List.mem_append.mp hmem with hmem | hmem
            · exact h.1 p hmem
            · rw [List.mem_singleton.mp hmem]
              exact hp
          · rw [List.length_append, List.length_singleton]
            omega
  refine (Gives.accept _).bind fun first hf => .repeatFrom hstep ?_
  cases first with
  | none => exact ⟨by simp, Nat.zero_le _⟩
  | some first =>
    have hk : first.kind = .identifier := by simpa using hf first rfl
    exact ⟨by simpa using hk, by simp [mostParameters]⟩

/-! ### Statements inside each other -/

theorem declarations_gives {isEnd : Option Kind → Bool} {d : Parser (Option Stmt)}
    (hd : Gives d fun o _ => ∀ s ∈ o, s.Normal) :
    Gives (declarations isEnd d) fun body _ => ∀ s ∈ body, s.Normal := by
  refine .repeatFrom (fun body hb => ?_) (by simp)
  refine .bind .any fun t _ => ?_
  split
  · exact .pure (by simp)
  · refine hd.bind fun o ho => .pure fun _ more hm => ?_
    cases hm
    intro s hs
    rcases List.mem_append.mp hs with hs | hs
    · exact hb s hs
    · exact ho s (by simpa using hs)

theorem blockOf_gives {d : Parser (Option Stmt)} (hd : Gives d fun o _ => ∀ s ∈ o, s.Normal) :
    Gives (blockOf d) fun body _ => ∀ s ∈ body, s.Normal :=
  (declarations_gives hd).bind fun _ hb => .bind .any fun _ _ => .pure fun _ => hb

theorem functionDeclaration_gives {d : Parser (Option Stmt)}
    (hd : Gives d fun o _ => ∀ s ∈ o, s.Normal) :
    Gives (functionDeclaration d) fun s _ => s.Normal := by
  refine (Gives.expect _ _).bind fun name hn => .bind .any fun _ _ => ?_
  refine parameters_gives.bind fun params hp => .bind .any fun _ _ => .bind .any fun _ _ => ?_
  exact (blockOf_gives hd).map fun body _ hb => Stmt.normal_function hn hp.1 hp.2 hb

section Statements

variable {self : Parser Stmt} (h : Gives self Stmt.Closes)

include h

theorem declarationBody_gives {d : Parser (Option Stmt)}
    (hd : Gives d fun o _ => ∀ s ∈ o, s.Normal) :
    Gives (declarationBody self d) fun s _ => s.Normal := by
  refine .dispatch (fun t q hq => ?_) (h.mono fun s _ hs => hs.normal)
  unfold declarationAfter at hq
  split at hq
  · cases hq
    exact functionDeclaration_gives hd
  · cases hq
    refine variableDeclaration_gives.mono fun s _ hs => ?_
    obtain ⟨_, _, -, hn⟩ := hs
    exact hn
  · cases hq

theorem declarationOf_gives : Gives (declarationOf self) fun o _ => ∀ s ∈ o, s.Normal :=
  .fixed fun _ hd => (declarationBody_gives h hd).recovering

theorem forStatement_gives {keyword : Token} (hk : keyword.kind = .forKw) :
    Gives (forStatement self keyword) Stmt.Closes := by
  refine .bind .any fun _ _ => initializer_gives.bind fun first hf => ?_
  refine (expressionUnless_gives _).bind fun condition hc => .bind .any fun _ _ => ?_
  refine (expressionUnless_gives _).bind fun next hn => .bind .any fun _ _ => ?_
  exact h.map fun body _ hb => forLoop_closes hk hf hc hn hb

theorem whileStatement_gives {keyword : Token} (hk : keyword.kind = .whileKw) :
    Gives (whileStatement self keyword) Stmt.Closes := by
  refine .bind .any fun _ _ => expression_fits.bind fun condition hc => .bind .any fun _ _ => ?_
  refine h.map fun body _ hb => ⟨?_, rfl, hb.closed⟩
  exact Stmt.normal_loop (Or.inl hk) hc hb.normal hb.isStatement

/-- An `else` that was read shows that the statement before it could not take it. -/
theorem branches_gives {keyword : Token} {condition : Expr} (hk : keyword.kind = .ifKw)
    (hc : condition.Fits 0) :
    Gives (do
      let thenBranch ← self
      return .conditional keyword condition thenBranch (← alternative self)) Stmt.Closes := by
  intro ts s reports rest hr
  obtain ⟨thenBranch, _, middle, _, ht, hb, -⟩ := bind_eq_done_iff.mp hr
  obtain ⟨elseBranch, ha, rfl⟩ := map_eq_done_iff.mp hb
  have hthen := h ht
  rcases accept_bind_eq_iff.mp ha with ⟨t, tail, rfl, hw, hs⟩ | ⟨hl, hs⟩
  · obtain ⟨other, ho, rfl⟩ := map_eq_done_iff.mp hs
    have helse := h ho
    have hopen : thenBranch.isOpen = false := by
      cases hopen : thenBranch.isOpen with
      | false => rfl
      | true =>
        have hlacks := lacks_cons.mp (hthen.closed hopen)
        rw [hw] at hlacks
        cases hlacks
    refine ⟨?_, rfl, helse.closed⟩
    refine Stmt.normal_conditional hk hc hthen.normal hthen.isStatement fun e he => ?_
    cases he
    exact ⟨helse.normal, helse.isStatement, hopen⟩
  · obtain ⟨rfl, -, rfl⟩ := pure_eq_done_iff.mp hs
    exact ⟨Stmt.normal_conditional hk hc hthen.normal hthen.isStatement (by simp), rfl, fun _ => hl⟩

theorem ifStatement_gives {keyword : Token} (hk : keyword.kind = .ifKw) :
    Gives (ifStatement self keyword) Stmt.Closes := by
  refine .bind .any fun _ _ => expression_fits.bind fun condition hc => .bind .any fun _ _ => ?_
  exact branches_gives h hk hc

theorem statementBody_gives : Gives (statementBody self) Stmt.Closes := by
  refine .dispatch (fun t q hq => ?_) ?_
  · unfold statementAfter at hq
    split at hq
    · rename_i hk
      cases hq
      exact forStatement_gives h hk
    · rename_i hk
      cases hq
      exact ifStatement_gives h hk
    · rename_i hk
      cases hq
      refine expression_fits.bind fun e he => .bind .any fun _ _ => .pure fun _ => ?_
      exact ⟨Stmt.normal_print hk he, rfl, fun ho => nomatch ho⟩
    · rename_i hk
      cases hq
      refine .bind .any fun _ _ => .pure fun _ => ?_
      exact ⟨Stmt.normal_leave (Or.inr ⟨hk, rfl⟩) (by simp), rfl, fun ho => nomatch ho⟩
    · rename_i hk
      cases hq
      refine (expressionUnless_gives _).bind fun value hv => .bind .any fun _ _ => .pure fun _ => ?_
      exact ⟨Stmt.normal_leave (Or.inl hk) hv, rfl, fun ho => nomatch ho⟩
    · rename_i hk
      cases hq
      exact whileStatement_gives h hk
    · rename_i hk
      cases hq
      refine (blockOf_gives (declarationOf_gives h)).map fun body _ hb => ?_
      refine ⟨Stmt.normal_block (Or.inl hk) hb, rfl, fun ho => ?_⟩
      rw [Stmt.isOpen_block (by simp [hk])] at ho
      cases ho
    · cases hq
  · refine expressionStatement_gives.mono fun s _ hs => ?_
    obtain ⟨e, he, rfl⟩ := hs
    exact ⟨Stmt.normal_expression he, rfl, fun ho => nomatch ho⟩

end Statements

theorem statement_gives : Gives statement Stmt.Closes := .fixed fun _ h => statementBody_gives h

/-- Every statement of a program is in normal form, whatever was dropped between them. -/
theorem program_gives : Gives program fun stmts _ => ∀ s ∈ stmts, s.Normal :=
  declarations_gives (declarationOf_gives statement_gives)

end Parse

/-! ### What the parser hands out -/

def Answer.IsNormal : Answer → Prop
  | .statements stmts => ∀ s ∈ stmts, ∀ n ∈ s.universe, n.IsNormal
  | .expression (.ok e) =>
    e.isCompound = false ∧ e.isImplied = false ∧ ∀ n ∈ (Node.expr e).universe, n.IsNormal
  | .expression (.error _) | .atEnd _ => True

namespace Cursor

theorem isNormal_answer (c : Cursor) (call : Call) : (c.answer call).result.IsNormal := by
  cases call with
  | parse =>
    obtain ⟨stmts, reports, h⟩ := exists_program_eq_done c.rest
    simp only [answer, parse_eq h]
    exact program_gives h
  | parseExpression =>
    simp only [answer, parseExpression]
    cases h : expression c.rest with
    | done e reports rest =>
      have he := expression_fits h
      exact ⟨he.whole, he.written, he.normal⟩
    | failed missing reports rest => trivial
  | isAtEnd => trivial

theorem isNormal_answers (c : Cursor) (calls : List Call) :
    ∀ a ∈ (c.answers calls).result, a.IsNormal := by
  induction calls generalizing c with
  | nil => simp [answers]
  | cons call calls ih =>
    intro a ha
    rcases List.mem_cons.mp ha with rfl | ha
    · exact isNormal_answer c call
    · exact ih _ a ha

end Cursor

/-- On any tokens, whatever calls are made, every tree handed out is in normal form at each of its
nodes. -/
theorem answers_areNormal (ts : List Token) (calls : List Call) :
    ∀ a ∈ ((Cursor.ofTokens ts).answers calls).result, a.IsNormal :=
  (Cursor.ofTokens ts).isNormal_answers calls

/-- `a += 1 * 2; ); print a;` has a statement that is none, and two that are. -/
def brokenStatement : List Token :=
  [Kind.identifier, .plusEqual, .number, .star, .number, .semicolon, .rightParen, .semicolon,
    .printKw, .identifier, .semicolon, .eof].map fun kind => ⟨kind, [], 1, .null⟩

theorem answers_areNormal_brokenStatement :
    ((Cursor.ofTokens brokenStatement).answers [.parse]).diagnostics ≠ [] ∧
      ∃ first last, .statements [first, last] ∈
          ((Cursor.ofTokens brokenStatement).answers [.parse]).result ∧
        (Answer.statements [first, last]).IsNormal := by
  have hd : ((Cursor.ofTokens brokenStatement).answers [.parse]).diagnostics ≠ [] := by decide
  obtain ⟨first, last, h⟩ : ∃ first last,
      ((Cursor.ofTokens brokenStatement).answers [.parse]).result = [.statements [first, last]] :=
    ⟨_, _, rfl⟩
  have hmem : .statements [first, last] ∈
      ((Cursor.ofTokens brokenStatement).answers [.parse]).result := by
    rw [h]
    exact List.mem_singleton_self _
  exact ⟨hd, first, last, hmem, answers_areNormal brokenStatement [.parse] _ hmem⟩

end ScriptFront
