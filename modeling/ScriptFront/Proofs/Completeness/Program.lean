import ScriptFront.Proofs.Completeness.Expression
import ScriptFront.Proofs.Grammar.Statement
import ScriptFront.Proofs.Parse.Input

/-! # Programs are read

The tokens of a program, followed by the end of the input, are parsed to the statements of the
program, and the problems reported are those of the program. A statement is read whatever
follows it, unless it takes an `else` and one follows.
-/

namespace ScriptFront.Grammar

open Parse ScriptFront.Parser

/-! ### Parts without statements in them -/

theorem expression_yield_cons (e : Expression) {t : Token} (rest : List Token)
    (h : t.kind = .rightParen ∨ t.kind = .comma ∨ t.kind = .semicolon) :
    expression (e.yield ++ t :: rest) = .done e.value e.reports (t :: rest) :=
  e.expression_yield (ExprTree.assignment_lacks_cons h)

theorem expressionStatement_yield (e : Expression) (semicolon : Terminal .semicolon)
    (rest : List Token) :
    expressionStatement (e.yield ++ semicolon.1 :: rest) =
      .done (.expression e.value) e.reports rest := by
  have he := expression_yield_cons e rest (Or.inr (Or.inr semicolon.2))
  refine bind_eq_done_iff.mpr ⟨_, _, _, [], he, ?_, (List.append_nil _).symm⟩
  exact expect_bind_cons semicolon.2

theorem initialValue_yield (v : Variable) (rest : List Token) :
    initialValue (v.initialYield ++ v.semicolon.1 :: rest) =
      .done (v.initial.map (·.2.value)) v.reports (v.semicolon.1 :: rest) := by
  rcases v with ⟨keyword, name, initial, semicolon⟩
  cases initial with
  | none =>
    refine accept_bind_eq_iff.mpr (Or.inr ⟨?_, rfl⟩)
    simp [Variable.initialYield, semicolon.2]
  | some e =>
    have he := expression_yield_cons e.2 rest (Or.inr (Or.inr semicolon.2))
    refine accept_bind_eq_iff.mpr (Or.inl ⟨e.1.1, _, rfl, by simp [e.1.2], ?_⟩)
    exact map_eq_done_iff.mpr ⟨_, he, rfl⟩

theorem variableDeclaration_yield (v : Variable) (rest : List Token) :
    variableDeclaration (v.name.1 :: (v.initialYield ++ v.semicolon.1 :: rest)) =
      .done v.value v.reports rest := by
  refine expect_bind_eq_done_iff.mpr ⟨_, _, rfl, v.name.2, ?_⟩
  refine bind_eq_done_iff.mpr ⟨_, _, _, [], initialValue_yield v rest, ?_, ?_⟩
  · exact expect_bind_cons v.semicolon.2
  · exact (List.append_nil _).symm

theorem expressionUnless_yield (e : OptionalExpression) {stop : Kind} (t : Terminal stop)
    (hs : stop = .rightParen ∨ stop = .semicolon) (rest : List Token) :
    expressionUnless stop (e.yield ++ t.1 :: rest) = .done e.value e.reports (t.1 :: rest) := by
  cases e with
  | none => exact nextIs_bind_cons t.2
  | some e =>
    obtain ⟨u, tail, hy, hk⟩ := e.exists_yield_eq_cons
    have hn : u.kind ≠ stop := by
      rcases hs with rfl | rfl <;> exact ne_of_wanted hk rfl
    have hl : Lacks (· == stop) (e.yield ++ t.1 :: rest) := by simp [hy, hn]
    have ht : t.1.kind = .rightParen ∨ t.1.kind = .comma ∨ t.1.kind = .semicolon := by
      rcases hs with h | h <;> simp [t.2, h]
    change expressionUnless stop (e.yield ++ t.1 :: rest) =
      .done (some e.value) e.reports (t.1 :: rest)
    rw [expressionUnless, nextIs_bind_of_lacks hl]
    exact map_eq_done_iff.mpr ⟨_, expression_yield_cons e rest ht, rfl⟩

theorem initializer_yield (i : Initializer) (rest : List Token) :
    initializer (i.yield ++ rest) = .done i.value i.reports rest := by
  cases i with
  | none semicolon =>
    have hc : initializerAfter semicolon.1 = some (pure none) := by
      simp [initializerAfter, semicolon.2]
    exact dispatch_cons hc
  | define v =>
    have hc : initializerAfter v.keyword.1 = some (some <$> variableDeclaration) := by
      simp [initializerAfter, v.keyword.2]
    have hy : v.yield ++ rest =
        v.keyword.1 :: v.name.1 :: (v.initialYield ++ v.semicolon.1 :: rest) := by
      simp [Variable.yield]
    change initializer (v.yield ++ rest) = .done (some v.value) v.reports rest
    rw [hy, initializer, dispatch_cons hc]
    exact map_eq_done_iff.mpr ⟨_, variableDeclaration_yield v rest, rfl⟩
  | expression e semicolon =>
    obtain ⟨t, tail, hy, hk⟩ := e.exists_yield_eq_cons
    have hs : t.kind ≠ .semicolon := ne_of_wanted hk rfl
    have hv : t.kind ≠ .varKw := ne_of_wanted hk rfl
    have hn : ∀ u ∈ (e.yield ++ semicolon.1 :: rest).head?, initializerAfter u = none := by
      simp [hy, initializerAfter]
    change initializer ((e.yield ++ [semicolon.1]) ++ rest) =
      .done (some (.expression e.value)) e.reports rest
    rw [List.append_assoc]
    change initializer (e.yield ++ semicolon.1 :: rest) = _
    rw [initializer, dispatch_of_none hn]
    exact map_eq_done_iff.mpr ⟨_, expressionStatement_yield e semicolon rest, rfl⟩

theorem condition_bind (c : Condition) {α : Type} {before after : Expectation}
    {f : Expr → Parser α} (rest : List Token) :
    (do
      let _ ← expect .leftParen before
      let e ← expression
      let _ ← expect .rightParen after
      f e : Parser α) (c.yield ++ rest) = (f c.value rest).after c.reports := by
  have hy : c.yield ++ rest = c.opening.1 :: (c.inner.yield ++ c.closing.1 :: rest) := by
    simp [Condition.yield]
  have he := expression_yield_cons c.inner rest (Or.inl c.closing.2)
  rw [hy, expect_bind_cons c.opening.2, bind_of_done he, expect_bind_cons c.closing.2]
  rfl

/-! ### Parameters -/

/-- The reports on the names that follow those in `read`. -/
def surplusReports (read names : List Token) : List Report :=
  ((read ++ names).drop (max mostParameters read.length)).map
    fun name => ⟨some name, .tooManyParameters⟩

theorem surplusReports_nil (read : List Token) : surplusReports read [] = [] := by
  rw [surplusReports, List.append_nil, List.drop_of_length_le (Nat.le_max_right _ _)]
  rfl

theorem surplusReports_cons (read : List Token) (name : Token) (names : List Token) :
    surplusReports read (name :: names) =
      (if mostParameters ≤ read.length then [⟨some name, .tooManyParameters⟩] else []) ++
        surplusReports (read ++ [name]) names := by
  unfold surplusReports
  by_cases h : mostParameters ≤ read.length
  · have hm : max mostParameters (read ++ [name]).length = read.length + 1 := by simp; omega
    rw [if_pos h, hm, Nat.max_eq_right h]
    simp [List.drop_append]
  · have hm : max mostParameters (read ++ [name]).length = mostParameters := by simp; omega
    rw [if_neg h, hm, Nat.max_eq_left (by omega)]
    simp

theorem nextParameter_cons (read : List Token) (name : Terminal .identifier) (ts : List Token) :
    nextParameter (read.take mostParameters) (name.1 :: ts) =
      .done (some ((read ++ [name.1]).take mostParameters)) (surplusReports read [name.1]) ts := by
  have hl : Lacks (· == .rightParen) (name.1 :: ts) := by simp [name.2]
  rw [nextParameter, nextIs_bind_of_lacks hl, surplusReports_cons, surplusReports_nil]
  change (expect .identifier _ >>= _) (name.1 :: ts) = _
  rw [expect_bind_cons name.2]
  by_cases h : mostParameters ≤ read.length
  · have ht : mostParameters ≤ (read.take mostParameters).length := by simp [h]
    rw [if_pos ht, if_pos h, report_bind, List.take_append_of_le_length h]
    rfl
  · have ht : ¬ mostParameters ≤ (read.take mostParameters).length := by
      simp
      omega
    rw [if_neg ht, if_neg h, List.take_of_length_le (by omega),
      List.take_of_length_le (by simp; omega)]
    rfl

theorem moreParameters_cons (read : List Token) (comma : Terminal .comma)
    (name : Terminal .identifier) (ts : List Token) :
    moreParameters (read.take mostParameters) (comma.1 :: name.1 :: ts) =
      .done (some ((read ++ [name.1]).take mostParameters)) (surplusReports read [name.1]) ts := by
  rw [moreParameters, accept_bind_cons (by simp [comma.2])]
  exact nextParameter_cons read name ts

theorem moreParameters_end (params : List Token) (trailing : Option (Terminal .comma))
    (closing : Terminal .rightParen) (rest : List Token) :
    moreParameters params ((trailing.map Subtype.val).toList ++ closing.1 :: rest) =
      .done none [] (closing.1 :: rest) := by
  cases trailing with
  | none =>
    have hl : Lacks (· == .comma) (closing.1 :: rest) := by simp [closing.2]
    exact accept_bind_of_lacks hl
  | some comma =>
    refine accept_bind_eq_iff.mpr (Or.inl ⟨comma.1, _, rfl, by simp [comma.2], ?_⟩)
    exact nextIs_bind_cons closing.2

theorem moreParameters_yield (more : List (Terminal .comma × Terminal .identifier))
    (trailing : Option (Terminal .comma)) (closing : Terminal .rightParen) (rest : List Token)
    (read : List Token) :
    repeatFrom moreParameters (read.take mostParameters)
      (more.flatMap (fun e => [e.1.1, e.2.1]) ++
        ((trailing.map Subtype.val).toList ++ closing.1 :: rest)) =
      .done ((read ++ more.map (·.2.1)).take mostParameters)
        (surplusReports read (more.map (·.2.1))) (closing.1 :: rest) := by
  induction more generalizing read with
  | nil =>
    simpa [surplusReports_nil] using
      repeatFrom_of_none moreParameters_progresses (moreParameters_end _ trailing closing rest)
  | cons e more ih =>
    obtain ⟨comma, name⟩ := e
    simp only [List.flatMap_cons, List.cons_append, List.nil_append, List.map_cons]
    rw [repeatFrom_of_some moreParameters_progresses (moreParameters_cons read comma name _), ih,
      after_done, surplusReports_cons read name.1, surplusReports_cons read name.1,
      surplusReports_nil]
    simp

/-- With at most one name read, the names too many are those after the first 255. -/
theorem Parameters.reports_eq (p : Parameters) :
    p.reports = surplusReports (p.first.map Subtype.val).toList (p.more.map (·.2.1)) := by
  have hm : max mostParameters (p.first.map Subtype.val).toList.length = mostParameters := by
    cases p.first <;> rfl
  rw [reports, names, surplusReports, hm]

theorem parameters_yield (p : Parameters) (closing : Terminal .rightParen) (rest : List Token) :
    parameters (p.yield ++ closing.1 :: rest) = .done p.value p.reports (closing.1 :: rest) := by
  rw [Parameters.reports_eq]
  rcases p with ⟨first, more, trailing⟩
  have h := moreParameters_yield more trailing closing rest (first.map Subtype.val).toList
  cases first with
  | none =>
    have hl : Lacks (· == .identifier) (more.flatMap (fun e => [e.1.1, e.2.1]) ++
        ((trailing.map Subtype.val).toList ++ closing.1 :: rest)) := by
      cases more with
      | cons e more => simp [e.1.2]
      | nil =>
        cases trailing with
        | none => simp [closing.2]
        | some comma => simp [comma.2]
    simp only [Parameters.yield, Option.map_none, Option.toList_none, List.nil_append,
      List.append_assoc]
    rw [parameters, accept_bind_of_lacks hl]
    exact h
  | some name =>
    have hk : (name.1.kind == .identifier) = true := by simp [name.2]
    simp only [Parameters.yield, Option.map_some, Option.toList_some, List.cons_append,
      List.nil_append, List.append_assoc]
    rw [parameters, accept_bind_cons hk]
    exact h

/-! ### How statements begin -/

def beginsStatement (k : Kind) : Bool :=
  k == .forKw || k == .ifKw || k == .printKw || k == .breakKw || k == .returnKw || k == .whileKw ||
    k == .leftBrace || Level.assignment.begins k

def beginsDeclaration (k : Kind) : Bool :=
  k == .functionKw || k == .varKw || beginsStatement k

namespace StmtTree

theorem exists_statement_yield_eq_cons {b : Bool} (d : StmtTree (.statement b)) :
    ∃ t tail, d.yield = t :: tail ∧ beginsStatement t.kind = true := by
  cases d with
  | forLoop keyword | ifThen keyword | ifElse keyword | print keyword | leaveLoop keyword
  | leaveFunction keyword | whileLoop keyword | block keyword =>
    exact ⟨keyword.1, _, rfl, by rw [keyword.2]; rfl⟩
  | expression e semicolon =>
    obtain ⟨t, tail, hy, hk⟩ := e.exists_yield_eq_cons
    exact ⟨t, tail ++ [semicolon.1], by simp [hy], by simp [beginsStatement, hk]⟩

theorem exists_declaration_yield_eq_cons (d : StmtTree .declaration) :
    ∃ t tail, d.yield = t :: tail ∧ beginsDeclaration t.kind = true := by
  cases d with
  | function keyword => exact ⟨keyword.1, _, rfl, by rw [keyword.2]; rfl⟩
  | define v => exact ⟨v.keyword.1, _, rfl, by rw [v.keyword.2]; rfl⟩
  | statement s =>
    obtain ⟨t, tail, hy, hk⟩ := s.exists_statement_yield_eq_cons
    exact ⟨t, tail, hy, by simp [beginsDeclaration, hk]⟩

/-! ### Reading each form -/

/-- The derivation is read: a statement that takes an `else` only if none follows, declarations up
to where a body ends. -/
def IsRead : {form : StmtForm} → StmtTree form → Prop
  | .statement b, d => ∀ rest, (b = true → Lacks (· == .elseKw) rest) →
    Parse.statement (d.yield ++ rest) = .done d.value d.reports rest
  | .declaration, d => ∀ rest, Lacks (· == .elseKw) rest →
    declaration (d.yield ++ rest) = .done (some d.value) d.reports rest
  | .declarations, d => ∀ (isEnd : Option Kind → Bool) body rest, isEnd none = true →
    (∀ k, isEnd (some k) = true → beginsDeclaration k = false) →
    isEnd (rest.head?.map Token.kind) = true → Lacks (· == .elseKw) rest →
    repeatFrom (moreDeclarations isEnd declaration) body (d.yield ++ rest) =
      .done (body ++ d.value) d.reports rest

theorem statement_cons {t : Token} {ts : List Token} {p : Parser Stmt}
    (h : statementAfter Parse.statement t = some p) : Parse.statement (t :: ts) = p ts := by
  rw [statement_eq]
  exact dispatch_cons h

theorem isRead_forLoop {b : Bool} (keyword : Terminal .forKw) (c : ForClauses)
    {body : StmtTree (.statement b)} (hb : body.IsRead) : (forLoop keyword c body).IsRead := by
  intro rest hr
  have ha : statementAfter Parse.statement keyword.1 =
      some (forStatement Parse.statement keyword.1) := by
    simp [statementAfter, keyword.2]
  have hy : (forLoop keyword c body).yield ++ rest = keyword.1 :: c.opening.1 ::
      (c.first.yield ++ (c.condition.yield ++ c.semicolon.1 ::
        (c.next.yield ++ c.closing.1 :: (body.yield ++ rest)))) := by
    simp [ForClauses.yield]
  rw [hy, statement_cons ha, forStatement, expect_bind_cons c.opening.2,
    bind_of_done (initializer_yield c.first _),
    bind_of_done (expressionUnless_yield c.condition c.semicolon (Or.inr rfl) _),
    expect_bind_cons c.semicolon.2,
    bind_of_done (expressionUnless_yield c.next c.closing (Or.inl rfl) _),
    expect_bind_cons c.closing.2, bind_of_done (hb rest hr)]
  change Reply.done (c.value keyword.1 body.value) (c.first.reports ++ (c.condition.reports ++
    (c.next.reports ++ (body.reports ++ [])))) rest = _
  simp [ForClauses.reports]

theorem alternative_of_lacks {rest : List Token} (h : Lacks (· == .elseKw) rest) :
    alternative Parse.statement rest = .done none [] rest :=
  accept_bind_of_lacks h

theorem ifStatement_after (keyword : Terminal .ifKw) :
    statementAfter Parse.statement keyword.1 =
      some (ifStatement Parse.statement keyword.1) := by
  simp [statementAfter, keyword.2]

theorem isRead_ifThen {b : Bool} (keyword : Terminal .ifKw) (c : Condition)
    {thenBranch : StmtTree (.statement b)} (ht : thenBranch.IsRead) :
    (ifThen keyword c thenBranch).IsRead := by
  intro rest hr
  have hl : Lacks (· == .elseKw) rest := hr rfl
  change Parse.statement (keyword.1 :: ((c.yield ++ thenBranch.yield) ++ rest)) = _
  rw [statement_cons (ifStatement_after keyword), ifStatement, List.append_assoc, condition_bind,
    bind_of_done (ht rest fun _ => hl), bind_of_done (alternative_of_lacks hl)]
  change Reply.done _ (c.reports ++ (thenBranch.reports ++ [])) rest = _
  simp

theorem isRead_ifElse {b : Bool} (keyword : Terminal .ifKw) (c : Condition)
    {thenBranch : StmtTree (.statement false)} (elseKeyword : Terminal .elseKw)
    {elseBranch : StmtTree (.statement b)} (ht : thenBranch.IsRead) (he : elseBranch.IsRead) :
    (ifElse keyword c thenBranch elseKeyword elseBranch).IsRead := by
  intro rest hr
  have ha : alternative Parse.statement (elseKeyword.1 :: (elseBranch.yield ++ rest)) =
      .done (some elseBranch.value) elseBranch.reports rest := by
    rw [alternative, accept_bind_cons (by simp [elseKeyword.2])]
    exact map_eq_done_iff.mpr ⟨_, he rest hr, rfl⟩
  have hy : (ifElse keyword c thenBranch elseKeyword elseBranch).yield ++ rest = keyword.1 ::
      (c.yield ++ (thenBranch.yield ++ elseKeyword.1 :: (elseBranch.yield ++ rest))) := by
    simp
  rw [hy, statement_cons (ifStatement_after keyword), ifStatement, condition_bind,
    bind_of_done (ht _ fun h => nomatch h), bind_of_done ha]
  change Reply.done _ (c.reports ++ (thenBranch.reports ++ (elseBranch.reports ++ []))) rest = _
  simp

theorem isRead_print (keyword : Terminal .printKw) (e : Expression)
    (semicolon : Terminal .semicolon) : (print keyword e semicolon).IsRead := by
  intro rest _
  have ha : statementAfter Parse.statement keyword.1 = some (printStatement keyword.1) := by
    simp [statementAfter, keyword.2]
  have hy : (print keyword e semicolon).yield ++ rest =
      keyword.1 :: (e.yield ++ semicolon.1 :: rest) := by
    simp
  rw [hy, statement_cons ha, printStatement,
    bind_of_done (expression_yield_cons e rest (Or.inr (Or.inr semicolon.2))),
    expect_bind_cons semicolon.2]
  change Reply.done _ (e.reports ++ []) rest = _
  simp

theorem isRead_leaveLoop (keyword : Terminal .breakKw) (semicolon : Terminal .semicolon) :
    (leaveLoop keyword semicolon).IsRead := by
  intro rest _
  have ha : statementAfter Parse.statement keyword.1 = some (breakStatement keyword.1) := by
    simp [statementAfter, keyword.2]
  change Parse.statement (keyword.1 :: semicolon.1 :: rest) = _
  rw [statement_cons ha, breakStatement, expect_bind_cons semicolon.2]
  rfl

theorem isRead_leaveFunction (keyword : Terminal .returnKw) (e : OptionalExpression)
    (semicolon : Terminal .semicolon) : (leaveFunction keyword e semicolon).IsRead := by
  intro rest _
  have ha : statementAfter Parse.statement keyword.1 = some (returnStatement keyword.1) := by
    simp [statementAfter, keyword.2]
  have hy : (leaveFunction keyword e semicolon).yield ++ rest =
      keyword.1 :: (e.yield ++ semicolon.1 :: rest) := by
    simp
  rw [hy, statement_cons ha, returnStatement,
    bind_of_done (expressionUnless_yield e semicolon (Or.inr rfl) rest),
    expect_bind_cons semicolon.2]
  change Reply.done _ (e.reports ++ []) rest = _
  simp

theorem isRead_whileLoop {b : Bool} (keyword : Terminal .whileKw) (c : Condition)
    {body : StmtTree (.statement b)} (hb : body.IsRead) : (whileLoop keyword c body).IsRead := by
  intro rest hr
  have ha : statementAfter Parse.statement keyword.1 =
      some (whileStatement Parse.statement keyword.1) := by
    simp [statementAfter, keyword.2]
  change Parse.statement (keyword.1 :: ((c.yield ++ body.yield) ++ rest)) = _
  rw [statement_cons ha, whileStatement, List.append_assoc, condition_bind,
    bind_of_done (hb rest hr)]
  change Reply.done _ (c.reports ++ (body.reports ++ [])) rest = _
  simp

theorem blockOf_yield {body : StmtTree .declarations} (hb : body.IsRead)
    (closing : Terminal .rightBrace) (rest : List Token) :
    blockOf declaration (body.yield ++ closing.1 :: rest) =
      .done body.value body.reports rest := by
  have hd : declarations endsBlock declaration (body.yield ++ closing.1 :: rest) =
      .done body.value body.reports (closing.1 :: rest) := by
    refine hb endsBlock [] (closing.1 :: rest) rfl ?_ ?_ ?_
    · intro k hk
      simp only [endsBlock, beq_iff_eq] at hk
      rw [hk]
      rfl
    · simp [endsBlock, closing.2]
    · simp [closing.2]
  rw [blockOf, bind_of_done hd, expect_bind_cons closing.2]
  change Reply.done _ (body.reports ++ []) rest = _
  rw [List.append_nil]

theorem isRead_block (opening : Terminal .leftBrace) {body : StmtTree .declarations}
    (closing : Terminal .rightBrace) (hb : body.IsRead) :
    (block opening body closing).IsRead := by
  intro rest _
  have ha : statementAfter Parse.statement opening.1 =
      some (Stmt.block opening.1 <$> blockOf declaration) := by
    simp [statementAfter, opening.2]
    rfl
  have hy : (block opening body closing).yield ++ rest =
      opening.1 :: (body.yield ++ closing.1 :: rest) := by
    simp
  rw [hy, statement_cons ha]
  exact map_eq_done_iff.mpr ⟨_, blockOf_yield hb closing rest, rfl⟩

theorem statementAfter_eq_none {t : Token} (h : Level.assignment.begins t.kind = true) :
    statementAfter Parse.statement t = none := by
  unfold statementAfter
  split
  case h_8 => rfl
  all_goals
    rename_i hk
    rw [hk] at h
    cases h

theorem isRead_expression (e : Expression) (semicolon : Terminal .semicolon) :
    (expression e semicolon).IsRead := by
  intro rest _
  obtain ⟨t, tail, hy, hk⟩ := e.exists_yield_eq_cons
  have hn : ∀ u ∈ (e.yield ++ semicolon.1 :: rest).head?,
      statementAfter Parse.statement u = none := by
    simp [hy, statementAfter_eq_none hk]
  have ha : (expression e semicolon).yield ++ rest = e.yield ++ semicolon.1 :: rest := by
    simp
  rw [ha, statement_eq, statementBody, dispatch_of_none hn]
  exact expressionStatement_yield e semicolon rest

theorem isRead_function (keyword : Terminal .functionKw) (name : Terminal .identifier)
    (opening : Terminal .leftParen) (params : Parameters) (closing : Terminal .rightParen)
    (openingBrace : Terminal .leftBrace) {body : StmtTree .declarations}
    (closingBrace : Terminal .rightBrace) (hb : body.IsRead) :
    (function keyword name opening params closing openingBrace body closingBrace).IsRead := by
  intro rest _
  have ha : declarationAfter declaration keyword.1 = some (functionDeclaration declaration) := by
    simp [declarationAfter, keyword.2]
  have hy : (function keyword name opening params closing openingBrace body closingBrace).yield ++
      rest = keyword.1 :: name.1 :: opening.1 :: (params.yield ++ closing.1 :: openingBrace.1 ::
        (body.yield ++ closingBrace.1 :: rest)) := by
    simp
  rw [declaration_eq]
  refine recovering_eq_some_iff.mpr ?_
  rw [hy, declarationBody, dispatch_cons ha, functionDeclaration, expect_bind_cons name.2,
    expect_bind_cons opening.2, bind_of_done (parameters_yield params closing _),
    expect_bind_cons closing.2, expect_bind_cons openingBrace.2,
    bind_of_done (blockOf_yield hb closingBrace rest)]
  change Reply.done _ (params.reports ++ (body.reports ++ [])) rest = _
  simp

theorem isRead_define (v : Variable) : (define v).IsRead := by
  intro rest _
  have ha : declarationAfter declaration v.keyword.1 = some variableDeclaration := by
    simp [declarationAfter, v.keyword.2]
  have hy : (define v).yield ++ rest =
      v.keyword.1 :: v.name.1 :: (v.initialYield ++ v.semicolon.1 :: rest) := by
    simp [Variable.yield]
  rw [declaration_eq]
  refine recovering_eq_some_iff.mpr ?_
  rw [hy, declarationBody, dispatch_cons ha]
  exact variableDeclaration_yield v rest

theorem isRead_statement {b : Bool} {s : StmtTree (.statement b)} (hs : s.IsRead) :
    (statement s).IsRead := by
  intro rest hr
  obtain ⟨t, tail, hy, hk⟩ := s.exists_statement_yield_eq_cons
  have hn : ∀ u ∈ (s.yield ++ rest).head?, declarationAfter declaration u = none := by
    have hf : t.kind ≠ .functionKw := ne_of_wanted hk rfl
    have hv : t.kind ≠ .varKw := ne_of_wanted hk rfl
    simp [hy, declarationAfter]
  rw [declaration_eq]
  refine recovering_eq_some_iff.mpr ?_
  change declarationBody Parse.statement declaration (s.yield ++ rest) =
    .done s.value s.reports rest
  rw [declarationBody, dispatch_of_none hn]
  exact hs rest fun _ => hr

theorem isRead_nil : nil.IsRead := by
  intro isEnd body rest hnone _ hend _
  have hs : moreDeclarations isEnd declaration body rest = .done none [] rest := by
    rw [moreDeclarations, peek_bind, if_pos hend]
    rfl
  change repeatFrom _ body rest = .done (body ++ []) [] rest
  rw [repeatFrom_of_none (moreDeclarations_progresses hnone declaration_advances) hs,
    List.append_nil]

theorem declarations_lacks (more : StmtTree .declarations) {rest : List Token}
    (hr : Lacks (· == .elseKw) rest) : Lacks (· == .elseKw) (more.yield ++ rest) := by
  cases more with
  | nil => exact hr
  | cons first more =>
    obtain ⟨t, tail, hy, hk⟩ := first.exists_declaration_yield_eq_cons
    have hn : t.kind ≠ .elseKw := ne_of_wanted hk rfl
    simp [hy, hn]

theorem isRead_cons {first : StmtTree .declaration} {more : StmtTree .declarations}
    (hf : first.IsRead) (hm : more.IsRead) : (cons first more).IsRead := by
  intro isEnd body rest hnone hbegin hend hr
  obtain ⟨t, tail, hy, hk⟩ := first.exists_declaration_yield_eq_cons
  have hn : ¬ isEnd ((first.yield ++ (more.yield ++ rest)).head?.map Token.kind) = true := by
    intro h
    simp only [hy, List.cons_append, List.head?_cons, Option.map_some] at h
    simp [hbegin _ h] at hk
  have hs : moreDeclarations isEnd declaration body (first.yield ++ (more.yield ++ rest)) =
      .done (some (body ++ [first.value])) first.reports (more.yield ++ rest) := by
    rw [moreDeclarations, peek_bind, if_neg hn, bind_of_done (hf _ (declarations_lacks more hr))]
    change Reply.done _ (first.reports ++ []) _ = _
    rw [List.append_nil]
    rfl
  have h := repeatFrom_of_some (moreDeclarations_progresses hnone declaration_advances) hs
  rw [hm isEnd _ rest hnone hbegin hend hr] at h
  simpa using h

theorem isRead {form : StmtForm} (d : StmtTree form) : d.IsRead := by
  induction d with
  | forLoop keyword c _ hb => exact isRead_forLoop keyword c hb
  | ifThen keyword c _ ht => exact isRead_ifThen keyword c ht
  | ifElse keyword c _ elseKeyword _ ht he => exact isRead_ifElse keyword c elseKeyword ht he
  | print keyword e semicolon => exact isRead_print keyword e semicolon
  | leaveLoop keyword semicolon => exact isRead_leaveLoop keyword semicolon
  | leaveFunction keyword e semicolon => exact isRead_leaveFunction keyword e semicolon
  | whileLoop keyword c _ hb => exact isRead_whileLoop keyword c hb
  | block opening _ closing hb => exact isRead_block opening closing hb
  | expression e semicolon => exact isRead_expression e semicolon
  | function keyword name opening params closing openingBrace _ closingBrace hb =>
    exact isRead_function keyword name opening params closing openingBrace closingBrace hb
  | define v => exact isRead_define v
  | statement _ hs => exact isRead_statement hs
  | nil => exact isRead_nil
  | cons _ _ hf hm => exact isRead_cons hf hm

theorem program_yield (d : Program) : program d.yield = .done d.value d.reports [] := by
  have h := d.isRead Option.isNone [] [] rfl (by simp) rfl (lacks_nil _)
  rwa [List.append_nil] at h

end StmtTree

/-! ### Derivations hold no end of input -/

theorem ExprTree.withoutEnd_yield {form : ExprForm} (d : ExprTree form) :
    WithoutEnd d.yield := by
  induction d with
  | atom t =>
    have ht : t.1.kind ≠ .eof := ne_of_wanted t.2 rfl
    simp [ht]
  | grouping opening inner closing hi => simp [opening.2, closing.2, hi]
  | call callee more hc hm => simp [hc, hm]
  | moreCalls opening args closing more ha hm => simp [opening.2, closing.2, ha, hm]
  | someArguments first more hf hm => simp [hf, hm]
  | furtherArguments comma argument more ha hm => simp [comma.2, ha, hm]
  | signed op operand ho =>
    have hk : op.1.kind ≠ .eof := ne_of_wanted op.2 rfl
    simp [hk, ho]
  | unsigned e he => exact he
  | chain first more hf hm => simp [hf, hm]
  | @moreOperations c op right more hr hm =>
    have hk : op.1.kind ≠ .eof := ne_of_wanted op.2 (by cases c <;> rfl)
    simp [hk, hr, hm]
  | unassigned e he => exact he
  | assigned target op right ht hr => simp [op.2, ht, hr]
  | compound target op right ht hr =>
    have hk : op.1.kind ≠ .eof := ne_of_wanted op.2 rfl
    simp [hk, ht, hr]
  | noCalls | noArguments | noFurtherArguments | noOperations => exact withoutEnd_nil

theorem OptionalExpression.withoutEnd_yield (e : OptionalExpression) : WithoutEnd e.yield := by
  cases e with
  | none => exact withoutEnd_nil
  | some e => exact ExprTree.withoutEnd_yield e

theorem Condition.withoutEnd_yield (c : Condition) : WithoutEnd c.yield := by
  simp [yield, c.opening.2, c.closing.2, c.inner.withoutEnd_yield]

theorem Variable.withoutEnd_yield (v : Variable) : WithoutEnd v.yield := by
  rcases v with ⟨keyword, name, initial, semicolon⟩
  cases initial with
  | none => simp [yield, initialYield, keyword.2, name.2, semicolon.2]
  | some e =>
    simp [yield, initialYield, keyword.2, name.2, semicolon.2, e.1.2, e.2.withoutEnd_yield]

theorem Parameters.withoutEnd_yield (p : Parameters) : WithoutEnd p.yield := by
  rcases p with ⟨first, more, trailing⟩
  have hf : WithoutEnd (first.map Subtype.val).toList := by
    cases first with
    | none => exact withoutEnd_nil
    | some name => simp [name.2]
  have ht : WithoutEnd (trailing.map Subtype.val).toList := by
    cases trailing with
    | none => exact withoutEnd_nil
    | some comma => simp [comma.2]
  have hm : WithoutEnd (more.flatMap fun e => [e.1.1, e.2.1]) := by
    induction more with
    | nil => exact withoutEnd_nil
    | cons e more ih => simp [e.1.2, e.2.2, ih]
  exact withoutEnd_append.mpr ⟨withoutEnd_append.mpr ⟨hf, hm⟩, ht⟩

theorem Initializer.withoutEnd_yield (i : Initializer) : WithoutEnd i.yield := by
  cases i with
  | none semicolon => simp [yield, semicolon.2]
  | define v => exact v.withoutEnd_yield
  | expression e semicolon => simp [yield, semicolon.2, e.withoutEnd_yield]

theorem ForClauses.withoutEnd_yield (c : ForClauses) : WithoutEnd c.yield := by
  simp [yield, c.opening.2, c.semicolon.2, c.closing.2, c.first.withoutEnd_yield,
    c.condition.withoutEnd_yield, c.next.withoutEnd_yield]

theorem StmtTree.withoutEnd_yield {form : StmtForm} (d : StmtTree form) :
    WithoutEnd d.yield := by
  induction d with
  | forLoop keyword c body hb => simp [keyword.2, c.withoutEnd_yield, hb]
  | ifThen keyword c thenBranch ht => simp [keyword.2, c.withoutEnd_yield, ht]
  | ifElse keyword c thenBranch elseKeyword elseBranch ht he =>
    simp [keyword.2, c.withoutEnd_yield, elseKeyword.2, ht, he]
  | print keyword e semicolon => simp [keyword.2, e.withoutEnd_yield, semicolon.2]
  | leaveLoop keyword semicolon => simp [keyword.2, semicolon.2]
  | leaveFunction keyword e semicolon => simp [keyword.2, e.withoutEnd_yield, semicolon.2]
  | whileLoop keyword c body hb => simp [keyword.2, c.withoutEnd_yield, hb]
  | block opening body closing hb => simp [opening.2, closing.2, hb]
  | expression e semicolon => simp [e.withoutEnd_yield, semicolon.2]
  | function keyword name opening params closing openingBrace body closingBrace hb =>
    simp [yield, keyword.2, name.2, opening.2, params.withoutEnd_yield, closing.2, openingBrace.2,
      closingBrace.2, hb]
  | define v => exact v.withoutEnd_yield
  | statement s hs => exact hs
  | nil => exact withoutEnd_nil
  | cons first more hf hm => simp [hf, hm]

/-- Parsing the tokens of a program, followed by an end of input, gives exactly its statements and
reports exactly its problems, in order. -/
theorem parse_yield (d : Program) (ending : Terminal .eof) :
    (Cursor.ofTokens (d.yield ++ [ending.1])).parse =
      ⟨d.value, d.reports.map (Report.diagnostic ending.1), ⟨[], ending.1⟩⟩ := by
  have hc : Cursor.ofTokens (d.yield ++ [ending.1]) = ⟨d.yield, ending.1⟩ :=
    Cursor.ofTokens_append_cons d.withoutEnd_yield ending.2 []
  rw [hc]
  exact Cursor.parse_eq d.program_yield

end ScriptFront.Grammar
