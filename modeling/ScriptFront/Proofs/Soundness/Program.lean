import ScriptFront.Proofs.Completeness.Program
import ScriptFront.Proofs.Soundness.Expression

/-! # What is parsed without a structural problem is a program

A declaration that is dropped leaves a structural report, also inside a block. So where there is
none, everything read belongs to a derivation, and the statements are its value.
-/

namespace ScriptFront.Grammar

open Parse ScriptFront.Parser

/-- No report is structural. -/
def Clean (reports : List Report) : Prop := ∀ r ∈ reports, r.problem.isStructural = false

theorem clean_append {earlier later : List Report} :
    Clean (earlier ++ later) ↔ Clean earlier ∧ Clean later := by
  simp only [Clean, List.mem_append]
  constructor
  · intro h
    exact ⟨fun r hr => h r (Or.inl hr), fun r hr => h r (Or.inr hr)⟩
  · rintro ⟨he, hl⟩ r (h | h)
    · exact he r h
    · exact hl r h

variable {ts rest : List Token} {reports : List Report}

/-! ### Parts without statements in them -/

theorem expressionStatement_sound {s : Stmt} (h : expressionStatement ts = .done s reports rest) :
    ∃ (e : Expression) (semicolon : Terminal .semicolon),
      ts = e.yield ++ semicolon.1 :: rest ∧ s = .expression e.value ∧ reports = e.reports := by
  obtain ⟨_, _, _, _, he, hc, rfl⟩ := bind_eq_done_iff.mp h
  obtain ⟨e, rfl, rfl, rfl⟩ := expression_sound he
  obtain ⟨semicolon, _, rfl, hk, hp⟩ := expect_bind_eq_done_iff.mp hc
  cases hp
  exact ⟨e, ⟨semicolon, hk⟩, rfl, rfl, List.append_nil _⟩

theorem variableDeclaration_sound (keyword : Terminal .varKw) {s : Stmt}
    (h : variableDeclaration ts = .done s reports rest) :
    ∃ v : Variable, keyword.1 :: ts = v.yield ++ rest ∧ s = v.value ∧ reports = v.reports := by
  obtain ⟨name, _, rfl, hn, h⟩ := expect_bind_eq_done_iff.mp h
  obtain ⟨_, _, _, _, hi, hc, rfl⟩ := bind_eq_done_iff.mp h
  obtain ⟨semicolon, _, rfl, hk, hp⟩ := expect_bind_eq_done_iff.mp hc
  cases hp
  rcases accept_bind_eq_iff.mp hi with ⟨equal, _, rfl, he, hm⟩ | ⟨-, hm⟩
  · obtain ⟨_, hv, rfl⟩ := map_eq_done_iff.mp hm
    obtain ⟨e, rfl, rfl, rfl⟩ := expression_sound hv
    refine ⟨⟨keyword, ⟨name, hn⟩, some (⟨equal, by simpa using he⟩, e), ⟨semicolon, hk⟩⟩, ?_, rfl,
      List.append_nil _⟩
    simp [Variable.yield, Variable.initialYield]
  · cases hm
    exact ⟨⟨keyword, ⟨name, hn⟩, none, ⟨semicolon, hk⟩⟩, rfl, rfl, rfl⟩

theorem expressionUnless_sound {stop : Kind} {o : Option Expr}
    (h : expressionUnless stop ts = .done o reports rest) :
    ∃ e : OptionalExpression, ts = e.yield ++ rest ∧ o = e.value ∧ reports = e.reports := by
  rcases nextIs_bind_eq_iff.mp h with ⟨_, _, rfl, -, hn⟩ | ⟨-, hn⟩
  · cases hn
    exact ⟨none, rfl, rfl, rfl⟩
  · obtain ⟨_, he, rfl⟩ := map_eq_done_iff.mp hn
    obtain ⟨e, rfl, rfl, rfl⟩ := expression_sound he
    exact ⟨some e, rfl, rfl, rfl⟩

theorem initializer_sound {o : Option Stmt} (h : initializer ts = .done o reports rest) :
    ∃ i : Initializer, ts = i.yield ++ rest ∧ o = i.value ∧ reports = i.reports := by
  rcases dispatch_eq_iff.mp h with ⟨t, tail, q, rfl, hq, hr⟩ | ⟨-, hr⟩
  · unfold initializerAfter at hq
    split at hq
    · rename_i hk
      cases hq
      cases hr
      exact ⟨.none ⟨t, hk⟩, rfl, rfl, rfl⟩
    · rename_i hk
      cases hq
      obtain ⟨_, hv, rfl⟩ := map_eq_done_iff.mp hr
      obtain ⟨v, hy, rfl, rfl⟩ := variableDeclaration_sound ⟨t, hk⟩ hv
      exact ⟨.define v, hy, rfl, rfl⟩
    · cases hq
  · obtain ⟨_, he, rfl⟩ := map_eq_done_iff.mp hr
    obtain ⟨e, semicolon, rfl, rfl, rfl⟩ := expressionStatement_sound he
    exact ⟨.expression e semicolon, by simp [Initializer.yield], rfl, rfl⟩

theorem condition_sound {α : Type} {before after : Expectation} {f : Expr → Parser α} {a : α}
    (h : (do
      let _ ← expect .leftParen before
      let e ← expression
      let _ ← expect .rightParen after
      f e : Parser α) ts = .done a reports rest) :
    ∃ (c : Condition) (middle : List Token) (later : List Report), ts = c.yield ++ middle ∧
      f c.value middle = .done a later rest ∧ reports = c.reports ++ later := by
  obtain ⟨opening, _, rfl, ho, h⟩ := expect_bind_eq_done_iff.mp h
  obtain ⟨_, _, _, later, he, hc, rfl⟩ := bind_eq_done_iff.mp h
  obtain ⟨e, rfl, rfl, rfl⟩ := expression_sound he
  obtain ⟨closing, middle, rfl, hk, hf⟩ := expect_bind_eq_done_iff.mp hc
  exact ⟨⟨⟨opening, ho⟩, e, ⟨closing, hk⟩⟩, middle, later, by simp [Condition.yield], hf, rfl⟩

/-! ### Parameters -/

theorem nextParameter_sound {params : List Token} {o : Option (List Token)}
    (h : nextParameter params ts = .done o reports rest) :
    (o = none ∧ reports = [] ∧ ts = rest) ∨
      ∃ (name : Terminal .identifier) (tail : List Token), ts = name.1 :: tail := by
  rcases nextIs_bind_eq_iff.mp h with ⟨_, _, rfl, -, hn⟩ | ⟨-, hn⟩
  · cases hn
    exact Or.inl ⟨rfl, rfl, rfl⟩
  · obtain ⟨name, tail, rfl, hk, -⟩ := expect_bind_eq_done_iff.mp hn
    exact Or.inr ⟨⟨name, hk⟩, tail, rfl⟩

theorem moreParameters_sound {params final : List Token}
    (h : Steps moreParameters params ts reports final rest) (read : List Token)
    (hp : params = read.take mostParameters) :
    ∃ (more : List (Terminal .comma × Terminal .identifier)) (trailing : Option (Terminal .comma)),
      ts = more.flatMap (fun e => [e.1.1, e.2.1]) ++
        ((trailing.map Subtype.val).toList ++ rest) ∧
      final = (read ++ more.map (·.2.1)).take mostParameters ∧
      reports = surplusReports read (more.map (·.2.1)) := by
  induction h generalizing read with
  | refl params ts => exact ⟨[], none, rfl, by simp [hp], (surplusReports_nil read).symm⟩
  | stop h =>
    rcases accept_bind_eq_iff.mp h with ⟨comma, tail, rfl, hk, hn⟩ | ⟨-, hn⟩
    · rcases nextParameter_sound hn with ⟨-, rfl, rfl⟩ | ⟨name, tail, rfl⟩
      · exact ⟨[], some ⟨comma, by simpa using hk⟩, rfl, by simp [hp],
          (surplusReports_nil read).symm⟩
      · subst hp
        cases (nextParameter_cons read name tail).symm.trans hn
    · cases hn
      exact ⟨[], none, rfl, by simp [hp], (surplusReports_nil read).symm⟩
  | step h _ ih =>
    rcases accept_bind_eq_iff.mp h with ⟨comma, tail, rfl, hk, hn⟩ | ⟨-, hn⟩
    · rcases nextParameter_sound hn with ⟨ho, -, -⟩ | ⟨name, tail, rfl⟩
      · cases ho
      · subst hp
        cases (nextParameter_cons read name tail).symm.trans hn
        obtain ⟨more, trailing, rfl, rfl, rfl⟩ := ih (read ++ [name.1]) rfl
        refine ⟨(⟨comma, by simpa using hk⟩, name) :: more, trailing, rfl, by simp, ?_⟩
        rw [List.map_cons, surplusReports_cons, surplusReports_cons, surplusReports_nil]
        simp
    · cases hn

theorem parameters_sound {params : List Token} (h : parameters ts = .done params reports rest) :
    ∃ p : Parameters, ts = p.yield ++ rest ∧ params = p.value ∧ reports = p.reports := by
  rcases accept_bind_eq_iff.mp h with ⟨name, tail, rfl, hk, hr⟩ | ⟨-, hr⟩
  · have hs := steps_of_repeatFrom hr
    obtain ⟨more, trailing, rfl, rfl, rfl⟩ := moreParameters_sound hs [name] rfl
    have hn : name.kind = .identifier := by simpa using hk
    refine ⟨⟨some ⟨name, hn⟩, more, trailing⟩, ?_, rfl, ?_⟩
    · simp [Parameters.yield]
    · rw [Parameters.reports_eq]
      rfl
  · have hs := steps_of_repeatFrom hr
    obtain ⟨more, trailing, rfl, rfl, rfl⟩ := moreParameters_sound hs [] rfl
    refine ⟨⟨none, more, trailing⟩, ?_, rfl, ?_⟩
    · simp [Parameters.yield]
    · rw [Parameters.reports_eq]
      rfl

/-! ### Statements -/

/-- The tokens before `rest` are those of a statement. If it takes an `else`, none follows. -/
def StatementAt (ts : List Token) (s : Stmt) (reports : List Report) (rest : List Token) : Prop :=
  ∃ (b : Bool) (d : StmtTree (.statement b)), (b = true → Lacks (· == .elseKw) rest) ∧
    ts = d.yield ++ rest ∧ s = d.value ∧ reports = d.reports

def DeclarationAt (ts : List Token) (s : Stmt) (reports : List Report) (rest : List Token) :
    Prop :=
  ∃ d : StmtTree .declaration, ts = d.yield ++ rest ∧ s = d.value ∧ reports = d.reports

def SoundStatement (p : Parser Stmt) : Prop :=
  Ensures p fun ts s reports rest => Clean reports → StatementAt ts s reports rest

/-- Without a structural report nothing is dropped. -/
def SoundDeclaration (p : Parser (Option Stmt)) : Prop :=
  Ensures p fun ts o reports rest => Clean reports →
    ∃ s, o = some s ∧ DeclarationAt ts s reports rest

variable {self : Parser Stmt} {declaration : Parser (Option Stmt)} {s : Stmt}

theorem forStatement_sound (hs : SoundStatement self) (keyword : Terminal .forKw)
    (h : forStatement self keyword.1 ts = .done s reports rest) (hr : Clean reports) :
    StatementAt (keyword.1 :: ts) s reports rest := by
  obtain ⟨opening, _, rfl, ho, h₁⟩ := expect_bind_eq_done_iff.mp h
  obtain ⟨_, _, _, _, hi, h₂, rfl⟩ := bind_eq_done_iff.mp h₁
  obtain ⟨first, rfl, rfl, rfl⟩ := initializer_sound hi
  obtain ⟨_, _, _, _, he, h₃, rfl⟩ := bind_eq_done_iff.mp h₂
  obtain ⟨condition, rfl, rfl, rfl⟩ := expressionUnless_sound he
  obtain ⟨semicolon, _, rfl, hk, h₄⟩ := expect_bind_eq_done_iff.mp h₃
  obtain ⟨_, _, _, _, he, h₅, rfl⟩ := bind_eq_done_iff.mp h₄
  obtain ⟨next, rfl, rfl, rfl⟩ := expressionUnless_sound he
  obtain ⟨closing, _, rfl, hc, h₆⟩ := expect_bind_eq_done_iff.mp h₅
  obtain ⟨_, _, _, _, hb, h₇, rfl⟩ := bind_eq_done_iff.mp h₆
  cases h₇
  rw [List.append_nil] at hr ⊢
  obtain ⟨-, hr⟩ := clean_append.mp hr
  obtain ⟨-, hr⟩ := clean_append.mp hr
  obtain ⟨-, hr⟩ := clean_append.mp hr
  obtain ⟨b, body, hl, rfl, rfl, rfl⟩ := hs hb hr
  refine ⟨b, .forLoop keyword
    ⟨⟨opening, ho⟩, first, condition, ⟨semicolon, hk⟩, next, ⟨closing, hc⟩⟩ body, hl, ?_, rfl, ?_⟩
  · simp [ForClauses.yield]
  · simp [ForClauses.reports]

theorem ifStatement_sound (hs : SoundStatement self) (keyword : Terminal .ifKw)
    (h : ifStatement self keyword.1 ts = .done s reports rest) (hr : Clean reports) :
    StatementAt (keyword.1 :: ts) s reports rest := by
  obtain ⟨c, _, _, rfl, h₁, rfl⟩ := condition_sound h
  obtain ⟨_, _, _, _, ht, h₂, rfl⟩ := bind_eq_done_iff.mp h₁
  obtain ⟨_, _, _, _, ha, h₃, rfl⟩ := bind_eq_done_iff.mp h₂
  cases h₃
  rw [List.append_nil] at hr ⊢
  obtain ⟨-, hr⟩ := clean_append.mp hr
  obtain ⟨hrt, hra⟩ := clean_append.mp hr
  obtain ⟨b, thenBranch, hl, rfl, rfl, rfl⟩ := hs ht hrt
  rcases accept_bind_eq_iff.mp ha with ⟨elseKeyword, _, rfl, hk, hm⟩ | ⟨hn, hm⟩
  · obtain ⟨_, he, rfl⟩ := map_eq_done_iff.mp hm
    obtain ⟨b', elseBranch, hl', rfl, rfl, rfl⟩ := hs he hra
    -- the statement before the `else` has not taken it, so it takes none
    obtain rfl : b = false := by
      cases b with
      | false => rfl
      | true => simp [lacks_cons.mp (hl rfl)] at hk
    refine ⟨b', .ifElse keyword c thenBranch ⟨elseKeyword, by simpa using hk⟩ elseBranch, hl', ?_,
      rfl, rfl⟩
    simp
  · cases hm
    refine ⟨true, .ifThen keyword c thenBranch, fun _ => hn, ?_, rfl, ?_⟩
    · simp
    · simp

theorem whileStatement_sound (hs : SoundStatement self) (keyword : Terminal .whileKw)
    (h : whileStatement self keyword.1 ts = .done s reports rest) (hr : Clean reports) :
    StatementAt (keyword.1 :: ts) s reports rest := by
  obtain ⟨c, _, _, rfl, h₁, rfl⟩ := condition_sound h
  obtain ⟨_, _, _, _, hb, h₂, rfl⟩ := bind_eq_done_iff.mp h₁
  cases h₂
  rw [List.append_nil] at hr ⊢
  obtain ⟨b, body, hl, rfl, rfl, rfl⟩ := hs hb (clean_append.mp hr).2
  exact ⟨b, .whileLoop keyword c body, hl, by simp, rfl, rfl⟩

theorem printStatement_sound (keyword : Terminal .printKw)
    (h : printStatement keyword.1 ts = .done s reports rest) :
    StatementAt (keyword.1 :: ts) s reports rest := by
  obtain ⟨_, _, _, _, he, h₁, rfl⟩ := bind_eq_done_iff.mp h
  obtain ⟨e, rfl, rfl, rfl⟩ := expression_sound he
  obtain ⟨semicolon, _, rfl, hk, h₂⟩ := expect_bind_eq_done_iff.mp h₁
  cases h₂
  refine ⟨false, .print keyword e ⟨semicolon, hk⟩, by simp, ?_, rfl, List.append_nil _⟩
  simp

theorem breakStatement_sound (keyword : Terminal .breakKw)
    (h : breakStatement keyword.1 ts = .done s reports rest) :
    StatementAt (keyword.1 :: ts) s reports rest := by
  obtain ⟨semicolon, _, rfl, hk, h₁⟩ := expect_bind_eq_done_iff.mp h
  cases h₁
  exact ⟨false, .leaveLoop keyword ⟨semicolon, hk⟩, by simp, rfl, rfl, rfl⟩

theorem returnStatement_sound (keyword : Terminal .returnKw)
    (h : returnStatement keyword.1 ts = .done s reports rest) :
    StatementAt (keyword.1 :: ts) s reports rest := by
  obtain ⟨_, _, _, _, he, h₁, rfl⟩ := bind_eq_done_iff.mp h
  obtain ⟨e, rfl, rfl, rfl⟩ := expressionUnless_sound he
  obtain ⟨semicolon, _, rfl, hk, h₂⟩ := expect_bind_eq_done_iff.mp h₁
  cases h₂
  refine ⟨false, .leaveFunction keyword e ⟨semicolon, hk⟩, by simp, ?_, rfl,
    List.append_nil _⟩
  simp

/-! ### Declarations -/

theorem moreDeclarations_sound (hd : SoundDeclaration declaration) {isEnd : Option Kind → Bool}
    {body final : List Stmt}
    (h : Steps (moreDeclarations isEnd declaration) body ts reports final rest)
    (hr : Clean reports) :
    ∃ d : StmtTree .declarations,
      ts = d.yield ++ rest ∧ final = body ++ d.value ∧ reports = d.reports := by
  induction h with
  | refl body ts => exact ⟨.nil, rfl, (List.append_nil _).symm, rfl⟩
  | stop h =>
    rw [moreDeclarations, peek_bind] at h
    split at h
    · cases h
      exact ⟨.nil, rfl, (List.append_nil _).symm, rfl⟩
    · obtain ⟨_, _, _, _, -, h₁, -⟩ := bind_eq_done_iff.mp h
      cases h₁
  | step h _ ih =>
    obtain ⟨hrf, hrm⟩ := clean_append.mp hr
    obtain ⟨more, rfl, rfl, rfl⟩ := ih hrm
    rw [moreDeclarations, peek_bind] at h
    split at h
    · cases h
    · obtain ⟨_, _, _, _, hf, h₁, rfl⟩ := bind_eq_done_iff.mp h
      cases h₁
      rw [List.append_nil] at hrf ⊢
      obtain ⟨_, rfl, first, rfl, rfl, rfl⟩ := hd hf hrf
      exact ⟨.cons first more, by simp, by simp, rfl⟩

theorem blockOf_sound (hd : SoundDeclaration declaration) {stmts : List Stmt}
    (h : blockOf declaration ts = .done stmts reports rest) (hr : Clean reports) :
    ∃ (body : StmtTree .declarations) (closing : Terminal .rightBrace),
      ts = body.yield ++ closing.1 :: rest ∧ stmts = body.value ∧ reports = body.reports := by
  obtain ⟨_, _, _, _, hb, h₁, rfl⟩ := bind_eq_done_iff.mp h
  obtain ⟨closing, _, rfl, hk, h₂⟩ := expect_bind_eq_done_iff.mp h₁
  cases h₂
  rw [List.append_nil] at hr ⊢
  obtain ⟨body, rfl, rfl, rfl⟩ := moreDeclarations_sound hd (steps_of_repeatFrom hb) hr
  exact ⟨body, ⟨closing, hk⟩, rfl, rfl, rfl⟩

theorem functionDeclaration_sound (hd : SoundDeclaration declaration)
    (keyword : Terminal .functionKw)
    (h : functionDeclaration declaration ts = .done s reports rest) (hr : Clean reports) :
    DeclarationAt (keyword.1 :: ts) s reports rest := by
  obtain ⟨name, _, rfl, hn, h₁⟩ := expect_bind_eq_done_iff.mp h
  obtain ⟨opening, _, rfl, ho, h₂⟩ := expect_bind_eq_done_iff.mp h₁
  obtain ⟨_, _, _, _, hp, h₃, rfl⟩ := bind_eq_done_iff.mp h₂
  obtain ⟨params, rfl, rfl, rfl⟩ := parameters_sound hp
  obtain ⟨closing, _, rfl, hc, h₄⟩ := expect_bind_eq_done_iff.mp h₃
  obtain ⟨openingBrace, _, rfl, hob, h₅⟩ := expect_bind_eq_done_iff.mp h₄
  obtain ⟨_, _, _, _, hb, h₆, rfl⟩ := bind_eq_done_iff.mp h₅
  cases h₆
  rw [List.append_nil] at hr ⊢
  obtain ⟨body, closingBrace, rfl, rfl, rfl⟩ := blockOf_sound hd hb (clean_append.mp hr).2
  refine ⟨.function keyword ⟨name, hn⟩ ⟨opening, ho⟩ params ⟨closing, hc⟩ ⟨openingBrace, hob⟩ body
    closingBrace, ?_, rfl, rfl⟩
  simp

theorem declarationBody_sound (hs : SoundStatement self) (hd : SoundDeclaration declaration)
    (h : declarationBody self declaration ts = .done s reports rest) (hr : Clean reports) :
    DeclarationAt ts s reports rest := by
  rcases dispatch_eq_iff.mp h with ⟨t, tail, q, rfl, hq, h⟩ | ⟨-, h⟩
  · unfold declarationAfter at hq
    split at hq
    · rename_i hk
      cases hq
      exact functionDeclaration_sound hd ⟨t, hk⟩ h hr
    · rename_i hk
      cases hq
      obtain ⟨v, hy, rfl, rfl⟩ := variableDeclaration_sound ⟨t, hk⟩ h
      exact ⟨.define v, hy, rfl, rfl⟩
    · cases hq
  · obtain ⟨b, d, -, rfl, rfl, rfl⟩ := hs h hr
    exact ⟨.statement d, rfl, rfl, rfl⟩

theorem declarationOf_sound (hs : SoundStatement self) : SoundDeclaration (declarationOf self) := by
  refine Ensures.fixed ?_
  intro inner hi ts o reports rest h hr
  cases o with
  | some s =>
    have hb := recovering_eq_some_iff.mp h
    exact ⟨s, rfl, declarationBody_sound hs hi hb hr⟩
  | none =>
    obtain ⟨missing, earlier, left, -, rfl, -⟩ := recovering_eq_none_iff.mp h
    have hn := hr _ (List.mem_append_right _ (List.mem_singleton_self _))
    cases hn

theorem statementBody_sound (hs : SoundStatement self) : SoundStatement (statementBody self) := by
  intro ts s reports rest h hr
  rcases dispatch_eq_iff.mp h with ⟨t, tail, q, rfl, hq, h⟩ | ⟨-, h⟩
  · unfold statementAfter at hq
    split at hq
    · rename_i hk
      cases hq
      exact forStatement_sound hs ⟨t, hk⟩ h hr
    · rename_i hk
      cases hq
      exact ifStatement_sound hs ⟨t, hk⟩ h hr
    · rename_i hk
      cases hq
      exact printStatement_sound ⟨t, hk⟩ h
    · rename_i hk
      cases hq
      exact breakStatement_sound ⟨t, hk⟩ h
    · rename_i hk
      cases hq
      exact returnStatement_sound ⟨t, hk⟩ h
    · rename_i hk
      cases hq
      exact whileStatement_sound hs ⟨t, hk⟩ h hr
    · rename_i hk
      cases hq
      obtain ⟨_, hb, rfl⟩ := map_eq_done_iff.mp h
      obtain ⟨body, closing, rfl, rfl, rfl⟩ := blockOf_sound (declarationOf_sound hs) hb hr
      refine ⟨false, .block ⟨t, hk⟩ body closing, by simp, ?_, rfl, rfl⟩
      simp
    · cases hq
  · obtain ⟨e, semicolon, rfl, rfl, rfl⟩ := expressionStatement_sound h
    refine ⟨false, .expression e semicolon, by simp, ?_, rfl, rfl⟩
    simp

theorem statement_sound : SoundStatement statement := Ensures.fixed fun _ => statementBody_sound

/-- A program that is read without a structural report is the yield of a derivation. -/
theorem program_sound {stmts : List Stmt} (h : program ts = .done stmts reports rest)
    (hr : Clean reports) :
    ∃ d : Program, ts = d.yield ++ rest ∧ stmts = d.value ∧ reports = d.reports :=
  moreDeclarations_sound (declarationOf_sound statement_sound) (steps_of_repeatFrom h) hr

/-- If parsing reports nothing structural, the tokens before the first end of input are exactly
those of a program, and its statements and problems are what parsing gives. -/
theorem exists_program_of_parse {ts : List Token}
    (h : ∀ d ∈ (Cursor.ofTokens ts).parse.diagnostics, d.problem.isStructural = false) :
    ∃ d : Program, d.yield = ts.takeWhile (·.kind != .eof) ∧
      (Cursor.ofTokens ts).parse.result = d.value ∧
      (Cursor.ofTokens ts).parse.diagnostics = (Cursor.ofTokens ts).located d.reports := by
  obtain ⟨stmts, reports, hp⟩ := exists_program_eq_done (Cursor.ofTokens ts).rest
  rw [Cursor.parse_eq hp] at h ⊢
  have hr : Clean reports := by
    intro r hr
    exact h _ (List.mem_map_of_mem hr)
  obtain ⟨d, hy, rfl, rfl⟩ := program_sound hp hr
  rw [List.append_nil] at hy
  exact ⟨d, hy.symm, rfl, rfl⟩

/-- `if (a) if (b) 0 = c; else print "";` and a semicolon after the end of input. -/
def danglingElse : List Token :=
  [.ifKw, .leftParen, .identifier, .rightParen, .ifKw, .leftParen, .identifier, .rightParen,
    .number, .equal, .identifier, .semicolon, .elseKw, .printKw, .string, .semicolon, .eof,
    .semicolon].map fun kind => ⟨kind, [], 1, .null⟩

theorem exists_program_of_danglingElse :
    (∀ d ∈ (Cursor.ofTokens danglingElse).parse.diagnostics, d.problem.isStructural = false) ∧
      ∃ d : Program, d.yield = danglingElse.takeWhile (·.kind != .eof) ∧
        (Cursor.ofTokens danglingElse).parse.result = d.value ∧
        (Cursor.ofTokens danglingElse).parse.diagnostics =
          (Cursor.ofTokens danglingElse).located d.reports := by
  have h : ∀ d ∈ (Cursor.ofTokens danglingElse).parse.diagnostics,
      d.problem.isStructural = false := by
    decide
  exact ⟨h, exists_program_of_parse h⟩

end ScriptFront.Grammar
