import ScriptFront.Proofs.NormalForm.Basic
import ScriptFront.Proofs.Soundness.Program
import ScriptFront.Tree.Render

/-! # Loops written out

A `for` stands for a `while` with the clauses around it and in its body. If the parts of a `for`
are parsed without a diagnostic, each in its role, then so are the `for` and the loop written out,
and the two statements have the same text. The parts are derivations of the grammar, from which both
loops are put together.
-/

namespace ScriptFront

open Parse ScriptFront.Parser

/-- The tokens are parsed as one statement, and nothing is reported. -/
structure ParsesTo (ts : List Token) (s : Stmt) : Prop where
  withoutEnd : WithoutEnd ts
  result : (Cursor.ofTokens ts).parse.result = [s]
  diagnostics : (Cursor.ofTokens ts).parse.diagnostics = []

/-- The tokens are read as one expression up to the last of them, and nothing is reported. -/
structure ReadsAs (ts : List Token) (e : Expr) : Prop where
  withoutEnd : WithoutEnd ts
  result : (Cursor.ofTokens ts).parseExpression.result = .ok e
  diagnostics : (Cursor.ofTokens ts).parseExpression.diagnostics = []
  rest : (Cursor.ofTokens ts).parseExpression.cursor.rest = []

structure LoopParts where
  first : List Token
  condition : Option (List Token)
  next : Option (List Token)
  body : List Token

def Stmt.isInitializer : Stmt → Bool
  | .define .. | .expression _ => true
  | _ => false

namespace LoopParts

def LacksFirst (p : LoopParts) : Prop := p.first.map Token.kind = [.semicolon]

instance (p : LoopParts) : Decidable p.LacksFirst := inferInstanceAs (Decidable (_ = _))

/-- Each part is parsed in its role without a diagnostic. -/
structure AreParsed (p : LoopParts) : Prop where
  first : p.LacksFirst ∨ ∃ s, ParsesTo p.first s ∧ s.isInitializer = true
  condition : ∀ ts ∈ p.condition, ∃ e, ReadsAs ts e
  next : ∀ ts ∈ p.next, ∃ e, ReadsAs ts e
  body : ∃ s, ParsesTo p.body s ∧ s.isDeclaration = false

end LoopParts

namespace Grammar

/-- The tokens of a `for` that belong to none of its parts. -/
structure ForWords where
  keyword : Terminal .forKw
  opening : Terminal .leftParen
  semicolon : Terminal .semicolon
  closing : Terminal .rightParen

/-- The tokens of a loop written out that belong to none of its parts. -/
structure WhileWords where
  keyword : Terminal .whileKw
  opening : Terminal .leftParen
  always : Terminal .trueKw
  closing : Terminal .rightParen
  bodyOpening : Terminal .leftBrace
  semicolon : Terminal .semicolon
  bodyClosing : Terminal .rightBrace
  wholeOpening : Terminal .leftBrace
  wholeClosing : Terminal .rightBrace

end Grammar

open Grammar

namespace LoopParts

/-- `for ( first condition ; next ) body` -/
def forLoop (p : LoopParts) (w : ForWords) : List Token :=
  w.keyword.1 :: w.opening.1 :: (p.first ++ (p.condition.getD [] ++
    w.semicolon.1 :: (p.next.getD [] ++ w.closing.1 :: p.body)))

/-- `body`, or `{ body next ; }` -/
def writtenBody (p : LoopParts) (w : WhileWords) : List Token :=
  match p.next with
  | none => p.body
  | some next => w.bodyOpening.1 :: (p.body ++ (next ++ [w.semicolon.1, w.bodyClosing.1]))

/-- `while ( condition ) body`, where a missing condition is `true` -/
def writtenLoop (p : LoopParts) (w : WhileWords) : List Token :=
  w.keyword.1 :: w.opening.1 :: (p.condition.getD [w.always.1] ++
    w.closing.1 :: p.writtenBody w)

/-- The loop alone, or `{ first loop }` -/
def writtenOut (p : LoopParts) (w : WhileWords) : List Token :=
  if p.LacksFirst then p.writtenLoop w
  else w.wholeOpening.1 :: (p.first ++ (p.writtenLoop w ++ [w.wholeClosing.1]))

end LoopParts

namespace Grammar

/-! ### The parts are derivations -/

theorem exists_declaration_of_parsesTo {ts : List Token} {s : Stmt} (h : ParsesTo ts s) :
    ∃ d : StmtTree .declaration, d.yield = ts ∧ d.value = s ∧ d.reports = [] := by
  have hrest : (Cursor.ofTokens ts).rest = ts := Cursor.takeWhile_of_withoutEnd h.withoutEnd
  obtain ⟨stmts, reports, hp⟩ := exists_program_eq_done (Cursor.ofTokens ts).rest
  have hresult := h.result
  have hdiagnostics := h.diagnostics
  rw [Cursor.parse_eq hp] at hresult hdiagnostics
  obtain rfl : stmts = [s] := hresult
  obtain rfl : reports = [] := List.map_eq_nil_iff.mp hdiagnostics
  obtain ⟨d, hy, hv, hr⟩ := program_sound hp (by simp [Clean])
  rw [hrest, List.append_nil] at hy
  cases d with
  | nil => cases hv
  | cons first more =>
    cases more with
    | cons => cases hv
    | nil =>
      obtain ⟨rfl, -⟩ := List.cons.inj hv
      exact ⟨first, by simpa using hy.symm, rfl, by simpa using hr.symm⟩

theorem parsesTo_declaration (d : StmtTree .declaration) (hr : d.reports = []) :
    ParsesTo d.yield d.value := by
  have hp := (StmtTree.cons d .nil).program_yield
  have hc : (Cursor.ofTokens d.yield).rest = d.yield :=
    Cursor.takeWhile_of_withoutEnd d.withoutEnd_yield
  simp only [StmtTree.yield, StmtTree.value, StmtTree.reports, List.append_nil, hr] at hp
  rw [← hc] at hp
  refine ⟨d.withoutEnd_yield, ?_, ?_⟩
  · rw [Cursor.parse_eq hp]
  · rw [Cursor.parse_eq hp]
    rfl

theorem exists_expression_of_readsAs {ts : List Token} {e : Expr} (h : ReadsAs ts e) :
    ∃ d : Expression, d.yield = ts ∧ d.reports = [] := by
  have hrest : (Cursor.ofTokens ts).rest = ts := Cursor.takeWhile_of_withoutEnd h.withoutEnd
  obtain ⟨-, hresult, hdiagnostics, hall⟩ := h
  rw [Cursor.parseExpression, hrest] at hresult hdiagnostics hall
  cases hx : expression ts with
  | failed missing reports rest =>
    rw [hx] at hresult
    cases hresult
  | done value reports rest =>
    rw [hx] at hdiagnostics hall
    obtain rfl : reports = [] := List.map_eq_nil_iff.mp hdiagnostics
    obtain rfl : rest = [] := hall
    obtain ⟨d, hy, -, hr⟩ := expression_sound hx
    rw [List.append_nil] at hy
    exact ⟨d, hy.symm, hr.symm⟩

theorem exists_optional_of_readsAs {o : Option (List Token)}
    (h : ∀ ts ∈ o, ∃ e, ReadsAs ts e) :
    ∃ d : OptionalExpression, o = d.map ExprTree.yield ∧ d.reports = [] := by
  cases o with
  | none => exact ⟨none, rfl, rfl⟩
  | some ts =>
    obtain ⟨e, he⟩ := h ts rfl
    obtain ⟨d, hy, hr⟩ := exists_expression_of_readsAs he
    exact ⟨some d, congrArg some hy.symm, hr⟩

/-- Only a variable declaration or an expression with its semicolon is parsed to such a
statement. -/
theorem exists_initializer {d : StmtTree .declaration} (h : d.value.isInitializer = true) :
    ∃ i : Initializer, i.yield = d.yield ∧ i.reports = d.reports := by
  cases d with
  | function => cases h
  | define v => exact ⟨.define v, rfl, rfl⟩
  | statement s =>
    cases s with
    | expression e semicolon => exact ⟨.expression e semicolon, rfl, rfl⟩
    | forLoop keyword clauses body =>
      simp only [StmtTree.value, ForClauses.value] at h
      split at h <;> cases h
    | _ => cases h

theorem exists_statement {d : StmtTree .declaration} (h : d.value.isDeclaration = false) :
    ∃ b, ∃ s : StmtTree (.statement b), s.yield = d.yield ∧ s.reports = d.reports := by
  cases d with
  | function => cases h
  | define v => cases h
  | statement s => exact ⟨_, s, rfl, rfl⟩

/-- Derivations of the parts of a loop, on which nothing has to be reported. -/
structure LoopTrees (p : LoopParts) where
  first : Initializer
  condition : OptionalExpression
  next : OptionalExpression
  takesElse : Bool
  body : StmtTree (.statement takesElse)
  first_yield : first.yield = p.first
  condition_yield : condition.map ExprTree.yield = p.condition
  next_yield : next.map ExprTree.yield = p.next
  body_yield : body.yield = p.body
  first_reports : first.reports = []
  condition_reports : condition.reports = []
  next_reports : next.reports = []
  body_reports : body.reports = []

theorem nonempty_loopTrees {p : LoopParts} (h : p.AreParsed) : Nonempty (LoopTrees p) := by
  obtain ⟨i, hi, hir⟩ : ∃ i : Initializer, i.yield = p.first ∧ i.reports = [] := by
    rcases h.first with hl | ⟨s, hs, hk⟩
    · obtain ⟨t, ht, hk⟩ := List.map_eq_singleton_iff.mp hl
      exact ⟨.none ⟨t, hk⟩, ht.symm, rfl⟩
    · obtain ⟨d, hy, rfl, hr⟩ := exists_declaration_of_parsesTo hs
      obtain ⟨i, hi, hir⟩ := exists_initializer hk
      exact ⟨i, hi.trans hy, hir.trans hr⟩
  obtain ⟨c, hc, hcr⟩ := exists_optional_of_readsAs h.condition
  obtain ⟨n, hn, hnr⟩ := exists_optional_of_readsAs h.next
  obtain ⟨s, hs, hk⟩ := h.body
  obtain ⟨d, hy, rfl, hr⟩ := exists_declaration_of_parsesTo hs
  obtain ⟨b, body, hb, hbr⟩ := exists_statement hk
  exact ⟨⟨i, c, n, b, body, hi, hc.symm, hn.symm, hb.trans hy, hir, hcr, hnr, hbr.trans hr⟩⟩

/-! ### The two loops -/

def Expression.ofAtom (t : TerminalOf isAtom) : Expression :=
  .unassigned (.chain (.chain (.chain (.chain (.chain (.chain
    (.unsigned (.call (.atom t) .noCalls))
    .noOperations) .noOperations) .noOperations) .noOperations) .noOperations) .noOperations)

namespace LoopTrees

variable {p : LoopParts} (d : LoopTrees p)

def forTree (w : ForWords) : StmtTree .declaration :=
  .statement (.forLoop w.keyword
    ⟨w.opening, d.first, d.condition, w.semicolon, d.next, w.closing⟩ d.body)

def conditionTree (w : WhileWords) : Condition :=
  ⟨w.opening, d.condition.getD (.ofAtom ⟨w.always.1, by rw [w.always.2]; rfl⟩), w.closing⟩

def bodyTree (w : WhileWords) : Σ b, StmtTree (.statement b) :=
  match d.next with
  | none => ⟨d.takesElse, d.body⟩
  | some next => ⟨false, .block w.bodyOpening
      (.cons (.statement d.body) (.cons (.statement (.expression next w.semicolon)) .nil))
      w.bodyClosing⟩

def loopTree (w : WhileWords) : StmtTree .declaration :=
  .statement (.whileLoop w.keyword (d.conditionTree w) (d.bodyTree w).2)

def blockTree (w : WhileWords) (first : StmtTree .declaration) : StmtTree .declaration :=
  .statement (.block w.wholeOpening (.cons first (.cons (d.loopTree w) .nil)) w.wholeClosing)

def writtenTree (w : WhileWords) : StmtTree .declaration :=
  match d.first with
  | .none _ => d.loopTree w
  | .define v => d.blockTree w (.define v)
  | .expression e semicolon => d.blockTree w (.statement (.expression e semicolon))

/-! ### Their tokens -/

theorem yield_forTree (w : ForWords) : (d.forTree w).yield = p.forLoop w := by
  simp [forTree, ForClauses.yield, OptionalExpression.yield, LoopParts.forLoop, d.first_yield,
    d.condition_yield, d.next_yield, d.body_yield]

theorem yield_conditionTree (w : WhileWords) :
    (d.conditionTree w).yield =
      w.opening.1 :: (p.condition.getD [w.always.1] ++ [w.closing.1]) := by
  rw [← d.condition_yield]
  cases h : d.condition with
  | none => simp [conditionTree, h, Condition.yield, Expression.ofAtom]
  | some e => simp [conditionTree, h, Condition.yield]

theorem yield_bodyTree (w : WhileWords) : (d.bodyTree w).2.yield = p.writtenBody w := by
  rw [LoopParts.writtenBody, ← d.next_yield, bodyTree]
  cases h : d.next with
  | none => simp [d.body_yield]
  | some e => simp [d.body_yield]

theorem yield_loopTree (w : WhileWords) : (d.loopTree w).yield = p.writtenLoop w := by
  simp [loopTree, yield_conditionTree, yield_bodyTree, LoopParts.writtenLoop]

theorem lacksFirst_iff : p.LacksFirst ↔ ∃ semicolon, d.first = .none semicolon := by
  rw [LoopParts.LacksFirst, ← d.first_yield]
  cases d.first with
  | none semicolon => simp [Initializer.yield, semicolon.2]
  | define v => simp [Initializer.yield, Variable.yield, v.keyword.2]
  | expression e semicolon =>
    obtain ⟨t, tail, hy, -⟩ := e.exists_yield_eq_cons
    simp [Initializer.yield, hy]

theorem yield_writtenTree (w : WhileWords) : (d.writtenTree w).yield = p.writtenOut w := by
  have hfirst := d.lacksFirst_iff
  rw [LoopParts.writtenOut, ← d.first_yield, writtenTree]
  cases h : d.first with
  | none semicolon => simp [hfirst, h, yield_loopTree]
  | define v => simp [hfirst, h, blockTree, yield_loopTree, Initializer.yield]
  | expression e semicolon => simp [hfirst, h, blockTree, yield_loopTree, Initializer.yield]

/-! ### Their reports -/

theorem reports_forTree (w : ForWords) : (d.forTree w).reports = [] := by
  simp [forTree, ForClauses.reports, d.first_reports, d.condition_reports, d.next_reports,
    d.body_reports]

theorem reports_loopTree (w : WhileWords) : (d.loopTree w).reports = [] := by
  have hcondition : (d.conditionTree w).reports = [] := by
    have h := d.condition_reports
    cases hc : d.condition with
    | none => simp [conditionTree, hc, Condition.reports, Expression.ofAtom]
    | some e => simpa [conditionTree, hc, Condition.reports, OptionalExpression.reports] using h
  have hbody : (d.bodyTree w).2.reports = [] := by
    have h := d.next_reports
    rw [bodyTree]
    cases hn : d.next with
    | none => exact d.body_reports
    | some e => simpa [hn, d.body_reports, OptionalExpression.reports] using h
  simp [loopTree, hcondition, hbody]

theorem reports_writtenTree (w : WhileWords) : (d.writtenTree w).reports = [] := by
  have h := d.first_reports
  rw [writtenTree]
  cases hf : d.first with
  | none semicolon => exact d.reports_loopTree w
  | define v => simpa [hf, blockTree, d.reports_loopTree w, Initializer.reports] using h
  | expression e semicolon =>
    simpa [hf, blockTree, d.reports_loopTree w, Initializer.reports] using h

/-! ### Their texts -/

theorem render_conditionTree (w : WhileWords) (keyword : Token) :
    (d.conditionTree w).value.render =
      (d.condition.value.getD (.literal keyword (.bool true))).render := by
  cases h : d.condition with
  | none =>
    simp [conditionTree, h, Condition.value, Expression.ofAtom, OptionalExpression.value, atomValue,
      literalValue, w.always.2, Expr.render]
  | some e => simp [conditionTree, h, Condition.value, OptionalExpression.value]

theorem render_loopTree (w : WhileWords) (keyword : Token) :
    (d.loopTree w).value.render =
      (forLoop keyword none d.condition.value d.next.value d.body.value).render := by
  have hcondition := d.render_conditionTree w keyword
  simp only [loopTree, StmtTree.value, bodyTree, forLoop, Stmt.render]
  rw [hcondition]
  cases h : d.next with
  | none => simp [OptionalExpression.value]
  | some e => simp [OptionalExpression.value, Stmt.render, Stmt.renderAll]

theorem render_forTree_eq (w : ForWords) (w' : WhileWords) :
    (d.forTree w).value.render = (d.writtenTree w').value.render := by
  have hloop := d.render_loopTree w' w.keyword.1
  have hvalue : (d.forTree w).value = forLoop w.keyword.1 d.first.value d.condition.value
    d.next.value d.body.value := rfl
  rw [hvalue, writtenTree]
  cases h : d.first with
  | none semicolon => exact hloop.symm
  | define v | expression e semicolon =>
    simp only [blockTree, StmtTree.value, Stmt.render, Stmt.renderAll]
    rw [hloop]
    simp [forLoop, Initializer.value, Stmt.render, Stmt.renderAll]

end LoopTrees

end Grammar

/-- A `for` equals the loop it stands for, written out. If the parts of a `for` are parsed without a
diagnostic, each in its role, then the `for` is parsed as one statement without a diagnostic, so is
the `while` that is written out with the same parts, and the two statements have the same text. -/
theorem forLoop_parses_as_writtenOut {p : LoopParts} (h : p.AreParsed) (w : ForWords)
    (w' : WhileWords) :
    ∃ s s', ParsesTo (p.forLoop w) s ∧ ParsesTo (p.writtenOut w') s' ∧ s.render = s'.render := by
  obtain ⟨d⟩ := nonempty_loopTrees h
  have hfor := parsesTo_declaration (d.forTree w) (d.reports_forTree w)
  have hwritten := parsesTo_declaration (d.writtenTree w') (d.reports_writtenTree w')
  rw [d.yield_forTree] at hfor
  rw [d.yield_writtenTree] at hwritten
  exact ⟨_, _, hfor, hwritten, d.render_forTree_eq w w'⟩

/-- In `for (var i = 0; ; i += 1) if (i) print i;` the condition is missing, and the body could take
an `else`. It is `{ var i = 0; while (true) { if (i) print i; i += 1; } }`. -/
theorem forLoop_parses_as_writtenOut_danglingIf :
    let word (kind : Kind) : Grammar.Terminal kind := ⟨⟨kind, [], 1, .null⟩, rfl⟩
    let p : LoopParts := {
      first := [(word .varKw).1, (word .identifier).1, (word .equal).1, (word .number).1,
        (word .semicolon).1]
      condition := none
      next := some [(word .identifier).1, (word .plusEqual).1, (word .number).1]
      body := [(word .ifKw).1, (word .leftParen).1, (word .identifier).1, (word .rightParen).1,
        (word .printKw).1, (word .identifier).1, (word .semicolon).1] }
    let w : ForWords := ⟨word _, word _, word _, word _⟩
    let w' : WhileWords :=
      ⟨word _, word _, word _, word _, word _, word _, word _, word _, word _⟩
    p.AreParsed ∧ ∃ s s', ParsesTo (p.forLoop w) s ∧ ParsesTo (p.writtenOut w') s' ∧
      s.render = s'.render := by
  intro word p w w'
  have h : p.AreParsed := {
    first := .inr ⟨_, ⟨by unfold WithoutEnd; decide, rfl, rfl⟩, rfl⟩
    condition := by simp [p]
    next := by
      intro ts hts
      obtain rfl : _ = ts := Option.some.inj hts
      exact ⟨_, by unfold WithoutEnd; decide, rfl, rfl, rfl⟩
    body := ⟨_, ⟨by unfold WithoutEnd; decide, rfl, rfl⟩, rfl⟩ }
  exact ⟨h, forLoop_parses_as_writtenOut h w w'⟩

end ScriptFront
