import ScriptFront.Proofs.Correspondence.Expression
import ScriptFront.Proofs.Slice.Safety
import ScriptFront.Token.Scan

/-! # Programs correspond

The parser looks at nothing of a token but its kind. So lists of tokens of the same kinds are read
alike, by whatever calls: the answers are built alike from tokens at the same places, the problems
are the same at the same places, and the cursors move together.
-/

namespace ScriptFront

open Parse ScriptFront.Parser

variable {R : Token → Token → Prop}

namespace Parse

section Statements

variable (hR : SameKinds R)

include hR

theorem expressionStatement_alike :
    Alike R (Stmt.Alike R) expressionStatement expressionStatement :=
  (expression_alike hR).bind fun _ _ he => (Alike.expect hR _ _).bind fun _ _ _ =>
    .pure (.expression he)

theorem initialValue_alike :
    Alike R (Option.Rel (Expr.Alike R)) initialValue initialValue := by
  refine (Alike.accept hR _).bind fun t t' ht => ?_
  cases ht with
  | none => exact .pure .none
  | some _ => exact (expression_alike hR).map fun _ _ he => .some he

theorem variableDeclaration_alike :
    Alike R (Stmt.Alike R) variableDeclaration variableDeclaration := by
  refine (Alike.expect hR _ _).bind fun name name' hn => ?_
  refine (initialValue_alike hR).bind fun initial initial' hi => ?_
  exact (Alike.expect hR _ _).bind fun _ _ _ => .pure (.define hn hi)

theorem expressionUnless_alike (stop : Kind) :
    Alike R (Option.Rel (Expr.Alike R)) (expressionUnless stop) (expressionUnless stop) := by
  refine (Alike.nextIs hR _).bind fun b b' hb => ?_
  subst hb
  cases b with
  | true => exact .pure .none
  | false => exact (expression_alike hR).map fun _ _ he => .some he

theorem initializer_alike : Alike R (Option.Rel (Stmt.Alike R)) initializer initializer := by
  refine .dispatch (fun t u ht => ?_) ((expressionStatement_alike hR).map fun _ _ hs => .some hs)
  unfold initializerAfter
  rw [hR ht]
  split
  · exact .some (.pure .none)
  · exact .some ((variableDeclaration_alike hR).map fun _ _ hs => .some hs)
  · exact .none

omit hR in
theorem forLoop_alike {keyword keyword' : Token} {first first' : Option Stmt}
    {condition condition' next next' : Option Expr} {body body' : Stmt}
    (hk : keyword.kind = .forKw) (hkey : R keyword keyword')
    (hf : Option.Rel (Stmt.Alike R) first first')
    (hc : Option.Rel (Expr.Alike R) condition condition')
    (hn : Option.Rel (Expr.Alike R) next next') (hb : body.Alike R body') :
    (forLoop keyword first condition next body).Alike R
      (forLoop keyword' first' condition' next' body') := by
  have hcondition : (condition.getD (.literal keyword (.bool true))).Alike R
      (condition'.getD (.literal keyword' (.bool true))) := by
    cases hc with
    | none => exact .literal hkey (by simp [LiteralAlike, hk])
    | some he => exact he
  have hloop {inner inner' : Stmt} (hi : inner.Alike R inner') :
      (forLoop keyword first condition none inner).Alike R
        (forLoop keyword' first' condition' none inner') := by
    cases hf with
    | none => exact .loop hkey hcondition hi
    | some hs => exact .block hkey (.cons hs (.cons (.loop hkey hcondition hi) .nil))
  cases hn with
  | none => exact hloop hb
  | some he => exact hloop (.block hkey (.cons hb (.cons (.expression he) .nil)))

theorem nextParameter_alike {params params' : List Token} (hp : List.Forall₂ R params params') :
    Alike R (Option.Rel (List.Forall₂ R)) (nextParameter params) (nextParameter params') := by
  refine (Alike.nextIs hR _).bind fun b b' hb => ?_
  subst hb
  cases b with
  | true => exact .pure .none
  | false =>
    refine (Alike.expect hR _ _).bind fun param param' hparam => ?_
    rw [hp.length_eq]
    split
    · exact (Alike.report (.some hparam) _).bind fun _ _ _ => .pure (.some hp)
    · exact .pure (.some (List.rel_append hp (.cons hparam .nil)))

theorem parameters_alike : Alike R (List.Forall₂ R) parameters parameters := by
  have hstep (params params' : List Token) (hp : List.Forall₂ R params params') :
      Alike R (Option.Rel (List.Forall₂ R)) (moreParameters params) (moreParameters params') := by
    refine (Alike.accept hR _).bind fun comma comma' hc => ?_
    cases hc with
    | none => exact .pure .none
    | some _ => exact nextParameter_alike hR hp
  refine (Alike.accept hR _).bind fun first first' hf => .repeatFrom hstep ?_
  cases hf with
  | none => exact .nil
  | some hf => exact .cons hf .nil

theorem declarations_alike {isEnd : Option Kind → Bool} {d d' : Parser (Option Stmt)}
    (hd : Alike R (Option.Rel (Stmt.Alike R)) d d') :
    Alike R (List.Forall₂ (Stmt.Alike R)) (declarations isEnd d) (declarations isEnd d') := by
  refine .repeatFrom (fun body body' hb => Alike.peek.bind fun t t' ht => ?_) .nil
  rw [hR.map_kind ht]
  split
  · exact .pure .none
  · refine hd.bind fun o o' ho => .pure (.some (List.rel_append hb ?_))
    cases ho with
    | none => exact .nil
    | some hs => exact .cons hs .nil

theorem blockOf_alike {d d' : Parser (Option Stmt)}
    (hd : Alike R (Option.Rel (Stmt.Alike R)) d d') :
    Alike R (List.Forall₂ (Stmt.Alike R)) (blockOf d) (blockOf d') :=
  (declarations_alike hR hd).bind fun _ _ hb => (Alike.expect hR _ _).bind fun _ _ _ => .pure hb

theorem functionDeclaration_alike {d d' : Parser (Option Stmt)}
    (hd : Alike R (Option.Rel (Stmt.Alike R)) d d') :
    Alike R (Stmt.Alike R) (functionDeclaration d) (functionDeclaration d') := by
  refine (Alike.expect hR _ _).bind fun name name' hn => ?_
  refine (Alike.expect hR _ _).bind fun _ _ _ => ?_
  refine (parameters_alike hR).bind fun params params' hp => ?_
  refine (Alike.expect hR _ _).bind fun _ _ _ => (Alike.expect hR _ _).bind fun _ _ _ => ?_
  exact (blockOf_alike hR hd).map fun _ _ hb => .function hn hp hb

section Inside

variable {p q : Parser Stmt} (h : Alike R (Stmt.Alike R) p q)

include h

theorem declarationOf_alike :
    Alike R (Option.Rel (Stmt.Alike R)) (declarationOf p) (declarationOf q) := by
  refine .fixed fun d d' hd => .recovering hR (.dispatch (fun t u ht => ?_) h)
  unfold declarationAfter
  rw [hR ht]
  split
  · exact .some (functionDeclaration_alike hR hd)
  · exact .some (variableDeclaration_alike hR)
  · exact .none

theorem whileStatement_alike {t u : Token} (ht : R t u) :
    Alike R (Stmt.Alike R) (whileStatement p t) (whileStatement q u) := by
  refine (Alike.expect hR _ _).bind fun _ _ _ => (expression_alike hR).bind fun _ _ hc => ?_
  exact (Alike.expect hR _ _).bind fun _ _ _ => h.map fun _ _ hb => .loop ht hc hb

theorem ifStatement_alike {t u : Token} (ht : R t u) :
    Alike R (Stmt.Alike R) (ifStatement p t) (ifStatement q u) := by
  have ha : Alike R (Option.Rel (Stmt.Alike R)) (alternative p) (alternative q) := by
    refine (Alike.accept hR _).bind fun t t' ht => ?_
    cases ht with
    | none => exact .pure .none
    | some _ => exact h.map fun _ _ hs => .some hs
  refine (Alike.expect hR _ _).bind fun _ _ _ => (expression_alike hR).bind fun _ _ hc => ?_
  refine (Alike.expect hR _ _).bind fun _ _ _ => h.bind fun _ _ hthen => ?_
  exact ha.map fun _ _ helse => .conditional ht hc hthen helse

theorem forStatement_alike {t u : Token} (hk : t.kind = .forKw) (ht : R t u) :
    Alike R (Stmt.Alike R) (forStatement p t) (forStatement q u) := by
  refine (Alike.expect hR _ _).bind fun _ _ _ => (initializer_alike hR).bind fun _ _ hf => ?_
  refine (expressionUnless_alike hR _).bind fun _ _ hc => (Alike.expect hR _ _).bind fun _ _ _ => ?_
  refine (expressionUnless_alike hR _).bind fun _ _ hn => (Alike.expect hR _ _).bind fun _ _ _ => ?_
  exact h.map fun _ _ hb => forLoop_alike hk ht hf hc hn hb

theorem statementAfter_alike {t u : Token} (ht : R t u) :
    Option.Rel (Alike R (Stmt.Alike R)) (statementAfter p t) (statementAfter q u) := by
  have hprint : Alike R (Stmt.Alike R) (printStatement t) (printStatement u) :=
    (expression_alike hR).bind fun _ _ he => (Alike.expect hR _ _).bind fun _ _ _ =>
      .pure (.print ht he)
  have hbreak : Alike R (Stmt.Alike R) (breakStatement t) (breakStatement u) :=
    (Alike.expect hR _ _).bind fun _ _ _ => .pure (.leave ht .none)
  have hreturn : Alike R (Stmt.Alike R) (returnStatement t) (returnStatement u) :=
    (expressionUnless_alike hR _).bind fun _ _ hv => (Alike.expect hR _ _).bind fun _ _ _ =>
      .pure (.leave ht hv)
  have hblock := blockOf_alike hR (declarationOf_alike hR h)
  unfold statementAfter
  rw [← hR ht]
  split
  · rename_i hk
    exact .some (forStatement_alike hR h hk ht)
  · exact .some (ifStatement_alike hR h ht)
  · exact .some hprint
  · exact .some hbreak
  · exact .some hreturn
  · exact .some (whileStatement_alike hR h ht)
  · exact .some (hblock.map fun _ _ hb => .block ht hb)
  · exact .none

end Inside

theorem statement_alike : Alike R (Stmt.Alike R) statement statement :=
  .fixed fun _ _ h => .dispatch (fun _ _ ht => statementAfter_alike hR h ht)
    (expressionStatement_alike hR)

theorem program_alike : Alike R (List.Forall₂ (Stmt.Alike R)) program program :=
  declarations_alike hR (declarationOf_alike hR (statement_alike hR))

end Statements

end Parse

/-! ### Calls -/

/-- The same problem at tokens that correspond. -/
def Diagnostic.Alike (R : Token → Token → Prop) (d d' : Diagnostic) : Prop :=
  ∃ t u problem, R t u ∧ d = .atToken t problem ∧ d' = .atToken u problem

inductive Answer.Alike (R : Token → Token → Prop) : Answer → Answer → Prop where
  | statements {stmts stmts' : List Stmt} (h : List.Forall₂ (Stmt.Alike R) stmts stmts') :
      Alike R (.statements stmts) (.statements stmts')
  | expression {e e' : Expr} (h : e.Alike R e') : Alike R (.expression (.ok e)) (.expression (.ok e'))
  | failure {d d' : Diagnostic} (h : d.Alike R d') :
      Alike R (.expression (.error d)) (.expression (.error d'))
  | atEnd (b : Bool) : Alike R (.atEnd b) (.atEnd b)

namespace Cursor

structure Alike (R : Token → Token → Prop) (c c' : Cursor) : Prop where
  rest : List.Forall₂ R c.rest c'.rest
  ending : R c.ending c'.ending

structure Outcome.Alike (R : Token → Token → Prop) {α : Type} (V : α → α → Prop)
    (o o' : Outcome α) : Prop where
  result : V o.result o'.result
  diagnostics : List.Forall₂ (Diagnostic.Alike R) o.diagnostics o'.diagnostics
  cursor : o.cursor.Alike R o'.cursor

variable {c c' : Cursor}

theorem Alike.diagnostic (h : c.Alike R c') {r r' : Report} (hr : r.Alike R r') :
    (r.diagnostic c.ending).Alike R (r'.diagnostic c'.ending) := by
  obtain ⟨hs, hp⟩ := hr
  refine ⟨r.site.getD c.ending, r'.site.getD c'.ending, r.problem, ?_, rfl, by rw [hp]; rfl⟩
  generalize r.site = o at hs
  generalize r'.site = o' at hs
  cases hs with
  | none => exact h.ending
  | some ht => exact ht

theorem Alike.located (h : c.Alike R c') {reports reports' : List Report}
    (hr : List.Forall₂ (Report.Alike R) reports reports') :
    List.Forall₂ (Diagnostic.Alike R) (c.located reports) (c'.located reports') := by
  induction hr with
  | nil => exact .nil
  | cons hr _ ih => exact .cons (h.diagnostic hr) ih

theorem answer_alike (hR : SameKinds R) (h : c.Alike R c') (call : Call) :
    (c.answer call).Alike R (Answer.Alike R) (c'.answer call) := by
  cases call with
  | parse =>
    obtain ⟨stmts, reports, hp⟩ := exists_program_eq_done c.rest
    obtain ⟨stmts', reports', hp'⟩ := exists_program_eq_done c'.rest
    have hr := program_alike hR c.rest c'.rest h.rest
    rw [hp, hp'] at hr
    cases hr with
    | done hs hr hl =>
      simp only [answer, parse_eq hp, parse_eq hp']
      exact ⟨.statements hs, h.located hr, hl, h.ending⟩
  | parseExpression =>
    have hr := expression_alike hR c.rest c'.rest h.rest
    simp only [answer, parseExpression]
    generalize expression c.rest = x at hr
    generalize expression c'.rest = y at hr
    cases hr with
    | done he hr hl => exact ⟨.expression he, h.located hr, hl, h.ending⟩
    | @failed missing _ _ rest rest' hr hl =>
      have hproblem : Report.Alike R ⟨rest.head?, .expected missing⟩ ⟨rest'.head?, .expected missing⟩ :=
        ⟨optionRel_head? hl, rfl⟩
      have hd := h.diagnostic hproblem
      exact ⟨.failure hd, List.rel_append (h.located hr) (.cons hd .nil), hl, h.ending⟩
  | isAtEnd =>
    have hb : c.atEnd = c'.atEnd := by
      have hr := h.rest
      unfold atEnd
      generalize c.rest = rest at hr
      generalize c'.rest = rest' at hr
      cases hr with
      | nil => rfl
      | cons _ _ => rfl
    simp only [answer, hb]
    exact ⟨.atEnd _, .nil, h⟩

theorem answers_alike (hR : SameKinds R) (h : c.Alike R c') (calls : List Call) :
    (c.answers calls).Alike R (List.Forall₂ (Answer.Alike R)) (c'.answers calls) := by
  induction calls generalizing c c' with
  | nil => exact ⟨.nil, .nil, h⟩
  | cons call calls ih =>
    have hfirst := answer_alike hR h call
    have hmore := ih hfirst.cursor
    exact ⟨.cons hfirst.result hmore.result,
      List.rel_append hfirst.diagnostics hmore.diagnostics, hmore.cursor⟩

/-! ### Cursors only move on -/

theorem answer_rest (c : Cursor) (call : Call) : (c.answer call).cursor.rest <:+ c.rest := by
  cases call with
  | parse =>
    obtain ⟨stmts, reports, hp⟩ := exists_program_eq_done c.rest
    simp only [answer, parse_eq hp]
    exact List.nil_suffix
  | parseExpression =>
    have hw := expression_within c.rest
    simp only [answer, parseExpression]
    generalize expression c.rest = x at hw
    cases x <;> exact hw
  | isAtEnd => exact List.suffix_refl _

theorem answers_rest (c : Cursor) (calls : List Call) : (c.answers calls).cursor.rest <:+ c.rest := by
  induction calls generalizing c with
  | nil => exact List.suffix_refl _
  | cons call calls ih => exact (ih _).trans (answer_rest c call)

end Cursor

/-! ### Tokens at the same place -/

/-- The tokens stand at one place of the two lists. -/
def SamePlace (ts us : List Token) (t u : Token) : Prop :=
  ∃ i : Nat, ts[i]? = some t ∧ us[i]? = some u

theorem samePlace_sameKinds {ts us : List Token} (hk : ts.map Token.kind = us.map Token.kind) :
    SameKinds (SamePlace ts us) := by
  rintro t u ⟨i, ht, hu⟩
  have h := congrArg (·[i]?) hk
  simpa [ht, hu] using h

theorem forall₂_samePlace {ts us : List Token} (hl : ts.length = us.length) :
    List.Forall₂ (SamePlace ts us) ts us := by
  refine List.forall₂_iff_get.mpr ⟨hl, fun i hi hi' => ⟨i, ?_, ?_⟩⟩
  · exact List.getElem?_eq_getElem hi
  · exact List.getElem?_eq_getElem hi'

/-- The tokens before the first end of input correspond, and so do the tokens that end it. -/
theorem ofTokens_alike (hR : SameKinds R) {ts us : List Token} (h : List.Forall₂ R ts us)
    (he : ∃ t ∈ ts, t.kind = .eof) : (Cursor.ofTokens ts).Alike R (Cursor.ofTokens us) := by
  have hend {t u : Token} (ht : R t u) : Cursor.isEnding t = Cursor.isEnding u := by
    simp [Cursor.isEnding, hR ht]
  have hbody : List.Forall₂ R (ts.takeWhile (!Cursor.isEnding ·))
      (us.takeWhile (!Cursor.isEnding ·)) := by
    clear he
    induction h with
    | nil => exact .nil
    | cons ht _ ih =>
      rw [List.takeWhile_cons, List.takeWhile_cons, hend ht]
      split
      · exact .cons ht ih
      · exact .nil
  have hfind : ∃ t u, ts.find? Cursor.isEnding = some t ∧ us.find? Cursor.isEnding = some u ∧
      R t u := by
    clear hbody
    induction h with
    | nil => simp at he
    | @cons t u ts us ht _ ih =>
      rw [List.find?_cons, List.find?_cons, ← hend ht]
      cases hk : Cursor.isEnding t with
      | true => exact ⟨t, u, rfl, rfl, ht⟩
      | false =>
        refine ih ?_
        obtain ⟨e, hm, hk'⟩ := he
        rcases List.mem_cons.mp hm with rfl | hm
        · simp [Cursor.isEnding, hk'] at hk
        · exact ⟨e, hm, hk'⟩
  obtain ⟨t, u, ht, hu, h⟩ := hfind
  refine ⟨hbody, ?_⟩
  simpa [Cursor.ofTokens, ht, hu] using h

/-- Lists of tokens of the same kinds, both with an end, are answered alike, whatever is asked: the
answers are built alike from tokens at the same places, each problem is reported on both at one
place, and the cursors are equal. -/
theorem answers_correspond {ts us : List Token} (hk : ts.map Token.kind = us.map Token.kind)
    (he : ∃ t ∈ ts.getLast?, t.kind = .eof) (calls : List Call) :
    let o := (Cursor.ofTokens ts).answers calls
    let o' := (Cursor.ofTokens us).answers calls
    List.Forall₂ (Answer.Alike (SamePlace ts us)) o.result o'.result ∧
      List.Forall₂ (Diagnostic.Alike (SamePlace ts us)) o.diagnostics o'.diagnostics ∧
      ∃ i, o.cursor.rest = (Cursor.ofTokens ts).rest.drop i ∧
        o'.cursor.rest = (Cursor.ofTokens us).rest.drop i := by
  intro o o'
  have hR := samePlace_sameKinds hk
  have hl : ts.length = us.length := by simpa using congrArg List.length hk
  have hmem : ∃ t ∈ ts, t.kind = .eof := by
    obtain ⟨t, ht, hkind⟩ := he
    exact ⟨t, List.mem_of_getLast? ht, hkind⟩
  have hc := ofTokens_alike hR (forall₂_samePlace hl) hmem
  have ho := Cursor.answers_alike hR hc calls
  have hs := List.suffix_iff_eq_drop.mp (Cursor.answers_rest (Cursor.ofTokens ts) calls)
  have hs' := List.suffix_iff_eq_drop.mp (Cursor.answers_rest (Cursor.ofTokens us) calls)
  rw [← hc.rest.length_eq, ← ho.cursor.rest.length_eq] at hs'
  exact ⟨ho.result, ho.diagnostics, _, hs, hs'⟩

/-- Layout, names, values and the spelling of an operator do not change how a text is read, nor
where its second statement breaks off. -/
theorem answers_correspond_spelling :
    let ts := (scan (text "a && 1; print ;")).tokens
    let us := (scan (text "name and\n22;\nprint;")).tokens
    let o := (Cursor.ofTokens ts).answers [.parseExpression, .parse]
    let o' := (Cursor.ofTokens us).answers [.parseExpression, .parse]
    ts.map Token.kind = us.map Token.kind ∧ (∃ t ∈ ts.getLast?, t.kind = .eof) ∧
      List.Forall₂ (Answer.Alike (SamePlace ts us)) o.result o'.result ∧
      List.Forall₂ (Diagnostic.Alike (SamePlace ts us)) o.diagnostics o'.diagnostics ∧
      ∃ i, o.cursor.rest = (Cursor.ofTokens ts).rest.drop i ∧
        o'.cursor.rest = (Cursor.ofTokens us).rest.drop i := by
  intro ts us o o'
  have hk : ts.map Token.kind = us.map Token.kind := by decide
  have he : ∃ t ∈ ts.getLast?, t.kind = .eof := ⟨_, rfl, rfl⟩
  exact ⟨hk, he, answers_correspond hk he _⟩

end ScriptFront
