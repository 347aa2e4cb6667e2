import ScriptFront.Proofs.Parse.Part
import ScriptFront.Proofs.Recovery.Append

/-! # Problems are contained by a semicolon

A statement without a block ends with the first semicolon. Its parser either reads everything up to
the semicolon or gives up somewhere before it, and then recovery drops what is left up to the
semicolon and nothing after it. So one such statement has at most one structural problem, and what
follows is parsed as if it stood alone.
-/

namespace ScriptFront

open Parse

/-- Tokens that end with their only semicolon, where no block and no `for` can begin. -/
inductive Line : List Token → Prop where
  | last {t : Token} (h : t.kind = .semicolon) : Line [t]
  | cons {t : Token} {ts : List Token} (ht : t.kind ∉ [Kind.semicolon, .leftBrace, .forKw])
      (h : Line ts) : Line (t :: ts)

namespace Line

theorem append {as : List Token} {semicolon : Token}
    (ha : ∀ t ∈ as, t.kind ∉ [Kind.semicolon, .leftBrace, .forKw])
    (hs : semicolon.kind = .semicolon) : Line (as ++ [semicolon]) := by
  induction as with
  | nil => exact last hs
  | cons t as ih =>
    obtain ⟨ht, hrest⟩ := List.forall_mem_cons.mp ha
    exact cons ht (ih hrest)

theorem ne_nil {ts : List Token} (h : Line ts) : ts ≠ [] := by
  rintro rfl
  cases h

theorem of_cons {t : Token} {ts : List Token} (h : Line (t :: ts)) (ht : t.kind ≠ .semicolon) :
    Line ts := by
  cases h with
  | last hs => exact absurd hs ht
  | cons _ h => exact h

theorem rest {read left : List Token} (h : Line (read ++ left))
    (hr : ∀ t ∈ read, t.kind ≠ .semicolon) : Line left := by
  induction read with
  | nil => exact h
  | cons t read ih =>
    obtain ⟨ht, hread⟩ := List.forall_mem_cons.mp hr
    exact ih (of_cons h ht) hread

end Line

/-- Recovery on a line drops the line and no more. -/
theorem resume_line {left : List Token} (h : Line left)
    (hd : ∀ t ∈ left.tail, t.kind.startsDeclaration = false) (more : List Token) :
    resume (left ++ more) = more := by
  induction h with
  | last hs => simp [resume, hs]
  | @cons t ts ht h ih =>
    have hs : t.kind ≠ .semicolon := fun hk => ht (by simp [hk])
    have hnext : (ts ++ more).head?.any (·.kind.startsDeclaration) = false := by
      cases h with
      | last => exact hd _ List.mem_cons_self
      | cons => exact hd _ List.mem_cons_self
    rw [List.cons_append, resume, hnext, if_neg (by simp [hs])]
    exact ih fun u hu => hd u (List.mem_of_mem_tail hu)

namespace Parser

variable {α β : Type}

/-- Either all was read, or something was missing while the semicolon was still to come. Nothing was
given up on the way. -/
inductive Contained : Reply α → Prop where
  | done {a : α} {reports : List Report} (hs : Soft reports) : Contained (.done a reports [])
  | failed {missing : Expectation} {reports : List Report} {left : List Token}
      (hs : Soft reports) (hl : Line left) : Contained (.failed missing reports left)

/-- A parser that reads a line up to its end, or gives up on it. -/
def Confined (p : Parser α) : Prop := ∀ ts, Line ts → Contained (p ts)

theorem Contained.after {earlier : List Report} {reply : Reply α} (he : Soft earlier)
    (h : Contained reply) : Contained (reply.after earlier) := by
  cases h with
  | done hs => exact .done (soft_append.mpr ⟨he, hs⟩)
  | failed hs hl => exact .failed (soft_append.mpr ⟨he, hs⟩) hl

namespace Confined

theorem fail (missing : Expectation) : Confined (Parser.fail missing : Parser α) :=
  fun _ h => .failed soft_nil h

theorem expectSemicolon (missing : Expectation) : Confined (Parser.expect .semicolon missing) := by
  intro ts h
  cases h with
  | last hs =>
    rw [Parser.expect, if_pos hs]
    exact .done soft_nil
  | cons ht h =>
    rw [Parser.expect, if_neg fun hk => ht (by simp [hk])]
    exact .failed soft_nil (.cons ht h)

theorem expectBrace (missing : Expectation) (f : Token → Parser β) :
    Confined (Parser.expect .leftBrace missing >>= f) := by
  intro ts h
  have hfailed : Parser.expect .leftBrace missing ts = .failed missing [] ts := by
    cases h with
    | last hs => rw [Parser.expect, if_neg (by simp [hs])]
    | cons ht _ => rw [Parser.expect, if_neg fun hk => ht (by simp [hk])]
  rw [bind_of_failed hfailed]
  exact .failed soft_nil h

theorem ofPart {p : Parser α} {f : α → Parser β} (hp : IsPart p) (hf : ∀ a, Confined (f a)) :
    Confined (p >>= f) := by
  intro ts h
  obtain ⟨⟨read, hts, hread⟩, hsoft⟩ := hp ts
  have hleft : Line (p ts).rest := (hts ▸ h).rest hread
  cases hq : p ts with
  | failed missing reports left =>
    rw [hq] at hsoft hleft
    rw [bind_of_failed hq]
    exact .failed hsoft hleft
  | done a reports left =>
    rw [hq] at hsoft hleft
    rw [bind_of_done hq]
    exact (hf a left hleft).after hsoft

theorem bind {p : Parser α} {f : α → Parser β} (hp : Confined p)
    (hf : ∀ a, ∃ b, f a [] = .done b [] []) : Confined (p >>= f) := by
  intro ts h
  have hc := hp ts h
  cases hq : p ts with
  | failed missing reports left =>
    rw [hq] at hc
    rw [bind_of_failed hq]
    cases hc with
    | failed hs hl => exact .failed hs hl
  | done a reports left =>
    rw [hq] at hc
    rw [bind_of_done hq]
    cases hc with
    | done hs =>
      obtain ⟨b, hb⟩ := hf a
      rw [hb]
      exact .after hs (.done soft_nil)

theorem dispatch {choose : Token → Option (Parser α)} {p : Parser α}
    (hn : ∀ t, t.kind = .semicolon → choose t = none)
    (hc : ∀ t q, t.kind ∉ [Kind.semicolon, .leftBrace, .forKw] → choose t = some q → Confined q)
    (hp : Confined p) : Confined (Parser.dispatch choose p) := by
  intro ts h
  cases h with
  | @last t hs =>
    rw [Parser.dispatch, hn t hs]
    exact hp _ (.last hs)
  | @cons t ts ht h =>
    cases hq : choose t with
    | none =>
      rw [Parser.dispatch, hq]
      exact hp _ (.cons ht h)
    | some q =>
      rw [dispatch_cons hq]
      exact hc t q ht hq ts h

theorem fixed {body : Parser α → Parser α} (h : ∀ p, Confined p → Confined (body p)) :
    Confined (Parser.fixed body) := by
  have ha (n : Nat) : Confined (approximate body n) := by
    induction n with
    | zero => exact fail _
    | succ n ih => exact h _ ih
  exact fun ts => ha (ts.length + 1) ts

end Confined

end Parser

namespace Parse

open ScriptFront.Parser

/-! ### Statements on a line -/

theorem ending_confined (missing : Expectation) (s : Stmt) :
    Confined (do
      let _ ← expect .semicolon missing
      return s) :=
  (Confined.expectSemicolon missing).bind fun _ => ⟨s, rfl⟩

theorem expressionStatement_confined : Confined expressionStatement :=
  .ofPart expression_isPart fun _ => ending_confined _ _

theorem variableDeclaration_confined : Confined variableDeclaration :=
  .ofPart (.expect (by simp) _) fun _ => .ofPart initialValue_isPart fun _ => ending_confined _ _

theorem functionDeclaration_confined (d : Parser (Option Stmt)) :
    Confined (functionDeclaration d) :=
  .ofPart (.expect (by simp) _) fun _ => .ofPart (.expect (by simp) _) fun _ =>
    .ofPart parameters_isPart fun _ => .ofPart (.expect (by simp) _) fun _ => .expectBrace _ _

section Statements

variable {self : Parser Stmt} (h : Confined self)

include h

theorem whileStatement_confined (keyword : Token) : Confined (whileStatement self keyword) :=
  .ofPart (.expect (by simp) _) fun _ => .ofPart expression_isPart fun _ =>
    .ofPart (.expect (by simp) _) fun _ => h.bind fun _ => ⟨_, rfl⟩

/-- The first branch takes the semicolon, so that no `else` can follow on the line. -/
theorem ifStatement_confined (keyword : Token) : Confined (ifStatement self keyword) :=
  .ofPart (.expect (by simp) _) fun _ => .ofPart expression_isPart fun _ =>
    .ofPart (.expect (by simp) _) fun _ => h.bind fun _ => ⟨_, rfl⟩

theorem statementBody_confined : Confined (statementBody self) := by
  refine .dispatch (fun t ht => ?_) (fun t q ht hq => ?_) expressionStatement_confined
  · simp [statementAfter, ht]
  · unfold statementAfter at hq
    split at hq
    · rename_i hk
      exact absurd (by simp [hk]) ht
    · cases hq
      exact ifStatement_confined h t
    · cases hq
      exact .ofPart expression_isPart fun _ => ending_confined _ _
    · cases hq
      exact ending_confined _ _
    · cases hq
      exact .ofPart (expressionUnless_isPart _) fun _ => ending_confined _ _
    · cases hq
      exact whileStatement_confined h t
    · rename_i hk
      exact absurd (by simp [hk]) ht
    · cases hq

end Statements

theorem statement_confined : Confined statement := .fixed fun _ h => statementBody_confined h

theorem declarationBody_confined (d : Parser (Option Stmt)) :
    Confined (declarationBody statement d) := by
  refine .dispatch (fun t ht => ?_) (fun t q _ hq => ?_) statement_confined
  · simp [declarationAfter, ht]
  · unfold declarationAfter at hq
    split at hq
    · cases hq
      exact functionDeclaration_confined d
    · cases hq
      exact variableDeclaration_confined
    · cases hq

end Parse

/-! ### Recovery on a line -/

section Lines

open ScriptFront.Parser

variable {line : List Token}

/-- Whatever follows a line, the line is dropped when something is missing on it, and nothing else
is. -/
theorem declaration_line_of_failed (hd : ∀ t ∈ line.tail, t.kind.startsDeclaration = false)
    {missing : Expectation} {reports : List Report} {left : List Token} (hl : Line left)
    (hf : declarationBody statement declaration line = .failed missing reports left)
    (more : List Token) :
    declaration (line ++ more) =
      .done none (reports ++ [⟨left.head?, .expected missing⟩]) more := by
  have hb : Sealed (declarationBody statement declaration) :=
    declarationBody_sealed statement_sealed declaration_reader
  obtain ⟨read, rfl⟩ : left <:+ line := by
    have hw := hb.built.within line
    rwa [hf] at hw
  have htail : ∀ t ∈ left.tail, t.kind.startsDeclaration = false := by
    intro t ht
    refine hd t ?_
    rw [List.tail_append]
    split
    · exact ht
    · exact List.mem_append_right _ (List.mem_of_mem_tail ht)
  -- The body looks at the first token that is left and at none of those after it.
  have hhead : (left ++ more).head? = left.head? := by
    cases hl <;> rfl
  have hlonger := hb.built.isLocal read left (left ++ more) (by rw [hf]; rfl) hhead
  rw [hf] at hlonger
  rw [declaration_eq, List.append_assoc]
  exact recovering_eq_none_iff.mpr
    ⟨missing, reports, left ++ more, hlonger, by rw [hhead], resume_line hl htail more⟩

/-- The one span that a line makes, whatever follows it. Its problems are at tokens. If it was kept,
none of them is structural; if it was dropped, only the last is. -/
structure Span.FillsLine (s : Span) (line : List Token) : Prop where
  sited : ∀ r ∈ s.reports, r.site.isSome = true
  soft : s.statement.isSome = true → Soft s.reports
  structural : s.statement = none → ∃ earlier last, s.reports = earlier ++ [last] ∧
    Soft earlier ∧ last.problem.isStructural = true
  spans_append : ∀ more, (s.statement.isSome = true → Lacks (· == .elseKw) more) →
    spans (line ++ more) = s :: spans more

theorem exists_fillsLine (h : Line line)
    (hd : ∀ t ∈ line.tail, t.kind.startsDeclaration = false) : ∃ s : Span, s.FillsLine line := by
  have hb : Sealed (declarationBody statement declaration) :=
    declarationBody_sealed statement_sealed declaration_reader
  have hc := declarationBody_confined declaration line h
  cases hq : declarationBody statement declaration line with
  | done stmt reports left =>
    rw [hq] at hc
    cases hc with
    | done hs =>
      have hkept : declaration (line ++ []) = .done (some stmt) reports [] := by
        rw [declaration_eq, List.append_nil]
        exact recovering_eq_some_iff.mpr hq
      let s : Span := ⟨line, some stmt, reports⟩
      have hread : s.IsRead := ⟨h.ne_nil, [], hkept⟩
      refine ⟨s, (hread.kept rfl).2, fun _ => hs, fun hn => (nomatch hn), fun more hl => ?_⟩
      have hmore := declaration_append hkept (hl rfl)
      rw [List.nil_append] at hmore
      exact spans_append h.ne_nil hmore
  | failed missing reports left =>
    rw [hq] at hc
    cases hc with
    | failed hs hl =>
      have hdrop := declaration_line_of_failed hd hl hq
      have hsited : ∀ r ∈ reports, r.site.isSome = true := by
        have hsite := hb.built.sited line
        rw [hq] at hsite
        exact hsite hl.ne_nil
      let last : Report := ⟨left.head?, .expected missing⟩
      refine ⟨⟨line, none, reports ++ [last]⟩, ?_, fun hk => (nomatch hk),
        fun _ => ⟨reports, last, rfl, hs, rfl⟩, fun more _ => spans_append h.ne_nil (hdrop more)⟩
      exact List.forall_mem_append.mpr
        ⟨hsited, List.forall_mem_singleton.mpr (Built.isSome_head? hl.ne_nil)⟩

theorem Span.FillsLine.spans_eq {s : Span} (h : s.FillsLine line) : spans line = [s] := by
  have hnil := h.spans_append [] fun _ => lacks_nil _
  rwa [List.append_nil, spans] at hnil

theorem Soft.countP_eq_zero {reports : List Report} (h : Soft reports) :
    reports.countP (·.problem.isStructural) = 0 := by
  rw [List.countP_eq_zero]
  intro r hr
  simp [h r hr]

/-- A line gives one statement and no structural problem, or no statement and one of them. -/
theorem Span.FillsLine.countP_reports {s : Span} (h : s.FillsLine line) :
    s.statement.toList.length = 1 ∧ s.reports.countP (·.problem.isStructural) = 0 ∨
      s.statement.toList = [] ∧ s.reports.countP (·.problem.isStructural) = 1 := by
  cases hs : s.statement with
  | some stmt =>
    have hsoft : Soft s.reports := h.soft (by rw [hs]; rfl)
    exact .inl ⟨rfl, hsoft.countP_eq_zero⟩
  | none =>
    obtain ⟨earlier, last, hr, he, hl⟩ := h.structural hs
    refine .inr ⟨rfl, ?_⟩
    rw [hr, List.countP_append, he.countP_eq_zero, List.countP_singleton, if_pos hl]

theorem Span.FillsLine.result_parse {s : Span} (h : s.FillsLine line) (hw : WithoutEnd line) :
    (Cursor.ofTokens line).parse.result = s.statement.toList := by
  rw [Cursor.result_parse, ofTokens_of_withoutEnd hw, h.spans_eq]
  cases hs : s.statement with
  | none => exact List.filterMap_cons_none hs
  | some stmt => exact List.filterMap_cons_some hs

theorem Span.FillsLine.countP_diagnostics {s : Span} (h : s.FillsLine line)
    (hw : WithoutEnd line) :
    (Cursor.ofTokens line).parse.diagnostics.countP (·.problem.isStructural) =
      s.reports.countP (·.problem.isStructural) := by
  rw [Cursor.diagnostics_parse, ofTokens_of_withoutEnd hw, h.spans_eq, List.flatMap_singleton]
  exact List.countP_map

end Lines

namespace Cursor

/-- If the tokens of two inputs are cut at the boundary between them, and the problems of the first
are at its tokens, the statements and the diagnostics are those of the first and then those of the
second. -/
theorem parse_append_of_spans {as bs : List Token} (ha : WithoutEnd as)
    (hc : spans (as ++ (ofTokens bs).rest) = spans as ++ spans (ofTokens bs).rest)
    (hs : ∀ s ∈ spans as, ∀ r ∈ s.reports, r.site.isSome = true) :
    let whole := (ofTokens (as ++ bs)).parse
    whole.result = (ofTokens as).parse.result ++ (ofTokens bs).parse.result ∧
      whole.diagnostics = (ofTokens as).parse.diagnostics ++ (ofTokens bs).parse.diagnostics := by
  intro whole
  rw [← rest_ofTokens_append ha] at hc
  simp only [whole, result_parse, diagnostics_parse, hc, ofTokens_of_withoutEnd ha,
    List.filterMap_append, List.flatMap_append, true_and]
  refine List.map_append.trans ?_
  congr 1
  · refine located_eq_of_isSome fun r hr => ?_
    obtain ⟨s, hm, hr⟩ := List.mem_flatMap.mp hr
    exact hs s hm r hr
  · -- Without tokens in the second input, its end may be elsewhere, but there is no problem at it.
    cases bs with
    | nil => simp [ofTokens, spans, located]
    | cons t bs => rw [ending_ofTokens_append ha (List.cons_ne_nil t bs)]; rfl

end Cursor

/-- A simple statement with a problem is contained by its semicolon. Tokens up to a semicolon, where
no block and no `for` can begin and no declaration can start after the first token, give one
statement and no structural diagnostic, or no statement and one of them. What follows is parsed as
if it stood alone, unless it could go on with the statement by an `else`. -/
theorem parse_append_semicolon {as : List Token} {semicolon : Token}
    (ha : ∀ t ∈ as, t.kind ∉ [Kind.eof, .semicolon, .leftBrace, .forKw])
    (hd : ∀ t ∈ as.tail, t.kind.startsDeclaration = false) (hs : semicolon.kind = .semicolon) :
    let first := (Cursor.ofTokens (as ++ [semicolon])).parse
    let structural := first.diagnostics.countP (·.problem.isStructural)
    (first.result.length = 1 ∧ structural = 0 ∨ first.result = [] ∧ structural = 1) ∧
      ∀ bs : List Token, (first.result = [] ∨ ∀ t ∈ bs.head?, t.kind ≠ .elseKw) →
        let second := (Cursor.ofTokens bs).parse
        let whole := (Cursor.ofTokens (as ++ [semicolon] ++ bs)).parse
        whole.result = first.result ++ second.result ∧
          whole.diagnostics = first.diagnostics ++ second.diagnostics := by
  intro first structural
  have hline : Line (as ++ [semicolon]) :=
    .append (fun t ht hk => ha t ht (List.mem_cons_of_mem _ hk)) hs
  have hw : WithoutEnd (as ++ [semicolon]) :=
    withoutEnd_append.mpr ⟨fun t ht hk => ha t ht (by simp [hk]), by simp [hs]⟩
  have htail : ∀ t ∈ (as ++ [semicolon]).tail, t.kind.startsDeclaration = false := by
    cases as with
    | nil => simp
    | cons u as =>
      refine List.forall_mem_append.mpr ⟨hd, List.forall_mem_singleton.mpr ?_⟩
      rw [hs]
      rfl
  obtain ⟨s, hfill⟩ := exists_fillsLine hline htail
  have hresult : first.result = s.statement.toList := hfill.result_parse hw
  have hstructural : structural = s.reports.countP (·.problem.isStructural) :=
    hfill.countP_diagnostics hw
  constructor
  · rw [hresult, hstructural]
    exact hfill.countP_reports
  · intro bs hb
    apply Cursor.parse_append_of_spans hw
    · rw [hfill.spans_eq]
      refine hfill.spans_append _ fun hk => Cursor.lacks_rest fun t ht => ?_
      have hkept : first.result ≠ [] := by
        rw [hresult]
        intro hnil
        rw [Option.toList_eq_nil_iff.mp hnil] at hk
        cases hk
      simpa using hb.resolve_left hkept t ht
    · rw [hfill.spans_eq]
      exact List.forall_mem_singleton.mpr hfill.sited

/-- `if (1 = a) a) b;` has a soft problem before the structural one. Since it is dropped, it makes
no difference to `else print a;`, where the `else` is dropped. -/
theorem parse_append_semicolon_dropped :
    let token (kind : Kind) : Token := ⟨kind, [], 1, .null⟩
    let as := [Kind.ifKw, .leftParen, .number, .equal, .identifier, .rightParen, .identifier,
      .rightParen, .identifier].map token
    let bs := [Kind.elseKw, .printKw, .identifier, .semicolon].map token
    let first := (Cursor.ofTokens (as ++ [token .semicolon])).parse
    let second := (Cursor.ofTokens bs).parse
    let whole := (Cursor.ofTokens (as ++ [token .semicolon] ++ bs)).parse
    first.result = [] ∧ first.diagnostics.length = 2 ∧
      first.diagnostics.countP (·.problem.isStructural) = 1 ∧ second.result.length = 1 ∧
      whole.result = first.result ++ second.result ∧
      whole.diagnostics = first.diagnostics ++ second.diagnostics := by
  intro token as bs first second whole
  have ha : ∀ t ∈ as, t.kind ∉ [Kind.eof, .semicolon, .leftBrace, .forKw] := by decide
  have hd : ∀ t ∈ as.tail, t.kind.startsDeclaration = false := by decide
  have hs : (token .semicolon).kind = .semicolon := rfl
  obtain ⟨hone, happend⟩ := parse_append_semicolon ha hd hs
  have hlength : first.result.length ≠ 1 := by decide
  obtain ⟨hempty, hstructural⟩ := hone.resolve_left fun h => hlength h.1
  exact ⟨hempty, by decide, hstructural, by decide, happend bs (.inl hempty)⟩

end ScriptFront
