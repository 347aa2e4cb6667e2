import ScriptFront.Proofs.Parse.Input
import ScriptFront.Proofs.Recovery.Closed

/-! # Spans

Parsing cuts the tokens into spans, one for each declaration that was kept or dropped. A span that
was kept is read alone as it was read among the others. A span that was dropped has a structural
problem of its own.
-/

namespace ScriptFront

open Parse ScriptFront.Parser

/-- The tokens of one declaration, the statement that was read, if it was kept, and the problems
that were reported meanwhile. -/
structure Span where
  tokens : List Token
  statement : Option Stmt
  reports : List Report

/-- The spans that parsing cuts tokens into. -/
def spans : List Token → List Span
  | [] => []
  | t :: ts =>
    match h : declaration (t :: ts) with
    | .done d reports rest =>
      have := declaration_advances t ts d reports rest h
      ⟨(t :: ts).take ((t :: ts).length - rest.length), d, reports⟩ :: spans rest
    | .failed .. => []
termination_by ts => ts.length
decreasing_by exact this

/-- The span was cut off by a declaration. -/
def Span.IsRead (s : Span) : Prop :=
  s.tokens ≠ [] ∧ ∃ rest, declaration (s.tokens ++ rest) = .done s.statement s.reports rest

theorem spans_append {read rest : List Token} {d : Option Stmt} {reports : List Report}
    (hr : read ≠ []) (h : declaration (read ++ rest) = .done d reports rest) :
    spans (read ++ rest) = ⟨read, d, reports⟩ :: spans rest := by
  cases read with
  | nil => exact absurd rfl hr
  | cons t read =>
    rw [List.cons_append] at h
    rw [List.cons_append, spans]
    split
    · rename_i h'
      rw [h] at h'
      cases h'
      have hl : (t :: (read ++ rest)).length - rest.length = (t :: read).length := by
        simp only [List.length_cons, List.length_append]
        omega
      have ht : (t :: (read ++ rest)).take ((t :: (read ++ rest)).length - rest.length) =
          t :: read := by
        rw [hl]
        exact List.take_left
      exact congrArg (fun tokens => Span.mk tokens d reports :: spans rest) ht
    · rename_i h'
      rw [h] at h'
      cases h'

theorem span_induction {motive : List Token → Prop} (nil : motive [])
    (span : ∀ read rest d reports, read ≠ [] →
      declaration (read ++ rest) = .done d reports rest → motive rest → motive (read ++ rest))
    (ts : List Token) : motive ts := by
  cases ts with
  | nil => exact nil
  | cons t ts =>
    obtain ⟨d, reports, rest, h⟩ := exists_declaration_eq_done (t :: ts)
    have hlt : rest.length < (t :: ts).length := declaration_advances t ts d reports rest h
    have hw := declaration_within (t :: ts)
    rw [h] at hw
    obtain ⟨read, hs⟩ := hw
    have hr : read ≠ [] := by
      rintro rfl
      rw [← hs] at hlt
      exact Nat.lt_irrefl _ hlt
    rw [← hs] at h ⊢
    exact span read rest d reports hr h (span_induction nil span rest)
termination_by ts.length
decreasing_by exact hlt

theorem flatMap_tokens_spans (ts : List Token) : (spans ts).flatMap Span.tokens = ts := by
  induction ts using span_induction with
  | nil => simp [spans]
  | span read rest d reports hr h ih => simp [spans_append hr h, ih]

theorem isRead_of_mem_spans {s : Span} {ts : List Token} (h : s ∈ spans ts) : s.IsRead := by
  induction ts using span_induction with
  | nil => simp [spans] at h
  | span read rest d reports hr hd ih =>
    rw [spans_append hr hd] at h
    rcases List.mem_cons.mp h with rfl | h
    · exact ⟨hr, rest, hd⟩
    · exact ih h

theorem mem_of_mem_spans {s : Span} {ts : List Token} (h : s ∈ spans ts) {t : Token}
    (ht : t ∈ s.tokens) : t ∈ ts := by
  rw [← flatMap_tokens_spans ts]
  exact List.mem_flatMap.mpr ⟨s, h, ht⟩

theorem program_eq_spans (ts : List Token) :
    program ts =
      .done ((spans ts).filterMap Span.statement) ((spans ts).flatMap Span.reports) [] := by
  have hp : Progresses (moreDeclarations Option.isNone declaration) :=
    moreDeclarations_progresses rfl declaration_advances
  suffices h : ∀ body, repeatFrom (moreDeclarations Option.isNone declaration) body ts =
      .done (body ++ (spans ts).filterMap Span.statement) ((spans ts).flatMap Span.reports) [] from
    h []
  induction ts using span_induction with
  | nil =>
    intro body
    simp [spans]
    rfl
  | span read rest d reports hr h ih =>
    intro body
    cases read with
    | nil => exact absurd rfl hr
    | cons t read =>
      have hs : moreDeclarations Option.isNone declaration body (t :: read ++ rest) =
          .done (some (body ++ d.toList)) reports rest := moreDeclarations_cons h body
      rw [repeatFrom_of_some hp hs, ih, spans_append hr h]
      cases d with
      | none => simp
      | some s => simp

/-! ### Spans that were kept -/

/-- A kept span is read alone, and all of its problems are at tokens. -/
theorem Span.IsRead.kept {s : Span} (h : s.IsRead) {stmt : Stmt} (hs : s.statement = some stmt) :
    spans s.tokens = [⟨s.tokens, some stmt, s.reports⟩] ∧
      ∀ r ∈ s.reports, r.site.isSome = true := by
  obtain ⟨hne, rest, hd⟩ := h
  have hb : Sealed (declarationBody Parse.statement declaration) :=
    declarationBody_sealed statement_sealed declaration_reader
  rw [hs, declaration_eq] at hd
  have hq := recovering_eq_some_iff.mp hd
  constructor
  · have ha : declaration (s.tokens ++ []) = .done (some stmt) s.reports [] := by
      rw [declaration_eq]
      exact recovering_eq_some_iff.mpr
        (hb.closed s.tokens rest stmt s.reports hq [] (lacks_nil _))
    have hc := spans_append hne ha
    rwa [List.append_nil, spans] at hc
  · -- If something else were left, the problems would be the same.
    let semicolon : Token := ⟨.semicolon, [], 0, .null⟩
    have hl : Lacks (· == .elseKw) [semicolon] := by simp [semicolon]
    have ha := hb.closed s.tokens rest stmt s.reports hq [semicolon] hl
    have hsite := hb.built.sited (s.tokens ++ [semicolon])
    rw [ha] at hsite
    exact hsite (List.cons_ne_nil _ _)

/-! ### Spans that were dropped -/

/-- A dropped span has a structural problem, at one of its tokens or at the end of the input. -/
theorem Span.IsRead.dropped {s : Span} (h : s.IsRead) (hs : s.statement = none) :
    ∃ r ∈ s.reports, r.problem.isStructural = true ∧ ∀ t ∈ r.site, t ∈ s.tokens := by
  obtain ⟨-, rest, hd⟩ := h
  rw [hs, declaration_eq] at hd
  obtain ⟨missing, earlier, left, hq, hr, hl⟩ := recovering_eq_none_iff.mp hd
  have hw := declarationBody_within (s.tokens ++ rest)
  rw [hq] at hw
  change left <:+ s.tokens ++ rest at hw
  rw [hr]
  refine ⟨_, List.mem_append_right _ (List.mem_singleton_self _), rfl, ?_⟩
  intro t ht
  -- The token is the first that recovery drops.
  obtain ⟨tail, rfl⟩ := List.head?_eq_some_iff.mp ht
  have hm : rest <:+ t :: tail := hl ▸ resume_isSuffix (t :: tail)
  obtain ⟨first, second, hf, he⟩ := Built.exists_read hw hm
  have hlt := resume_length_lt t tail
  rw [hl] at hlt
  cases second with
  | nil =>
    rw [List.nil_append] at he
    rw [he] at hlt
    exact absurd hlt (Nat.lt_irrefl _)
  | cons u second =>
    cases he
    rw [hf]
    exact List.mem_append_right first List.mem_cons_self

/-! ### The whole input -/

theorem located_eq_of_isSome {c c' : Cursor} {reports : List Report}
    (h : ∀ r ∈ reports, r.site.isSome = true) : c.located reports = c'.located reports := by
  apply List.map_congr_left
  intro r hr
  obtain ⟨t, ht⟩ := Option.isSome_iff_exists.mp (h r hr)
  simp [Report.diagnostic, ht]

theorem ofTokens_of_withoutEnd {ts : List Token} (h : WithoutEnd ts) :
    (Cursor.ofTokens ts).rest = ts :=
  Cursor.takeWhile_of_withoutEnd h

theorem withoutEnd_rest (ts : List Token) : WithoutEnd (Cursor.ofTokens ts).rest := by
  intro t ht
  have h := List.all_eq_true.mp (List.all_takeWhile (p := (!Cursor.isEnding ·)) (l := ts)) t ht
  simpa [Cursor.isEnding] using h

theorem Cursor.kind_ending_ofTokens (ts : List Token) : (ofTokens ts).ending.kind = .eof := by
  rw [ofTokens]
  cases h : ts.find? isEnding with
  | none => rfl
  | some t => simpa [isEnding] using List.find?_some h

/-- Parsing cuts the tokens before the first end of input into spans. The statements are those of
the spans that were kept, and the diagnostics are those of all spans, in their order. A span that
was kept, parsed alone, gives its statement and its diagnostics. A span that was dropped has a
structural diagnostic, at one of its tokens or at the end of the input. -/
theorem parse_eq_spans (ts : List Token) :
    let c := Cursor.ofTokens ts
    (spans c.rest).flatMap Span.tokens = ts.takeWhile (·.kind != .eof) ∧
      c.parse.result = (spans c.rest).filterMap Span.statement ∧
      c.parse.diagnostics = (spans c.rest).flatMap (c.located ·.reports) ∧
      ∀ s ∈ spans c.rest, s.tokens ≠ [] ∧
        (∀ stmt, s.statement = some stmt →
          (Cursor.ofTokens s.tokens).parse.result = [stmt] ∧
            (Cursor.ofTokens s.tokens).parse.diagnostics = c.located s.reports) ∧
        (s.statement = none → ∃ t problem, (t ∈ s.tokens ∨ t = c.ending) ∧
          problem.isStructural = true ∧ .atToken t problem ∈ c.located s.reports) := by
  intro c
  have hp := Cursor.parse_eq (c := c) (program_eq_spans c.rest)
  refine ⟨flatMap_tokens_spans c.rest, by rw [hp], ?_, ?_⟩
  · rw [hp]
    exact List.map_flatMap
  · intro s hs
    have hr := isRead_of_mem_spans hs
    have hw : WithoutEnd s.tokens := fun t ht => withoutEnd_rest ts t (mem_of_mem_spans hs ht)
    refine ⟨hr.1, ?_, ?_⟩
    · intro stmt hk
      obtain ⟨ha, hsite⟩ := hr.kept hk
      have hq := program_eq_spans s.tokens
      rw [ha, ← ofTokens_of_withoutEnd hw] at hq
      rw [Cursor.parse_eq hq]
      exact ⟨rfl, by simpa using located_eq_of_isSome hsite⟩
    · intro hn
      obtain ⟨r, hm, hstruct, hsite⟩ := hr.dropped hn
      refine ⟨r.site.getD c.ending, r.problem, ?_, hstruct, List.mem_map_of_mem hm⟩
      cases ht : r.site with
      | none => exact Or.inr rfl
      | some t => exact Or.inl (hsite t ht)

end ScriptFront
