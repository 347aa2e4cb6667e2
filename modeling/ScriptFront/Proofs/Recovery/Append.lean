import ScriptFront.Proofs.Recovery.Spans

/-! # Programs one after the other

Tokens that are parsed without a structural problem are parsed in the same way whatever follows
them, and what follows is parsed as if it stood alone. Only an `else` could go on with the last
statement.
-/

namespace ScriptFront

open Parse ScriptFront.Parser

/-- A declaration that was kept is read again when more tokens follow. If something was left after
it, the token it looked at is still there; if nothing was, no `else` may come. -/
theorem declaration_append {read rest more : List Token} {s : Stmt} {reports : List Report}
    (h : declaration (read ++ rest) = .done (some s) reports rest)
    (hl : Lacks (· == .elseKw) more) :
    declaration (read ++ (rest ++ more)) = .done (some s) reports (rest ++ more) := by
  cases rest with
  | nil =>
    have hb : Sealed (declarationBody statement declaration) :=
      declarationBody_sealed statement_sealed declaration_reader
    rw [declaration_eq] at h ⊢
    have hd := hb.closed read [] s reports (recovering_eq_some_iff.mp h) more hl
    exact recovering_eq_some_iff.mpr hd
  | cons t rest =>
    have hd := declaration_reader.built.isLocal read (t :: rest) (t :: rest ++ more)
      (by rw [h]; rfl) rfl
    rw [h] at hd
    exact hd

theorem spans_append_of_kept {as bs : List Token} (hk : ∀ s ∈ spans as, s.statement.isSome = true)
    (hl : Lacks (· == .elseKw) bs) : spans (as ++ bs) = spans as ++ spans bs := by
  induction as using span_induction with
  | nil => simp [spans]
  | span read rest d reports hr h ih =>
    rw [spans_append hr h] at hk ⊢
    obtain ⟨hd, hrest⟩ := List.forall_mem_cons.mp hk
    obtain ⟨s, rfl⟩ := Option.isSome_iff_exists.mp hd
    have ha := declaration_append h hl
    rw [List.append_assoc, spans_append hr ha, ih hrest, List.cons_append]

/-- A span without a structural problem was kept. -/
theorem Span.IsRead.isSome_of_clean {s : Span} (h : s.IsRead)
    (hc : ∀ r ∈ s.reports, r.problem.isStructural = false) : s.statement.isSome = true := by
  cases hs : s.statement with
  | some stmt => rfl
  | none =>
    obtain ⟨r, hr, hstruct, -⟩ := h.dropped hs
    rw [hc r hr] at hstruct
    cases hstruct

namespace Cursor

theorem diagnostics_parse (c : Cursor) :
    c.parse.diagnostics = c.located ((spans c.rest).flatMap Span.reports) := by
  rw [parse_eq (program_eq_spans c.rest)]

theorem result_parse (c : Cursor) :
    c.parse.result = (spans c.rest).filterMap Span.statement := by
  rw [parse_eq (program_eq_spans c.rest)]

theorem rest_ofTokens_append {as : List Token} (ha : WithoutEnd as) (bs : List Token) :
    (ofTokens (as ++ bs)).rest = as ++ (ofTokens bs).rest := by
  have h : ∀ t ∈ as, (!isEnding t) = true := by
    intro t ht
    simp [isEnding, ha t ht]
  exact List.takeWhile_append_of_pos h

theorem ending_ofTokens_append {as bs : List Token} (ha : WithoutEnd as) (hb : bs ≠ []) :
    (ofTokens (as ++ bs)).ending = (ofTokens bs).ending := by
  have hf : as.find? isEnding = none := by
    rw [List.find?_eq_none]
    intro t ht
    simp [isEnding, ha t ht]
  have hlast : (as ++ bs).getLast? = bs.getLast? := by
    rw [List.getLast?_append, List.getLast?_eq_some_getLast hb, Option.some_or]
  simp only [ofTokens, List.find?_append, hf, Option.none_or, hlast]

theorem lacks_rest {wanted : Kind → Bool} {ts : List Token} (h : Lacks wanted ts) :
    Lacks wanted (ofTokens ts).rest := by
  intro t ht
  cases ts with
  | nil => cases ht
  | cons u ts =>
    change t ∈ ((u :: ts).takeWhile (!isEnding ·)).head? at ht
    rw [List.takeWhile_cons] at ht
    split at ht
    · exact h t ht
    · cases ht

end Cursor

/-- Tokens on which parsing reports no structural problem, before any tokens that do not begin with
`else`: the statements and the diagnostics are those of the first, followed by those of the
second. -/
theorem parse_append {as bs : List Token} (ha : WithoutEnd as)
    (hc : ∀ d ∈ (Cursor.ofTokens as).parse.diagnostics, d.problem.isStructural = false)
    (hb : ∀ t ∈ bs.head?, t.kind ≠ .elseKw) :
    let first := (Cursor.ofTokens as).parse
    let second := (Cursor.ofTokens bs).parse
    let whole := (Cursor.ofTokens (as ++ bs)).parse
    whole.result = first.result ++ second.result ∧
      whole.diagnostics = first.diagnostics ++ second.diagnostics := by
  intro first second whole
  have hclean : ∀ s ∈ spans as, ∀ r ∈ s.reports, r.problem.isStructural = false := by
    rw [Cursor.diagnostics_parse, ofTokens_of_withoutEnd ha] at hc
    intro s hs r hr
    exact hc _ (List.mem_map_of_mem (List.mem_flatMap.mpr ⟨s, hs, hr⟩))
  have hkept : ∀ s ∈ spans as, s.statement.isSome = true :=
    fun s hs => (isRead_of_mem_spans hs).isSome_of_clean (hclean s hs)
  have hlacks : Lacks (· == .elseKw) (Cursor.ofTokens bs).rest :=
    Cursor.lacks_rest fun t ht => by simpa using hb t ht
  have hspans : spans (Cursor.ofTokens (as ++ bs)).rest =
      spans (Cursor.ofTokens as).rest ++ spans (Cursor.ofTokens bs).rest := by
    rw [Cursor.rest_ofTokens_append ha, spans_append_of_kept hkept hlacks,
      ofTokens_of_withoutEnd ha]
  constructor
  · simp only [whole, first, second, Cursor.result_parse, hspans, List.filterMap_append]
  · -- The problems of the first part are at its tokens, so that they do not tell where the input
    -- ends. If the second part has no tokens, it has no problems.
    have hsites : ∀ r ∈ (spans as).flatMap Span.reports, r.site.isSome = true := by
      intro r hr
      obtain ⟨s, hs, hr⟩ := List.mem_flatMap.mp hr
      obtain ⟨stmt, hstmt⟩ := Option.isSome_iff_exists.mp (hkept s hs)
      exact ((isRead_of_mem_spans hs).kept hstmt).2 r hr
    have hfirst : (Cursor.ofTokens (as ++ bs)).located ((spans as).flatMap Span.reports) =
        (Cursor.ofTokens as).located ((spans as).flatMap Span.reports) :=
      located_eq_of_isSome hsites
    have hsecond : (Cursor.ofTokens (as ++ bs)).located
        ((spans (Cursor.ofTokens bs).rest).flatMap Span.reports) = second.diagnostics := by
      cases hbs : bs with
      | nil => simp [second, hbs, Cursor.diagnostics_parse, Cursor.ofTokens, spans, Cursor.located]
      | cons t ts =>
        have he := Cursor.ending_ofTokens_append ha (List.cons_ne_nil t ts)
        simp only [second, hbs, Cursor.diagnostics_parse, Cursor.located, he]
    rw [← hsecond]
    simp only [whole, first, Cursor.diagnostics_parse, hspans, List.flatMap_append]
    rw [ofTokens_of_withoutEnd ha, ← hfirst]
    simp only [Cursor.located, List.map_append]

/-- `1 = a; if (a) a;` has a problem, but no structural one. -/
def softProblem : List Token :=
  [Kind.number, .equal, .identifier, .semicolon, .ifKw, .leftParen, .identifier, .rightParen,
    .identifier, .semicolon].map fun kind => ⟨kind, [], 1, .null⟩

/-- It is not disturbed by `) print; print a;` after it, where two declarations are dropped. -/
theorem parse_append_softProblem :
    let more : List Token := [Kind.rightParen, .printKw, .semicolon, .printKw, .identifier,
      .semicolon].map fun kind => ⟨kind, [], 2, .null⟩
    let first := (Cursor.ofTokens softProblem).parse
    let second := (Cursor.ofTokens more).parse
    let whole := (Cursor.ofTokens (softProblem ++ more)).parse
    first.diagnostics.length = 1 ∧ second.diagnostics.length = 2 ∧ whole.result.length = 3 ∧
      whole.result = first.result ++ second.result ∧
      whole.diagnostics = first.diagnostics ++ second.diagnostics := by
  intro more first second whole
  have ha : WithoutEnd softProblem := by unfold WithoutEnd; decide
  have hc : ∀ d ∈ first.diagnostics, d.problem.isStructural = false := by decide
  have hb : ∀ t ∈ more.head?, t.kind ≠ .elseKw := by decide
  exact ⟨by decide, by decide, by decide, parse_append ha hc hb⟩

end ScriptFront
