import ScriptFront.Proofs.Parse.Part
import ScriptFront.Proofs.Recovery.Append

/-! # What a call for an expression ends with

A call for an expression reads one and reports soft problems at most, or it stops where something
is missing, and that is the last it reports and the only structural problem. Either way the outcome
is decided by the tokens from the cursor up to the one it stops at.
-/

namespace ScriptFront

open Parse ScriptFront.Parser

namespace Cursor

/-- The token at the cursor, which may be the one that ends the input. -/
def next (c : Cursor) : Token := c.rest.head?.getD c.ending

/-- The tokens from the cursor up to the end of the input. -/
def ahead (c : Cursor) : List Token := c.rest ++ [c.ending]

/-- The cursor stands in a list of tokens, before or at its first end of input. -/
structure IsIn (c : Cursor) (ts : List Token) : Prop where
  rest : c.rest <:+ (ofTokens ts).rest
  ending : c.ending = (ofTokens ts).ending

/-- The cursors that calls for an expression lead to. -/
inductive Reached (ts : List Token) : Cursor → Prop where
  | start : Reached ts (ofTokens ts)
  | parseExpression {c : Cursor} (h : Reached ts c) : Reached ts c.parseExpression.cursor

namespace IsIn

variable {c : Cursor} {ts : List Token}

theorem withoutEnd (h : c.IsIn ts) : WithoutEnd c.rest :=
  fun t ht => withoutEnd_rest ts t (h.rest.mem ht)

theorem kind_ending (h : c.IsIn ts) : c.ending.kind = .eof := by
  rw [h.ending]
  exact kind_ending_ofTokens ts

theorem ofTokens_ahead (h : c.IsIn ts) : ofTokens c.ahead = c :=
  ofTokens_append_cons h.withoutEnd h.kind_ending []

end IsIn

/-! ### Outcomes of a reply -/

/-- The outcome that a reply to the tokens left stands for. -/
def settle (c : Cursor) : Reply Expr → Outcome (Except Diagnostic Expr)
  | .done e reports rest => ⟨.ok e, c.located reports, { c with rest }⟩
  | .failed missing reports rest =>
    let d := Report.diagnostic c.ending ⟨rest.head?, .expected missing⟩
    ⟨.error d, c.located reports ++ [d], { c with rest }⟩

theorem parseExpression_eq (c : Cursor) : c.parseExpression = c.settle (expression c.rest) := by
  rw [parseExpression]
  cases expression c.rest <;> rfl

theorem cursor_settle (c : Cursor) (r : Reply Expr) : (c.settle r).cursor = ⟨r.rest, c.ending⟩ := by
  cases r <;> rfl

theorem Reached.isIn {c : Cursor} {ts : List Token} (h : Reached ts c) : c.IsIn ts := by
  induction h with
  | start => exact ⟨List.suffix_refl _, rfl⟩
  | @parseExpression c _ ih =>
    rw [parseExpression_eq, cursor_settle]
    exact ⟨(expression_within c.rest).trans ih.rest, ih.ending⟩

/-- If all problems are at tokens, the outcome does not tell where the input ends. -/
theorem settle_leaving {c c' : Cursor} {r : Reply Expr} {t : Token} {left left' : List Token}
    (hr : r.rest = t :: left) (hs : ∀ report ∈ r.reports, report.site.isSome = true) :
    (c'.settle (r.leaving (t :: left'))).result = (c.settle r).result ∧
      (c'.settle (r.leaving (t :: left'))).diagnostics = (c.settle r).diagnostics := by
  cases r with
  | done e reports rest => exact ⟨rfl, located_eq_of_isSome hs⟩
  | failed missing reports rest =>
    obtain rfl : rest = t :: left := hr
    refine ⟨rfl, ?_⟩
    exact congrArg (· ++ [_]) (located_eq_of_isSome hs)

/-! ### The contract -/

/-- What a call for an expression at a cursor may end with. -/
inductive Settled (c : Cursor) (o : Outcome (Except Diagnostic Expr)) : Prop where
  /-- An expression was read, of one token at least, and nothing structural was reported. -/
  | read (e : Expr) (result : o.result = .ok e)
      (consumed : o.cursor.rest.length < c.rest.length)
      (soft : ∀ d ∈ o.diagnostics, d.problem.isStructural = false)
  /-- Something was missing at the token where the call stopped. That was reported last, and nothing
  structural before it. -/
  | missing (what : Expectation) (earlier : List Diagnostic)
      (result : o.result = .error (.atToken o.cursor.next (.expected what)))
      (diagnostics : o.diagnostics = earlier ++ [.atToken o.cursor.next (.expected what)])
      (soft : ∀ d ∈ earlier, d.problem.isStructural = false)

theorem soft_located {reports : List Report} (h : Soft reports) (c : Cursor) :
    ∀ d ∈ c.located reports, d.problem.isStructural = false := by
  intro d hd
  obtain ⟨r, hr, rfl⟩ := List.mem_map.mp hd
  exact h r hr

theorem settled_parseExpression (c : Cursor) : Settled c c.parseExpression := by
  have hsoft := (expression_isPart c.rest).soft
  rw [parseExpression_eq]
  cases h : expression c.rest with
  | done e reports rest =>
    rw [h] at hsoft
    exact .read e rfl (expression_consumes _ _ _ _ h) (soft_located hsoft c)
  | failed missing reports rest =>
    rw [h] at hsoft
    exact .missing missing (c.located reports) rfl rfl (soft_located hsoft c)

/-- The tokens that a call for an expression reads. -/
theorem exists_read_parseExpression (c : Cursor) :
    ∃ read, c.rest = read ++ c.parseExpression.cursor.rest ∧
      c.ahead = read ++ c.parseExpression.cursor.ahead := by
  obtain ⟨read, h⟩ := expression_within c.rest
  refine ⟨read, ?_⟩
  rw [parseExpression_eq, cursor_settle, ahead, ahead, ← List.append_assoc, h]
  exact ⟨rfl, rfl⟩

theorem IsIn.exists_rest {c : Cursor} {ts read after : List Token} (h : c.IsIn ts)
    (hr : WithoutEnd read) (ha : c.ahead = read ++ after) : ∃ left, c.rest = read ++ left := by
  refine ⟨(ofTokens after).rest, ?_⟩
  rw [← rest_ofTokens_append hr, ← ha, h.ofTokens_ahead]

/-- A call ends in the same way at any cursor where the same tokens are ahead, up to the one at
which it stops. -/
theorem parseExpression_congr {c c' : Cursor} {ts ts' : List Token} (hc : c.IsIn ts)
    (hc' : c'.IsIn ts') {read : List Token} (hr : c.rest = read ++ c.parseExpression.cursor.rest)
    (ha : read ++ [c.parseExpression.cursor.next] <+: c'.ahead) :
    c'.parseExpression.result = c.parseExpression.result ∧
      c'.parseExpression.diagnostics = c.parseExpression.diagnostics ∧
      c'.ahead = read ++ c'.parseExpression.cursor.ahead := by
  obtain ⟨after, ha⟩ := ha
  have hwithout := hc.withoutEnd
  rw [parseExpression_eq, cursor_settle] at hr ha
  cases hrest : (expression c.rest).rest with
  | nil =>
    -- The call stopped at the end of the input, so that the cursors are equal.
    rw [hrest, List.append_nil] at hr
    rw [hrest] at ha
    have he : c' = c := by
      rw [← hc'.ofTokens_ahead, ← ha, List.append_assoc, ← hr]
      exact ofTokens_append_cons hwithout hc.kind_ending after
    rw [he, parseExpression_eq, cursor_settle, hrest, ← hr]
    exact ⟨rfl, rfl, rfl⟩
  | cons t left =>
    rw [hrest] at hr ha
    rw [hr] at hwithout
    obtain ⟨hread, ht, -⟩ : WithoutEnd read ∧ t.kind ≠ .eof ∧ WithoutEnd left := by
      simpa using hwithout
    have ha' : c'.ahead = read ++ [t] ++ after := ha.symm
    obtain ⟨left', hr'⟩ := hc'.exists_rest (by simp [hread, ht]) ha'
    rw [List.append_assoc, List.singleton_append] at hr'
    have hlocal := expression_built.isLocal read (t :: left) (t :: left')
      (by rw [← hr]; exact hrest) rfl
    have hsited := expression_built.sited c.rest (by rw [hrest]; exact List.cons_ne_nil t left)
    rw [← hr, ← hr'] at hlocal
    have hsettle : (c'.settle ((expression c.rest).leaving (t :: left'))).result =
        (c.settle (expression c.rest)).result ∧
      (c'.settle ((expression c.rest).leaving (t :: left'))).diagnostics =
        (c.settle (expression c.rest)).diagnostics := settle_leaving hrest hsited
    rw [parseExpression_eq, parseExpression_eq, hlocal, cursor_settle]
    refine ⟨hsettle.1, hsettle.2, ?_⟩
    rw [ahead, hr', List.append_assoc]
    cases expression c.rest <;> rfl

end Cursor

/-- A call for an expression, at any cursor that earlier calls have led to. Either an expression was
read from one or more tokens and nothing structural was reported; or the result is an error, which
is the last and the only structural diagnostic, at the token where the call stopped. At any cursor
in any list where the same tokens are ahead, up to that one, the call gives the same result, adds
the same diagnostics and reads the same tokens. -/
theorem parseExpression_settled {ts : List Token} {c : Cursor} (h : c.Reached ts) :
    let o := c.parseExpression
    c.Settled o ∧ ∃ read, c.ahead = read ++ o.cursor.ahead ∧
      ∀ (ts' : List Token) (c' : Cursor), c'.IsIn ts' → read ++ [o.cursor.next] <+: c'.ahead →
        let o' := c'.parseExpression
        o'.result = o.result ∧ o'.diagnostics = o.diagnostics ∧
          c'.ahead = read ++ o'.cursor.ahead := by
  intro o
  obtain ⟨read, hr, hahead⟩ := c.exists_read_parseExpression
  refine ⟨c.settled_parseExpression, read, hahead, ?_⟩
  intro ts' c' hc' ha
  exact Cursor.parseExpression_congr h.isIn hc' hr ha

/-- In `1 = a b + ; a` the first call has a soft problem and stops before `b`. The second reads
`b +` and misses an operand, as a call does at the beginning of `b + ; )`. -/
theorem parseExpression_settled_afterSoft :
    let token (kind : Kind) : Token := ⟨kind, [], 1, .null⟩
    let ts := [Kind.number, .equal, .identifier, .identifier, .plus, .semicolon,
      .identifier].map token
    let ts' := [Kind.identifier, .plus, .semicolon, .rightParen].map token
    let c := (Cursor.ofTokens ts).parseExpression.cursor
    let c' := Cursor.ofTokens ts'
    let o := c.parseExpression
    let o' := c'.parseExpression
    let read := [Kind.identifier, .plus].map token
    c.Reached ts ∧ c.Settled o ∧ o.diagnostics.length = 1 ∧ c.ahead = read ++ o.cursor.ahead ∧
      c'.IsIn ts' ∧ read ++ [o.cursor.next] <+: c'.ahead ∧ o'.result = o.result ∧
      o'.diagnostics = o.diagnostics ∧ c'.ahead = read ++ o'.cursor.ahead := by
  intro token ts ts' c c' o o' read
  have h : c.Reached ts := .parseExpression .start
  obtain ⟨hs, read', hr, hall⟩ := parseExpression_settled h
  have hahead : c.ahead = read ++ o.cursor.ahead := by decide
  obtain rfl : read' = read := List.append_cancel_right (hr.symm.trans hahead)
  have hin : c'.IsIn ts' := ⟨List.suffix_refl _, rfl⟩
  have hprefix : read ++ [o.cursor.next] <+: c'.ahead := by decide
  exact ⟨h, hs, by decide, hahead, hin, hprefix, hall ts' c' hin hprefix⟩

end ScriptFront
