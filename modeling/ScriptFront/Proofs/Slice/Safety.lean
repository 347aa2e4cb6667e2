import ScriptFront.Proofs.Slice.Statement

/-! # Safety of the parser by index

However a parser is called, its cursor stays among the tokens up to the first end of input, and
each call ends with the answer of the parser on the tokens left.
-/

namespace ScriptFront

open Parse

inductive Call where
  | parse | parseExpression | isAtEnd

inductive Answer where
  | statements (stmts : List Stmt)
  | expression (e : Except Diagnostic Expr)
  | atEnd (b : Bool)

namespace Cursor

def answer (c : Cursor) : Call → Outcome Answer
  | .parse => ⟨.statements c.parse.result, c.parse.diagnostics, c.parse.cursor⟩
  | .parseExpression =>
    ⟨.expression c.parseExpression.result, c.parseExpression.diagnostics, c.parseExpression.cursor⟩
  | .isAtEnd => ⟨.atEnd c.atEnd, [], c⟩

def answers (c : Cursor) : List Call → Outcome (List Answer)
  | [] => ⟨[], [], c⟩
  | call :: calls =>
    let first := c.answer call
    let more := first.cursor.answers calls
    ⟨first.result :: more.result, first.diagnostics ++ more.diagnostics, more.cursor⟩

end Cursor

namespace Slice

def answer (n : Nat) : Call → Run Answer
  | .parse => .statements <$> parse n
  | .parseExpression => .expression <$> parseExpression n
  | .isAtEnd => .atEnd <$> isAtEnd

def answers (n : Nat) : List Call → Run (List Answer)
  | [] => return []
  | call :: calls => do
    let first ← answer n call
    return first :: (← answers n calls)

/-! ### The tokens of a parser -/

theorem exists_first_end (ts : List Token) :
    WithoutEnd ts ∨ ∃ body ending after, ts = body ++ ending :: after ∧ WithoutEnd body ∧
      ending.kind = .eof := by
  induction ts with
  | nil => exact Or.inl withoutEnd_nil
  | cons t ts ih =>
    by_cases ht : t.kind = .eof
    · exact Or.inr ⟨[], t, ts, rfl, withoutEnd_nil, ht⟩
    · rcases ih with h | ⟨body, ending, after, rfl, hb, he⟩
      · exact Or.inl (withoutEnd_cons.mpr ⟨ht, h⟩)
      · exact Or.inr ⟨t :: body, ending, after, rfl, withoutEnd_cons.mpr ⟨ht, hb⟩, he⟩

theorem state_body (c : Input) : c.state c.body [] = ⟨c.tokens, 0, []⟩ := by
  simp [Input.state]

/-- A new parser stands before the body of its tokens, which an end of input follows. -/
theorem exists_input (ts : List Token) :
    ∃ c : Input, new ts = c.state c.body [] ∧ Cursor.ofTokens ts = ⟨c.body, c.ending⟩ := by
  rcases exists_first_end ts with h | ⟨body, ending, after, rfl, hb, he⟩
  · have hf : ts.find? Cursor.isEnding = none := by
      simpa [Cursor.isEnding, WithoutEnd] using h
    let line := (ts.getLast?.map Token.line).getD 1
    refine ⟨⟨ts, .ending line, [], h, rfl⟩, ?_, ?_⟩
    · rw [state_body, new]
      cases hl : ts.getLast? with
      | none =>
        obtain rfl := List.getLast?_eq_none_iff.mp hl
        rfl
      | some last =>
        have hk : last.kind ≠ .eof := h last (List.mem_of_getLast? hl)
        simp [line, hl, hk, Input.tokens]
    · rw [Cursor.ofTokens, hf, Cursor.takeWhile_of_withoutEnd h]
      rfl
  · -- The tokens are kept as they are if the last one is an end of input.
    have hc := Cursor.ofTokens_append_cons hb he after
    have hl : (body ++ ending :: after).getLast? = some (after.getLast?.getD ending) := by
      simp [List.getLast?_append, List.getLast?_cons]
    by_cases hk : (after.getLast?.getD ending).kind = .eof
    · refine ⟨⟨body, ending, after, hb, he⟩, ?_, hc⟩
      rw [state_body, new, hl]
      simp [hk, Input.tokens]
    · let added : Token := .ending (after.getLast?.getD ending).line
      refine ⟨⟨body, ending, after ++ [added], hb, he⟩, ?_, hc⟩
      rw [state_body, new, hl]
      simp [hk, added, Input.tokens]

/-! ### Answers -/

variable {c : Input} {rest : List Token}

theorem Ends.run_map {α β : Type} {m : Nat → Run α} {f : α → β} {a : α} {s s' : State}
    (h : Ends m s (a, s')) : Ends (fun n => f <$> m n) s (f a, s') := by
  simp only [← bind_pure_comp]
  exact h.run_bind (.of_eq rfl)

theorem parse_ends (h : rest <:+ c.body) (reported : List Diagnostic) :
    let o := (⟨rest, c.ending⟩ : Cursor).parse
    Ends parse (c.state rest reported) (o.result, c.state [] (reported ++ o.diagnostics)) ∧
      o.cursor = ⟨[], c.ending⟩ := by
  have hstop : ∀ rest reported, rest <:+ c.body → isAtEnd (c.state rest reported) =
      some ((rest.head?.map Token.kind).isNone, c.state rest reported) := by
    intro rest reported h
    rw [isAtEnd_state h]
    cases rest <;> rfl
  have hd := (statement_and_declaration_refine (c := c) (rest.length + 1)).2
  obtain ⟨hl, -⟩ :=
    declarationLoop_refines rfl hstop hd [] rest reported h (Nat.lt_succ_self _) trivial
  obtain ⟨stmts, reports, hp⟩ := exists_program_eq_done rest
  change Ends _ _ (c.result reported (program rest)) at hl
  rw [hp] at hl
  simp only [Cursor.parse_eq (c := ⟨rest, c.ending⟩) hp]
  exact ⟨.of_lift hl, trivial⟩

/-- A call ends with the answer of the parser on the tokens left, and leaves what that leaves. -/
theorem answer_ends (h : rest <:+ c.body) (reported : List Diagnostic) (call : Call) :
    let o := (⟨rest, c.ending⟩ : Cursor).answer call
    Ends (answer · call) (c.state rest reported)
        (o.result, c.state o.cursor.rest (reported ++ o.diagnostics)) ∧
      o.cursor.rest <:+ rest ∧ o.cursor.ending = c.ending := by
  cases call with
  | parse =>
    obtain ⟨hp, ho⟩ := parse_ends h reported
    simp only [Cursor.answer, ho]
    exact ⟨hp.run_map, List.nil_suffix, trivial⟩
  | parseExpression =>
    obtain ⟨he, hw⟩ := assignment_refines rest reported h (Nat.lt_succ_self _) trivial
    change Ends parseExpression _ _ at he
    simp only [Cursor.answer, Cursor.parseExpression]
    cases hp : expression rest with
    | done e reports left =>
      rw [hp] at he hw
      exact ⟨he.run_map, hw, rfl⟩
    | failed missing reports left =>
      rw [hp] at he hw
      rw [← List.append_assoc]
      exact ⟨he.run_map, hw, rfl⟩
  | isAtEnd =>
    simp only [Cursor.answer, List.append_nil]
    exact ⟨.run_map (.of_eq (isAtEnd_state h)), List.suffix_refl rest, trivial⟩

theorem answers_end (h : rest <:+ c.body) (reported : List Diagnostic) (calls : List Call) :
    let o := (⟨rest, c.ending⟩ : Cursor).answers calls
    Ends (answers · calls) (c.state rest reported)
        (o.result, c.state o.cursor.rest (reported ++ o.diagnostics)) ∧
      o.cursor.rest <:+ rest ∧ o.cursor.ending = c.ending := by
  induction calls generalizing rest reported with
  | nil =>
    simp only [Cursor.answers, List.append_nil]
    exact ⟨.of_eq rfl, List.suffix_refl rest, trivial⟩
  | cons call calls ih =>
    obtain ⟨ha, hw, he⟩ := answer_ends h reported call
    let first := (⟨rest, c.ending⟩ : Cursor).answer call
    have hc : first.cursor = ⟨first.cursor.rest, c.ending⟩ := by rw [← he]
    obtain ⟨ha', hw', he'⟩ := ih (hw.trans h) (reported ++ first.diagnostics)
    rw [← hc] at ha' hw' he'
    simp only [Cursor.answers, ← List.append_assoc]
    exact ⟨ha.run_bind (ha'.run_bind (.of_eq rfl)), hw'.trans hw, he'⟩

/-! ### Safety -/

/-- The index of the first end of input. -/
def firstEnd (ts : List Token) : Nat := (new ts).tokens.findIdx Cursor.isEnding

/-- The parser is on those tokens, and its cursor is not past the first end of input. -/
def Inside (ts : List Token) (s : State) : Prop :=
  s.tokens = (new ts).tokens ∧ s.current ≤ firstEnd ts

theorem firstEnd_eq {ts : List Token} (h : new ts = c.state c.body []) :
    firstEnd ts = c.body.length := by
  have hn : ∀ t ∈ c.body, Cursor.isEnding t = false := by
    intro t ht
    simp [Cursor.isEnding, c.withoutEnd t ht]
  have he : Cursor.isEnding c.ending = true := by simp [Cursor.isEnding, c.isEnding]
  rw [firstEnd, h, state_body]
  simp [Input.tokens, List.findIdx_append, List.findIdx_cons, he, List.findIdx_eq_length.mpr hn]

theorem inside_iff {ts : List Token} (h : new ts = c.state c.body []) {s : State} :
    Inside ts s ↔ ∃ rest, rest <:+ c.body ∧ s = c.state rest s.reported := by
  rw [Inside, firstEnd_eq h, h, state_body]
  constructor
  · rintro ⟨ht, hc⟩
    refine ⟨c.body.drop s.current, List.drop_suffix _ _, ?_⟩
    obtain ⟨tokens, current, reported⟩ := s
    simp only [Input.state, List.length_drop, State.mk.injEq, and_true]
    exact ⟨ht, by simp only at hc; omega⟩
  · rintro ⟨rest, -, hs⟩
    rw [hs]
    exact ⟨rfl, Nat.sub_le _ _⟩

theorem current_le {left : List Token} (h : left <:+ rest) (reported reported' : List Diagnostic) :
    (c.state rest reported).current ≤ (c.state left reported').current :=
  Nat.sub_le_sub_left h.length_le _

theorem exists_result_eq {α : Type} (reported : List Diagnostic) (r : Reply α) :
    ∃ e reported', c.result reported r = (e, c.state r.rest reported') := by
  cases r with
  | done a reports rest => exact ⟨_, _, rfl⟩
  | failed missing reports rest => exact ⟨_, _, rfl⟩

/-- What a parser on those tokens promises. A step that ends has looked at no index outside the
tokens. -/
structure Safe (ts : List Token) : Prop where
  start : Inside ts (new ts)
  /-- The one step that moves the cursor moves it neither back nor past the first end of input. -/
  advance : ∀ s t s', Inside ts s → advance s = some (t, s') →
    Inside ts s' ∧ s.current ≤ s'.current
  /-- Every call ends with an answer, and moves the cursor no other way. -/
  call : ∀ s, Inside ts s → ∀ call, ∃ a s',
    Ends (answer · call) s (a, s') ∧ Inside ts s' ∧ s.current ≤ s'.current
  /-- So does every statement. -/
  statement : ∀ s, Inside ts s → ∃ r s',
    Ends statement s (r, s') ∧ Inside ts s' ∧ s.current ≤ s'.current
  /-- A declaration moves the cursor on, whether it is kept or given up. -/
  declaration : ∀ s, Inside ts s → isAtEnd s = some (false, s) → ∃ d s',
    Ends declaration s (d, s') ∧ Inside ts s' ∧ s.current < s'.current
  /-- Parsing reads everything, so that to parse again gives nothing and reports nothing. -/
  parse : ∀ s, Inside ts s → ∃ stmts s',
    Ends parse s (stmts, s') ∧ isAtEnd s' = some (true, s') ∧ Ends parse s' ([], s')
  /-- Any calls in any order are answered, as the parser on the tokens left answers them. -/
  calls : ∀ calls, ∃ s,
    Ends (answers · calls) (new ts) (((Cursor.ofTokens ts).answers calls).result, s) ∧
      s.reported = ((Cursor.ofTokens ts).answers calls).diagnostics ∧ Inside ts s
  /-- What follows an end of input makes no difference. -/
  rest : ∀ body ending after, ts = body ++ ending :: after → ending.kind = .eof →
    ∀ after' calls, ∃ as s s', Ends (answers · calls) (new ts) (as, s) ∧
      Ends (answers · calls) (new (body ++ ending :: after')) (as, s') ∧ s.reported = s'.reported

theorem ofTokens_ignores {body : List Token} {ending : Token} (he : ending.kind = .eof)
    (after after' : List Token) :
    Cursor.ofTokens (body ++ ending :: after) = Cursor.ofTokens (body ++ ending :: after') := by
  rcases exists_first_end body with hb | ⟨before, first, middle, rfl, hb, hf⟩
  · rw [Cursor.ofTokens_append_cons hb he, Cursor.ofTokens_append_cons hb he]
  · rw [List.append_assoc, List.append_assoc]
    exact (Cursor.ofTokens_append_cons hb hf _).trans (Cursor.ofTokens_append_cons hb hf _).symm

theorem answers_new (ts : List Token) (calls : List Call) : ∃ s,
    Ends (answers · calls) (new ts) (((Cursor.ofTokens ts).answers calls).result, s) ∧
      s.reported = ((Cursor.ofTokens ts).answers calls).diagnostics ∧ Inside ts s := by
  obtain ⟨c, hc, ho⟩ := exists_input ts
  obtain ⟨ha, hw, -⟩ := answers_end (List.suffix_refl c.body) [] calls
  rw [← ho, ← hc] at ha
  rw [← ho] at hw
  exact ⟨_, ha, rfl, (inside_iff hc).mpr ⟨_, hw, rfl⟩⟩

theorem advance_inside {ts : List Token} {s s' : State} {t : Token} (hs : Inside ts s)
    (h : advance s = some (t, s')) : Inside ts s' ∧ s.current ≤ s'.current := by
  obtain ⟨c, hc, -⟩ := exists_input ts
  obtain ⟨rest, hr, he⟩ := (inside_iff hc).mp hs
  cases rest with
  | nil =>
    rw [he, advance, run_bind (isAtEnd_state hr), ← he] at h
    change previous s = some (t, s') at h
    have hn : s' = s := by
      rw [previous] at h
      split at h
      · cases h
      · obtain ⟨u, -, hu⟩ := Option.map_eq_some_iff.mp h
        cases hu
        rfl
    rw [hn]
    exact ⟨hs, Nat.le_refl _⟩
  | cons u rest =>
    have ht : rest <:+ u :: rest := List.suffix_cons u rest
    rw [he, advance_state hr] at h
    cases h
    rw [he]
    exact ⟨(inside_iff hc).mpr ⟨rest, ht.trans hr, rfl⟩, current_le ht _ _⟩

theorem declaration_progress {ts : List Token} {s : State} (hs : Inside ts s)
    (he : isAtEnd s = some (false, s)) :
    ∃ d s', Ends declaration s (d, s') ∧ Inside ts s' ∧ s.current < s'.current := by
  obtain ⟨c, hc, -⟩ := exists_input ts
  obtain ⟨rest, hr, hs⟩ := (inside_iff hc).mp hs
  rw [hs] at he ⊢
  rw [isAtEnd_state hr] at he
  cases rest with
  | nil => simp at he
  | cons t rest =>
    have hd := (statement_and_declaration_refine (c := c) (rest.length + 2)).2
    obtain ⟨hx, hw⟩ := hd (t :: rest) s.reported hr (Nat.lt_succ_self _) (List.cons_ne_nil t rest)
    have hl := declaration_length_lt t rest
    obtain ⟨d, reports, left, hp⟩ := exists_declaration_eq_done (t :: rest)
    rw [hp] at hx hw hl
    have hl' : (t :: rest).length ≤ c.body.length := hr.length_le
    change left.length < (t :: rest).length at hl
    refine ⟨d, _, .of_lift hx, (inside_iff hc).mpr ⟨left, hw.trans hr, rfl⟩, ?_⟩
    change c.body.length - (t :: rest).length < c.body.length - left.length
    omega

/-- A parser is safe on any tokens. -/
theorem parser_safe (ts : List Token) : Safe ts where
  start := by
    obtain ⟨c, hc, -⟩ := exists_input ts
    exact (inside_iff hc).mpr ⟨c.body, List.suffix_refl _, by rw [hc]; rfl⟩
  advance s t s' hs ha := advance_inside hs ha
  call s hs call := by
    obtain ⟨c, hc, -⟩ := exists_input ts
    obtain ⟨rest, hr, hs⟩ := (inside_iff hc).mp hs
    obtain ⟨ha, hw, -⟩ := answer_ends hr s.reported call
    rw [hs]
    exact ⟨_, _, ha, (inside_iff hc).mpr ⟨_, hw.trans hr, rfl⟩, current_le hw _ _⟩
  statement s hs := by
    obtain ⟨c, hc, -⟩ := exists_input ts
    obtain ⟨rest, hr, hs⟩ := (inside_iff hc).mp hs
    have h := (statement_and_declaration_refine (c := c) (rest.length + 1)).1
    obtain ⟨hx, hw⟩ := h rest s.reported hr (Nat.lt_succ_self _) trivial
    obtain ⟨e, reported, he⟩ := exists_result_eq (c := c) s.reported (Parse.statement rest)
    rw [he] at hx
    rw [hs]
    exact ⟨_, _, hx, (inside_iff hc).mpr ⟨_, hw.trans hr, rfl⟩, current_le hw _ _⟩
  declaration s hs he := declaration_progress hs he
  parse s hs := by
    obtain ⟨c, hc, -⟩ := exists_input ts
    obtain ⟨rest, hr, hs⟩ := (inside_iff hc).mp hs
    obtain ⟨hp, -⟩ := parse_ends hr s.reported
    rw [hs]
    refine ⟨_, _, hp, isAtEnd_state List.nil_suffix, ?_⟩
    have hn : program [] = .done [] [] [] := rfl
    obtain ⟨hp', -⟩ := parse_ends (c := c) List.nil_suffix
      (s.reported ++ (⟨rest, c.ending⟩ : Cursor).parse.diagnostics)
    rw [Cursor.parse_eq (c := ⟨[], c.ending⟩) hn] at hp'
    simpa [Cursor.located] using hp'
  calls calls := answers_new ts calls
  rest body ending after ht he after' calls := by
    obtain ⟨s, ha, hr, -⟩ := answers_new ts calls
    obtain ⟨s', ha', hr', -⟩ := answers_new (body ++ ending :: after') calls
    rw [ofTokens_ignores he after' after, ← ht] at ha' hr'
    exact ⟨_, s, s', ha, ha', hr.trans hr'.symm⟩

end Slice

end ScriptFront
