import Mathlib.Order.Bounds.Basic
import ScriptFront.Proofs.Order.Program
import ScriptFront.Proofs.Slice.Safety
import ScriptFront.Token.Scan

/-! # Where reading goes on after a problem

A declaration that misses something is given up while the cursor still stands at the token that is
blamed, however deep in the declaration that was found. Then this token is dropped, and reading goes
on at the first index after it that follows a semicolon, starts a declaration or ends the input.
-/

namespace ScriptFront

namespace Parse

/-- Reading may go on at the index in tokens that end at `n`: they end there, a semicolon stands
before it, or a declaration starts there. -/
def IsBoundary (ts : List Token) (n i : Nat) : Prop :=
  i = n ∨ (∃ t, ts[i - 1]? = some t ∧ t.kind = .semicolon) ∨
    ∃ t, ts[i]? = some t ∧ t.kind.startsDeclaration = true

/-- The index is the first after `e` at which reading may go on. -/
def Resumes (ts : List Token) (n e q : Nat) : Prop :=
  IsLeast {i | e < i ∧ i ≤ n ∧ IsBoundary ts n i} q

/-! ### The tokens left -/

theorem isBoundary_cons {t : Token} {ts : List Token} {n i : Nat} (hi : 0 < i) :
    IsBoundary (t :: ts) (n + 1) (i + 1) ↔ IsBoundary ts n i := by
  obtain ⟨i, rfl⟩ := Nat.exists_eq_succ_of_ne_zero hi.ne'
  simp [IsBoundary]

theorem isBoundary_one {t u : Token} {rest : List Token} :
    IsBoundary (t :: u :: rest) (t :: u :: rest).length 1 ↔
      t.kind = .semicolon ∨ u.kind.startsDeclaration = true := by
  simp [IsBoundary]

/-- Recovery from a problem at the first token goes on at the first boundary after it. The induction
is on the tokens that are dropped: what is no boundary after the first of them is one in the others,
an index further on. -/
theorem exists_resume_eq_drop (t : Token) (rest : List Token) :
    ∃ k, resume (t :: rest) = (t :: rest).drop k ∧
      Resumes (t :: rest) (t :: rest).length 0 k := by
  induction rest generalizing t with
  | nil =>
    refine ⟨1, by simp [resume], ⟨Nat.one_pos, le_rfl, .inl rfl⟩, ?_⟩
    intro i hi
    exact hi.1
  | cons u rest ih =>
    by_cases hstop : t.kind = .semicolon ∨ u.kind.startsDeclaration = true
    · refine ⟨1, ?_, ⟨Nat.one_pos, by simp, isBoundary_one.mpr hstop⟩, ?_⟩
      · rw [resume, if_pos (by simpa using hstop)]
        rfl
      · intro i hi
        exact hi.1
    · obtain ⟨k, hk, ⟨hpos, hle, hboundary⟩, hleast⟩ := ih u
      refine ⟨k + 1, ?_, ⟨Nat.succ_pos k, Nat.succ_le_succ hle, (isBoundary_cons hpos).mpr hboundary⟩,
        ?_⟩
      · rw [resume, if_neg (by simpa using hstop), hk]
        rfl
      · rintro i ⟨hi, hi', hb⟩
        obtain ⟨i, rfl⟩ := Nat.exists_eq_succ_of_ne_zero hi.ne'
        have hpos' : 0 < i := by
          by_contra hzero
          obtain rfl : i = 0 := by omega
          exact hstop (isBoundary_one.mp hb)
        have hlt : k ≤ i :=
          hleast ⟨hpos', Nat.le_of_succ_le_succ hi', (isBoundary_cons hpos').mp hb⟩
        exact Nat.succ_le_succ hlt

/-! ### Indices in all tokens -/

theorem isBoundary_drop {ts : List Token} {n e i : Nat} (hi : 0 < i) (hle : i ≤ n - e) :
    IsBoundary ((ts.take n).drop e) (n - e) i ↔ IsBoundary ts n (e + i) := by
  by_cases hend : i = n - e
  · exact iff_of_true (.inl hend) (.inl (by omega))
  · have hget (j : Nat) (hj : j < n - e) : ((ts.take n).drop e)[j]? = ts[e + j]? := by
      rw [List.getElem?_drop, List.getElem?_take_of_lt (by omega)]
    have hbefore : e + (i - 1) = e + i - 1 := by omega
    have hne : e + i ≠ n := by omega
    unfold IsBoundary
    rw [hget i (by omega), hget (i - 1) (by omega), hbefore]
    simp only [hend, hne, false_or]

theorem Resumes.of_drop {ts : List Token} {n e k : Nat}
    (h : Resumes ((ts.take n).drop e) (n - e) 0 k) : Resumes ts n e (e + k) := by
  obtain ⟨⟨hpos, hle, hboundary⟩, hleast⟩ := h
  refine ⟨⟨by omega, by omega, (isBoundary_drop hpos hle).mp hboundary⟩, ?_⟩
  rintro i ⟨hi, hi', hb⟩
  obtain ⟨j, rfl⟩ := Nat.exists_eq_add_of_le hi.le
  have hj : 0 < j := by omega
  have hj' : j ≤ n - e := by omega
  have hkj : k ≤ j := hleast ⟨hj, hj', (isBoundary_drop hj hj').mpr hb⟩
  omega

theorem resumes_of_suffix {ts place : List Token} {n : Nat}
    (hn : n = (Cursor.ofTokens ts).rest.length) (h : place <:+ (Cursor.ofTokens ts).rest)
    (hne : place ≠ []) : Resumes ts n (n - place.length) (n - (resume place).length) := by
  have hle : place.length ≤ n := hn ▸ h.length_le
  have hrest : (Cursor.ofTokens ts).rest = ts.take n := by
    rw [hn, Cursor.length_rest_ofTokens, Cursor.rest_ofTokens]
  have hplace : place = (ts.take n).drop (n - place.length) := by
    rw [← hrest, hn]
    exact List.suffix_iff_eq_drop.mp h
  obtain ⟨t, rest, rfl⟩ := List.exists_cons_of_ne_nil hne
  obtain ⟨k, hk, hresumes⟩ := exists_resume_eq_drop t rest
  have hlength : n - (n - (t :: rest).length) = (t :: rest).length := by omega
  have hindex : n - (resume (t :: rest)).length = n - (t :: rest).length + k := by
    have hk' : k ≤ (t :: rest).length := hresumes.1.2.1
    rw [hk, List.length_drop]
    omega
  rw [hindex]
  apply Resumes.of_drop
  rwa [← hplace, hlength]

end Parse

namespace Slice

open Parse

/-! ### Steps that give up -/

theorem Ends.unique {ρ : Type} {m : Nat → State → Option ρ} {s : State} {r r' : ρ}
    (h : Ends m s r) (h' : Ends m s r') : r = r' := by
  obtain ⟨k, hk⟩ := h
  obtain ⟨l, hl⟩ := h'
  have heq := (hk (max k l) (Nat.le_max_left k l)).symm.trans (hl (max k l) (Nat.le_max_right k l))
  exact Option.some.inj heq

/-- From `s`, the step gives up with a structural problem that was raised in another state, at the
next token there. -/
def GivesUpAt {α : Type} (m : Nat → Attempt α) (s raised : State) : Prop :=
  ∃ t missing d left, peek raised = some (t, raised) ∧
    (errorAt t (.expected missing) : Attempt α) raised = some (.error d, left) ∧
    Ends m s (.error d, left)

theorem current_errorAt {α : Type} {t : Token} {problem : Problem} {r : Except Diagnostic α}
    {s s' : State} (h : (errorAt t problem : Attempt α) s = some (r, s')) :
    s'.current = s.current := by
  change some (_, { s with reported := s.reported ++ [.atToken t problem] }) = some (r, s') at h
  cases h
  rfl

variable {α : Type} {c : Input} {m : Nat → Attempt α} {s raised : State}
  {reported : List Diagnostic} {missing : Expectation} {earlier : List Report}
  {place : List Token}

theorem givesUpAt_of_failed (hp : place <:+ c.body)
    (h : Ends m s (c.result reported (.failed missing earlier place))) :
    GivesUpAt m s (c.state place (reported ++ earlier.map (·.diagnostic c.ending))) := by
  have hafter : (Reply.failed missing earlier place : Reply α) =
      (Reply.failed missing [] place).after earlier := by
    rw [Reply.after, List.append_nil]
  rw [hafter, result_after] at h
  exact ⟨_, missing, _, _, peek_state hp, errorAt_state place missing, h⟩

theorem GivesUpAt.current_eq (hg : GivesUpAt m s raised)
    (h : Ends m s (c.result reported (.failed missing earlier place))) :
    raised.current = c.body.length - place.length := by
  obtain ⟨t, missing', d, left, -, herror, hends⟩ := hg
  have hleft : left = (c.result reported (.failed missing earlier place : Reply α)).2 :=
    congrArg Prod.snd (hends.unique h)
  rw [← current_errorAt herror, hleft]
  rfl

/-! ### Recovery -/

/-- A declaration read from `s` was given up at `raised`, and reading goes on at `resumed`. -/
structure Recovery (ts : List Token) (s raised resumed : State) : Prop where
  current_le : s.current ≤ raised.current
  le_firstEnd : raised.current ≤ firstEnd ts
  /-- The parser on the tokens left misses something at the same place. -/
  failed : ∃ missing reports,
    Parse.declarationBody Parse.statement Parse.declaration
        ((Cursor.ofTokens ts).rest.drop s.current) =
      .failed missing reports ((Cursor.ofTokens ts).rest.drop raised.current)
  ending : raised.current = firstEnd ts → resumed.current = firstEnd ts
  least : raised.current < firstEnd ts →
    IsLeast {q | raised.current < q ∧ q ≤ firstEnd ts ∧ IsBoundary ts (firstEnd ts) q}
      resumed.current
  /-- Reading goes on no later than after the first semicolon, which may be the token blamed. -/
  semicolon : ∀ i t, raised.current ≤ i → i < firstEnd ts → ts[i]? = some t →
    t.kind = .semicolon → resumed.current ≤ i + 1
  /-- Reading goes on no later than at the first start of a declaration after the token blamed. -/
  start : ∀ i t, raised.current < i → i < firstEnd ts → ts[i]? = some t →
    t.kind.startsDeclaration = true → resumed.current ≤ i

theorem firstEnd_eq_length (ts : List Token) : firstEnd ts = (Cursor.ofTokens ts).rest.length := by
  obtain ⟨c, hc, ho⟩ := exists_input ts
  rw [firstEnd_eq hc, ho]

theorem drop_current {rest : List Token} (h : rest <:+ c.body) :
    c.body.drop (c.state rest reported).current = rest :=
  (List.suffix_iff_eq_drop.mp h).symm

theorem recovery_of_place {ts rest : List Token} {resumed : State}
    (ho : (Cursor.ofTokens ts).rest = c.body) (hr : rest <:+ c.body) (hp : place <:+ rest)
    (hb : Parse.declarationBody Parse.statement Parse.declaration rest =
      .failed missing earlier place)
    (hs : s.current = c.body.length - rest.length)
    (hraised : raised.current = c.body.length - place.length)
    (hresumed : resumed.current = c.body.length - (resume place).length) :
    Recovery ts s raised resumed := by
  have hn : firstEnd ts = c.body.length := by rw [firstEnd_eq_length, ho]
  have hplace : place <:+ c.body := hp.trans hr
  have hle : place.length ≤ rest.length := hp.length_le
  have hle' : rest.length ≤ c.body.length := hr.length_le
  have hending : raised.current = firstEnd ts → resumed.current = firstEnd ts := by
    intro h
    have hnil : place = [] := List.length_eq_zero_iff.mp (by omega)
    rw [hresumed, hnil, hn]
    rfl
  have hleast : raised.current < firstEnd ts →
      Resumes ts (firstEnd ts) raised.current resumed.current := by
    intro h
    have hne : place ≠ [] := by
      rintro rfl
      rw [hraised, hn] at h
      exact absurd h (Nat.lt_irrefl _)
    rw [hraised, hresumed, ← hn]
    exact resumes_of_suffix (firstEnd_eq_length ts) (ho ▸ hplace) hne
  refine ⟨by omega, by omega, ?_, hending, hleast, ?_, ?_⟩
  · rw [ho, hs, hraised, ← List.suffix_iff_eq_drop.mp hr, ← List.suffix_iff_eq_drop.mp hplace]
    exact ⟨missing, earlier, hb⟩
  · intro i t hi hi' ht hk
    have hboundary : IsBoundary ts (firstEnd ts) (i + 1) := .inr (.inl ⟨t, by simpa using ht, hk⟩)
    exact (hleast (by omega)).2 ⟨by omega, by omega, hboundary⟩
  · intro i t hi hi' ht hk
    exact (hleast (by omega)).2 ⟨hi, hi'.le, .inr (.inr ⟨t, ht, hk⟩)⟩

/-- Where reading goes on. Wherever the cursor stands before the end of the input, a declaration
ends as the parser on the tokens left does. If it is given up, its structural problem was raised at
the token that the cursor still stands at, and the cursor goes to the least index after that one
which ends the input, follows a semicolon or starts a declaration; at the end of the input it
stays. -/
theorem declaration_resumes {ts : List Token} {s : State} (hs : Inside ts s)
    (hn : isAtEnd s = some (false, s)) :
    let body := (Cursor.ofTokens ts).rest
    ∃ d resumed, Ends declaration s (d, resumed) ∧
      (∃ reports, Parse.declaration (body.drop s.current) =
        .done d reports (body.drop resumed.current)) ∧
      (d = none → (∃ raised, GivesUpAt declarationBody s raised) ∧
        ∀ raised, GivesUpAt declarationBody s raised → Recovery ts s raised resumed) := by
  intro body
  obtain ⟨c, hc, ho⟩ := exists_input ts
  have hbody : body = c.body := by simp only [body, ho]
  obtain ⟨rest, hr, hs⟩ := (inside_iff hc).mp hs
  have hcurrent : s.current = c.body.length - rest.length := congrArg State.current hs
  have hne : rest ≠ [] := by
    rintro rfl
    rw [hs, isAtEnd_state hr] at hn
    cases hn
  obtain ⟨hends, hw⟩ := (statement_and_declaration_refine (rest.length + 1)).2 rest s.reported hr
    (Nat.lt_succ_self _) hne
  obtain ⟨hgiven, hw'⟩ := declarationBody_refines (rest.length + 1) rest s.reported hr
    (Nat.lt_succ_self _) trivial
  rw [← hs] at hends hgiven
  obtain ⟨d, reports, left, hp⟩ := exists_declaration_eq_done rest
  rw [hp] at hends hw
  have hleft : left <:+ c.body := List.IsSuffix.trans hw hr
  refine ⟨d, _, .of_lift hends, ⟨reports, ?_⟩, ?_⟩
  · rw [hbody, hcurrent, ← List.suffix_iff_eq_drop.mp hr, drop_current hleft]
    exact hp
  · rintro rfl
    rw [declaration_eq] at hp
    obtain ⟨missing, earlier, place, hb, -, rfl⟩ := Parser.recovering_eq_none_iff.mp hp
    rw [hb] at hgiven hw'
    have hplace : place <:+ rest := hw'
    refine ⟨⟨_, givesUpAt_of_failed (hplace.trans hr) hgiven⟩, fun raised hraised => ?_⟩
    exact recovery_of_place hbody hr hplace hb hcurrent (hraised.current_eq hgiven) rfl

/-- The second token of `{ a = f(1; b; }` begins a declaration in a block. The parenthesis is missing
at the semicolon, the seventh token, where the arguments of a call in an assignment are read. Only
this token is dropped. -/
theorem declaration_resumes_atSemicolon :
    let ts := (scan (text "\x7b a = f(1; b; \x7d")).tokens
    let s : State := { new ts with current := 1 }
    Inside ts s ∧ isAtEnd s = some (false, s) ∧
      ∃ raised resumed, Ends declaration s (none, resumed) ∧ GivesUpAt declarationBody s raised ∧
        Recovery ts s raised resumed ∧ raised.current = 6 ∧ resumed.current = 7 := by
  intro ts s
  have hs : Inside ts s := ⟨rfl, by decide⟩
  have hn : isAtEnd s = some (false, s) := rfl
  let body := (Cursor.ofTokens ts).rest
  have hlength : body.length = 10 := by decide
  obtain ⟨d, resumed, hends, ⟨reports, hparse⟩, hrecovers⟩ := declaration_resumes hs hn
  have hd : d = none := by
    have hnone : (match Parse.declaration (body.drop 1) with
        | .done d _ _ => d.isNone
        | .failed .. => false) = true := by decide +kernel
    rw [hparse] at hnone
    exact Option.isNone_iff_eq_none.mp hnone
  subst hd
  obtain ⟨⟨raised, hgives⟩, hrecovery⟩ := hrecovers rfl
  have hr := hrecovery raised hgives
  refine ⟨hs, hn, raised, resumed, hends, hgives, hr, ?_, ?_⟩
  · obtain ⟨missing, earlier, hfailed⟩ := hr.failed
    have hplace : (Parse.declarationBody Parse.statement Parse.declaration (body.drop 1)).rest =
        body.drop 6 := by decide +kernel
    rw [hfailed] at hplace
    have hlengths : (body.drop raised.current).length = (body.drop 6).length :=
      congrArg List.length hplace
    simp only [List.length_drop] at hlengths
    omega
  · have hleft : (Parse.declaration (body.drop 1)).rest = body.drop 7 := by decide +kernel
    rw [hparse] at hleft
    have hlengths : (body.drop resumed.current).length = (body.drop 7).length :=
      congrArg List.length hleft
    simp only [List.length_drop] at hlengths
    omega

end Slice

end ScriptFront
