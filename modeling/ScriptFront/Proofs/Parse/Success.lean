import ScriptFront.Parse.Progress

/-! # Successful runs

What it means for each building block of a parser to succeed: the value, the reports and the
tokens left are determined by those of its parts. A repetition that succeeds is a finite run of
steps.
-/

namespace ScriptFront

open Parse

namespace Parser

variable {α β : Type} {ts rest : List Token} {reports : List Report}

theorem ne_of_wanted {wanted : Kind → Bool} {j k : Kind} (hj : wanted j = true)
    (hk : wanted k = false) : j ≠ k := by
  rintro rfl
  cases hj.symm.trans hk

/-- The list does not begin with a token of a kind as wanted. -/
def Lacks (wanted : Kind → Bool) (ts : List Token) : Prop :=
  ∀ t ∈ ts.head?, wanted t.kind = false

theorem lacks_nil (wanted : Kind → Bool) : Lacks wanted [] := by
  simp [Lacks]

@[simp]
theorem lacks_cons {wanted : Kind → Bool} {t : Token} :
    Lacks wanted (t :: rest) ↔ wanted t.kind = false := by
  simp [Lacks]

theorem Lacks.mono {wanted wanted' : Kind → Bool} (h : Lacks wanted ts)
    (hw : ∀ k, wanted' k = true → wanted k = true) : Lacks wanted' ts := by
  intro t ht
  have hk := h t ht
  cases hk' : wanted' t.kind with
  | false => rfl
  | true => simp [hw t.kind hk'] at hk

@[simp]
theorem after_nil (r : Reply α) : r.after [] = r := by
  cases r <;> rfl

@[simp]
theorem after_done (earlier : List Report) (a : α) :
    (Reply.done a reports rest).after earlier = .done a (earlier ++ reports) rest := rfl

theorem after_append (earlier later : List Report) (r : Reply α) :
    r.after (earlier ++ later) = (r.after later).after earlier := by
  cases r <;> simp [Reply.after]

instance : LawfulMonad Parser := LawfulMonad.mk' Parser
  (by
    intro α p
    funext ts
    change (p >>= pure) ts = _
    cases h : p ts with
    | failed missing reports rest => exact bind_of_failed h
    | done a reports rest =>
      rw [bind_of_done h]
      exact congrArg (Reply.done a · rest) (List.append_nil reports))
  (by
    intro α β a f
    funext ts
    exact after_nil _)
  (by
    intro α β γ p f g
    funext ts
    cases h : p ts with
    | failed missing reports rest => rw [bind_of_failed h, bind_of_failed (bind_of_failed h)]
    | done a reports rest =>
      rw [bind_of_done h]
      cases hf : f a rest with
      | failed missing later left =>
        have hb : (p >>= f) ts = .failed missing (reports ++ later) left := by
          rw [bind_of_done h, hf]
          rfl
        rw [bind_of_failed hb, bind_of_failed hf]
        rfl
      | done b later left =>
        have hb : (p >>= f) ts = .done b (reports ++ later) left := by
          rw [bind_of_done h, hf]
          rfl
        rw [bind_of_done hb, bind_of_done hf, after_append])

theorem pure_eq_done_iff {a b : α} :
    (pure a : Parser α) ts = .done b reports rest ↔ a = b ∧ reports = [] ∧ rest = ts := by
  constructor
  · intro h
    cases h
    exact ⟨rfl, rfl, rfl⟩
  · rintro ⟨rfl, rfl, rfl⟩
    rfl

theorem map_eq_done_iff {p : Parser α} {f : α → β} {b : β} :
    (f <$> p) ts = .done b reports rest ↔ ∃ a, p ts = .done a reports rest ∧ b = f a := by
  change (p >>= fun a => pure (f a)) ts = _ ↔ _
  rw [bind_eq_done_iff]
  constructor
  · rintro ⟨a, earlier, middle, later, hp, hf, rfl⟩
    obtain ⟨rfl, rfl, rfl⟩ := pure_eq_done_iff.mp hf
    rw [List.append_nil]
    exact ⟨a, hp, rfl⟩
  · rintro ⟨a, hp, rfl⟩
    exact ⟨a, reports, rest, [], hp, rfl, (List.append_nil reports).symm⟩

/-- Whenever the parser succeeds, the tokens given, the value, the reports and the tokens left are
related so. -/
def Ensures (p : Parser α) (post : List Token → α → List Report → List Token → Prop) : Prop :=
  ∀ ⦃ts : List Token⦄ ⦃a : α⦄ ⦃reports : List Report⦄ ⦃rest : List Token⦄,
    p ts = .done a reports rest → post ts a reports rest

/-- A parser that is defined through itself ensures what its definition hands on. The induction is
on how often it asks for itself. -/
theorem Ensures.fixed {body : Parser α → Parser α}
    {post : List Token → α → List Report → List Token → Prop}
    (h : ∀ p, Ensures p post → Ensures (body p) post) : Ensures (Parser.fixed body) post := by
  have ha (n : Nat) : Ensures (approximate body n) post := by
    induction n with
    | zero =>
      intro ts a reports rest hr
      cases hr
    | succ n ih => exact h _ ih
  intro ts a reports rest hr
  exact ha (ts.length + 1) hr

/-! ### Reading one token -/

theorem accept_of_lacks {wanted : Kind → Bool} (h : Lacks wanted ts) :
    accept wanted ts = .done none [] ts := by
  cases ts with
  | nil => rfl
  | cons t rest => simp [accept, lacks_cons.mp h]

theorem accept_cons {wanted : Kind → Bool} {t : Token} (h : wanted t.kind = true) :
    accept wanted (t :: rest) = .done (some t) [] rest := by
  simp [accept, h]

theorem accept_bind_of_lacks {wanted : Kind → Bool} {f : Option Token → Parser β}
    (h : Lacks wanted ts) : (accept wanted >>= f) ts = f none ts := by
  rw [bind_of_done (accept_of_lacks h), after_nil]

theorem accept_bind_cons {wanted : Kind → Bool} {f : Option Token → Parser β} {t : Token}
    (h : wanted t.kind = true) : (accept wanted >>= f) (t :: rest) = f (some t) rest := by
  rw [bind_of_done (accept_cons h), after_nil]

theorem accept_bind_eq_iff {wanted : Kind → Bool} {f : Option Token → Parser β} {r : Reply β} :
    (accept wanted >>= f) ts = r ↔
      (∃ t tail, ts = t :: tail ∧ wanted t.kind = true ∧ f (some t) tail = r) ∨
        Lacks wanted ts ∧ f none ts = r := by
  cases ts with
  | nil =>
    have h := lacks_nil wanted
    simp [accept_bind_of_lacks h, h]
  | cons t tail =>
    cases hw : wanted t.kind with
    | true =>
      rw [accept_bind_cons hw]
      constructor
      · intro h
        exact Or.inl ⟨t, tail, rfl, hw, h⟩
      · rintro (⟨u, rest, hu, -, h⟩ | ⟨hl, -⟩)
        · cases hu
          exact h
        · simp [hw] at hl
    | false => simp [accept_bind_of_lacks (lacks_cons.mpr hw), hw]

theorem expect_eq_done_iff {kind : Kind} {missing : Expectation} {t : Token} :
    expect kind missing ts = .done t reports rest ↔
      ts = t :: rest ∧ t.kind = kind ∧ reports = [] := by
  cases ts with
  | nil => simp [expect]
  | cons u tail =>
    by_cases hk : u.kind = kind
    · rw [expect, if_pos hk]
      constructor
      · intro h
        cases h
        exact ⟨rfl, hk, rfl⟩
      · rintro ⟨h, -, rfl⟩
        cases h
        rfl
    · rw [expect, if_neg hk]
      constructor
      · intro h
        cases h
      · rintro ⟨h, ht, -⟩
        cases h
        exact absurd ht hk

theorem expect_bind_cons {kind : Kind} {missing : Expectation} {f : Token → Parser β} {t : Token}
    (h : t.kind = kind) : (expect kind missing >>= f) (t :: rest) = f t rest := by
  have he : expect kind missing (t :: rest) = .done t [] rest := by simp [expect, h]
  rw [bind_of_done he, after_nil]

theorem expect_bind_eq_done_iff {kind : Kind} {missing : Expectation} {f : Token → Parser β}
    {b : β} : (expect kind missing >>= f) ts = .done b reports rest ↔
      ∃ t tail, ts = t :: tail ∧ t.kind = kind ∧ f t tail = .done b reports rest := by
  cases ts with
  | nil =>
    have he : expect kind missing [] = .failed missing [] [] := rfl
    simp [bind_of_failed he]
  | cons t tail =>
    by_cases hk : t.kind = kind
    · rw [expect_bind_cons hk]
      constructor
      · intro h
        exact ⟨t, tail, rfl, hk, h⟩
      · rintro ⟨u, rest, hu, -, h⟩
        cases hu
        exact h
    · have he : expect kind missing (t :: tail) = .failed missing [] (t :: tail) := by
        simp [expect, hk]
      simp [bind_of_failed he, hk]

theorem nextIs_bind_cons {kind : Kind} {f : Bool → Parser β} {t : Token} (h : t.kind = kind) :
    (nextIs kind >>= f) (t :: rest) = f true (t :: rest) := by
  have hn : nextIs kind (t :: rest) = .done true [] (t :: rest) := by simp [nextIs, h]
  rw [bind_of_done hn, after_nil]

theorem nextIs_bind_of_lacks {kind : Kind} {f : Bool → Parser β} (h : Lacks (· == kind) ts) :
    (nextIs kind >>= f) ts = f false ts := by
  have hn : nextIs kind ts = .done false [] ts := by
    cases ts with
    | nil => rfl
    | cons t tail => simp [nextIs, lacks_cons.mp h]
  rw [bind_of_done hn, after_nil]

theorem nextIs_bind_eq_iff {kind : Kind} {f : Bool → Parser β} {r : Reply β} :
    (nextIs kind >>= f) ts = r ↔
      (∃ t tail, ts = t :: tail ∧ t.kind = kind ∧ f true ts = r) ∨
        Lacks (· == kind) ts ∧ f false ts = r := by
  cases ts with
  | nil =>
    have h := lacks_nil (· == kind)
    simp [nextIs_bind_of_lacks h, h]
  | cons t tail =>
    by_cases hk : t.kind = kind
    · simp [nextIs_bind_cons hk, hk]
    · have hl : Lacks (· == kind) (t :: tail) := by simp [hk]
      simp [nextIs_bind_of_lacks hl, hk]

theorem peek_bind {f : Option Token → Parser β} : (peek >>= f) ts = f ts.head? ts := by
  have h : peek ts = .done ts.head? [] ts := rfl
  rw [bind_of_done h, after_nil]

theorem report_bind {site : Option Token} {problem : Problem} {f : Unit → Parser β} :
    (report site problem >>= f) ts = (f () ts).after [⟨site, problem⟩] := by
  have h : report site problem ts = .done () [⟨site, problem⟩] ts := rfl
  rw [bind_of_done h]

theorem dispatch_cons {choose : Token → Option (Parser α)} {p q : Parser α} {t : Token}
    (h : choose t = some q) : dispatch choose p (t :: rest) = q rest := by
  simp [dispatch, h]

theorem dispatch_of_none {choose : Token → Option (Parser α)} {p : Parser α}
    (h : ∀ t ∈ ts.head?, choose t = none) : dispatch choose p ts = p ts := by
  cases ts with
  | nil => rfl
  | cons t tail => simp [dispatch, h t rfl]

/-- A choice by the next token is made by that token, or there is none to make. -/
theorem dispatch_eq_iff {choose : Token → Option (Parser α)} {p : Parser α} {r : Reply α} :
    dispatch choose p ts = r ↔
      (∃ t tail q, ts = t :: tail ∧ choose t = some q ∧ q tail = r) ∨
        (∀ t ∈ ts.head?, choose t = none) ∧ p ts = r := by
  cases ts with
  | nil => simp [dispatch]
  | cons t tail =>
    cases hc : choose t with
    | none => simp [dispatch, hc]
    | some q =>
      rw [dispatch_cons hc]
      constructor
      · intro h
        exact Or.inl ⟨t, tail, q, rfl, hc, h⟩
      · rintro (⟨u, rest, q', hu, hq, h⟩ | ⟨hn, -⟩)
        · cases hu
          cases hc.symm.trans hq
          exact h
        · simp [hc] at hn

/-! ### Repetition -/

/-- A run of steps from one value to another, with its reports. A step that gives no next value
ends the run. -/
inductive Steps (step : α → Parser (Option α)) :
    α → List Token → List Report → α → List Token → Prop where
  | refl (a : α) (ts : List Token) : Steps step a ts [] a ts
  | stop {a : α} {ts rest : List Token} {reports : List Report}
      (h : step a ts = .done none reports rest) : Steps step a ts reports a rest
  | step {a b c : α} {ts middle rest : List Token} {earlier later : List Report}
      (h : step a ts = .done (some b) earlier middle) (more : Steps step b middle later c rest) :
      Steps step a ts (earlier ++ later) c rest

variable {step : α → Parser (Option α)}

theorem steps_of_iterate {n : Nat} {a b : α} (h : iterate step n a ts = .done b reports rest) :
    Steps step a ts reports b rest := by
  induction n generalizing a ts reports with
  | zero =>
    obtain ⟨rfl, rfl, rfl⟩ := pure_eq_done_iff.mp h
    exact .refl a rest
  | succ n ih =>
    obtain ⟨next, earlier, middle, later, hs, hn, rfl⟩ := bind_eq_done_iff.mp h
    cases next with
    | none =>
      obtain ⟨rfl, rfl, rfl⟩ := pure_eq_done_iff.mp hn
      rw [List.append_nil]
      exact .stop hs
    | some next => exact .step hs (ih hn)

theorem steps_of_repeatFrom {a b : α} (h : repeatFrom step a ts = .done b reports rest) :
    Steps step a ts reports b rest :=
  steps_of_iterate h

theorem repeatFrom_of_none (hp : Progresses step) {a : α}
    (h : step a ts = .done none reports rest) : repeatFrom step a ts = .done a reports rest := by
  rw [hp.repeatFrom_eq, bind_of_done h]
  change Reply.done a (reports ++ []) rest = _
  rw [List.append_nil]

theorem repeatFrom_of_some (hp : Progresses step) {a b : α}
    (h : step a ts = .done (some b) reports rest) :
    repeatFrom step a ts = (repeatFrom step b rest).after reports := by
  rw [hp.repeatFrom_eq, bind_of_done h]

/-! ### Recovery -/

theorem recovering_eq_some_iff {p : Parser α} {a : α} :
    recovering p ts = .done (some a) reports rest ↔ p ts = .done a reports rest := by
  rw [recovering]
  cases p ts with
  | done b earlier left => simp
  | failed missing earlier left => simp

theorem recovering_eq_none_iff {p : Parser α} :
    recovering p ts = .done none reports rest ↔ ∃ missing earlier left,
      p ts = .failed missing earlier left ∧
        reports = earlier ++ [⟨left.head?, .expected missing⟩] ∧ resume left = rest := by
  rw [recovering]
  cases p ts with
  | done b earlier left => simp
  | failed missing earlier left =>
    constructor
    · intro h
      cases h
      exact ⟨missing, earlier, left, rfl, rfl, rfl⟩
    · rintro ⟨_, _, _, h, rfl, rfl⟩
      cases h
      rfl

end Parser

end ScriptFront
