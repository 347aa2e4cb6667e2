import ScriptFront.Proofs.Parse.Locality

/-! # Reports in order

Problems are reported at the token that reading has got to. Only a bad target is reported later,
after what is assigned to it. A token with a structural problem is dropped before anything else is
reported. So the places of the reports follow each other as the tokens do. A place is what is left
from it on, and a later place is an end of an earlier one.
-/

namespace ScriptFront

open Parse

/-- A report with the tokens from its place on; at the end of the input there are none. -/
structure Mark where
  report : Report
  place : List Token
  site_eq : report.site = place.head?

namespace Mark

/-- The problem is not a bad target, so it is reported where reading has got to. -/
def OnTheWay (m : Mark) : Prop := m.report.problem ≠ .invalidAssignmentTarget

/-- What is left for later reports. A token with a structural problem is not. -/
def onward (m : Mark) : List Token :=
  if m.report.problem.isStructural then m.place.tail else m.place

theorem onward_suffix (m : Mark) : m.onward <:+ m.place := by
  unfold onward
  split
  · exact List.tail_suffix _
  · exact List.suffix_refl _

/-- One report may come before another. -/
structure Precedes (m m' : Mark) : Prop where
  ending : m.place = [] → m'.place = []
  order : m.OnTheWay → m'.OnTheWay → m'.place <:+ m.onward

/-- The report was made while `ts` was read as far as `rest`. -/
structure Between (ts rest : List Token) (m : Mark) : Prop where
  place : m.place <:+ ts
  rest : m.OnTheWay → rest <:+ m.onward
  target : ¬ m.OnTheWay → m.place ≠ []

variable {ts middle rest : List Token} {m m' : Mark}

theorem Between.longer (h : m.Between middle rest) (hm : middle <:+ ts) : m.Between ts rest where
  place := h.place.trans hm
  rest := h.rest
  target := h.target

theorem Between.further (h : m.Between ts middle) (hm : rest <:+ middle) : m.Between ts rest where
  place := h.place
  rest := fun hw => hm.trans (h.rest hw)
  target := h.target

theorem Between.precedes (h : m.Between ts middle) (h' : m'.Between middle rest) :
    m.Precedes m' where
  ending := by
    intro hnil
    by_cases hw : m.OnTheWay
    · have hm := (h.rest hw).trans m.onward_suffix
      rw [hnil] at hm
      exact List.suffix_nil.mp (h'.place.trans hm)
    · exact absurd hnil (h.target hw)
  order hw _ := h'.place.trans (h.rest hw)

end Mark

/-- The reports that were made, in this order, while `ts` was read as far as `rest`. -/
structure Trail (ts : List Token) (reports : List Report) (rest : List Token) : Prop where
  suffix : rest <:+ ts
  exists_marks : ∃ marks : List Mark, marks.map Mark.report = reports ∧
    (∀ m ∈ marks, m.Between ts rest) ∧ marks.Pairwise Mark.Precedes

namespace Trail

variable {ts middle rest : List Token} {earlier later reports : List Report}

theorem silent (h : rest <:+ ts) : Trail ts [] rest where
  suffix := h
  exists_marks := ⟨[], rfl, by simp, .nil⟩

theorem single (m : Mark) (hw : m.OnTheWay) (hp : m.place <:+ ts) (hr : rest <:+ m.onward) :
    Trail ts [m.report] rest where
  suffix := (hr.trans m.onward_suffix).trans hp
  exists_marks :=
    ⟨[m], rfl, List.forall_mem_singleton.mpr ⟨hp, fun _ => hr, fun h => absurd hw h⟩,
      List.pairwise_singleton _ _⟩

theorem append (h : Trail ts earlier middle) (h' : Trail middle later rest) :
    Trail ts (earlier ++ later) rest where
  suffix := h'.suffix.trans h.suffix
  exists_marks := by
    obtain ⟨marks, hm, hb, hp⟩ := h.exists_marks
    obtain ⟨marks', hm', hb', hp'⟩ := h'.exists_marks
    refine ⟨marks ++ marks', by rw [List.map_append, hm, hm'], ?_, ?_⟩
    · refine List.forall_mem_append.mpr ⟨fun m h => ?_, fun m h => ?_⟩
      · exact (hb m h).further h'.suffix
      · exact (hb' m h).longer ‹Trail ts earlier middle›.suffix
    · exact List.pairwise_append.mpr
        ⟨hp, hp', fun m h m' h' => (hb m h).precedes (hb' m' h')⟩

theorem longer (h : Trail middle reports rest) (hm : middle <:+ ts) : Trail ts reports rest :=
  (silent hm).append h

/-- A bad target is reported after what is assigned to it, if that has no problem at the end of the
input. -/
theorem target {op : Token} (h : Trail ts reports rest)
    (hs : ∀ r ∈ reports, r.site.isSome = true) :
    Trail (op :: ts) (reports ++ [⟨some op, .invalidAssignmentTarget⟩]) rest where
  suffix := h.suffix.trans (List.suffix_cons op ts)
  exists_marks := by
    obtain ⟨marks, rfl, hb, hp⟩ := h.exists_marks
    let last : Mark := ⟨⟨some op, .invalidAssignmentTarget⟩, op :: ts, rfl⟩
    have hlast : ¬ last.OnTheWay := fun h => h rfl
    refine ⟨marks ++ [last], by rw [List.map_append]; rfl, ?_, ?_⟩
    · refine List.forall_mem_append.mpr ⟨fun m hm => (hb m hm).longer (List.suffix_cons op ts), ?_⟩
      exact List.forall_mem_singleton.mpr
        ⟨List.suffix_refl _, fun h => absurd h hlast, fun _ => List.cons_ne_nil op ts⟩
    · refine List.pairwise_append.mpr ⟨hp, List.pairwise_singleton _ _, fun m hm m' hm' => ?_⟩
      rw [List.mem_singleton.mp hm']
      refine ⟨fun hnil => ?_, fun _ h => absurd h hlast⟩
      have hsome := hs m.report (List.mem_map_of_mem hm)
      rw [m.site_eq, hnil] at hsome
      cases hsome

end Trail

theorem Parse.resume_suffix_tail (ts : List Token) : resume ts <:+ ts.tail := by
  cases ts with
  | nil => exact List.suffix_refl []
  | cons t ts =>
    unfold resume
    split
    · exact List.suffix_refl ts
    · exact resume_isSuffix ts

namespace Parser

variable {α β : Type}

/-- What the parser reports, it reports in order. -/
def InOrder (p : Parser α) : Prop := ∀ ts, Trail ts (p ts).reports (p ts).rest

/-- What the parser reports after a token was read, and which may be about that token, it reports in
order. -/
def InOrderAfter (t : Token) (p : Parser α) : Prop :=
  ∀ ts, Trail (t :: ts) (p ts).reports (p ts).rest

theorem InOrder.after {p : Parser α} (h : InOrder p) (t : Token) : InOrderAfter t p :=
  fun ts => (h ts).longer (List.suffix_cons t ts)

theorem trail_bind {p : Parser α} {f : α → Parser β} {ts us : List Token}
    (hp : Trail us (p ts).reports (p ts).rest) (hf : ∀ a, InOrder (f a)) :
    Trail us ((p >>= f) ts).reports ((p >>= f) ts).rest := by
  cases hq : p ts with
  | failed missing reports rest =>
    rw [hq] at hp
    rw [bind_of_failed hq]
    exact hp
  | done a reports rest =>
    rw [hq] at hp
    rw [bind_of_done hq, Reply.reports_after, Reply.rest_after]
    exact hp.append (hf a rest)

namespace InOrderAfter

theorem report (t : Token) {problem : Problem} (h : problem ≠ .invalidAssignmentTarget) :
    InOrderAfter t (Parser.report (some t) problem) := by
  intro ts
  let m : Mark := ⟨⟨some t, problem⟩, t :: ts, rfl⟩
  have hm : ts <:+ m.onward := by
    unfold Mark.onward
    split
    · exact List.suffix_refl ts
    · exact List.suffix_cons t ts
  exact .single m h (List.suffix_refl _) hm

theorem bind {t : Token} {p : Parser α} {f : α → Parser β} (hp : InOrderAfter t p)
    (hf : ∀ a, InOrder (f a)) : InOrderAfter t (p >>= f) :=
  fun ts => trail_bind (hp ts) hf

end InOrderAfter

namespace InOrder

theorem of_silent {p : Parser α} (hw : Within p) (h : ∀ ts, (p ts).reports = []) : InOrder p := by
  intro ts
  rw [h ts]
  exact .silent (hw ts)

theorem pure (a : α) : InOrder (Pure.pure a : Parser α) :=
  of_silent (Built.pure a).within fun _ => rfl

theorem fail (missing : Expectation) : InOrder (Parser.fail missing : Parser α) :=
  of_silent (Built.fail missing).within fun _ => rfl

theorem peek : InOrder Parser.peek := of_silent Built.peek.within fun _ => rfl

theorem nextIs (kind : Kind) : InOrder (Parser.nextIs kind) :=
  of_silent (Built.nextIs kind).within fun _ => rfl

theorem accept (wanted : Kind → Bool) : InOrder (Parser.accept wanted) := by
  refine of_silent (Built.accept wanted).within fun ts => ?_
  cases ts with
  | nil => rfl
  | cons t ts =>
    rw [Parser.accept]
    split <;> rfl

theorem expect (kind : Kind) (missing : Expectation) : InOrder (Parser.expect kind missing) := by
  refine of_silent (Built.expect kind missing).within fun ts => ?_
  cases ts with
  | nil => rfl
  | cons t ts =>
    rw [Parser.expect]
    split <;> rfl

theorem reportNext {problem : Problem} (hs : problem.isStructural = false)
    (ht : problem ≠ .invalidAssignmentTarget) :
    InOrder (do Parser.report (← Parser.peek) problem) := by
  intro ts
  rw [peek_bind]
  let m : Mark := ⟨⟨ts.head?, problem⟩, ts, rfl⟩
  have hm : m.onward = ts := by simp [m, Mark.onward, hs]
  exact .single m ht (List.suffix_refl ts) (by rw [hm]; exact List.suffix_refl ts)

theorem bind {p : Parser α} {f : α → Parser β} (hp : InOrder p) (hf : ∀ a, InOrder (f a)) :
    InOrder (p >>= f) :=
  fun ts => trail_bind (hp ts) hf

theorem map {p : Parser α} (f : α → β) (hp : InOrder p) : InOrder (f <$> p) :=
  hp.bind fun a => pure (f a)

theorem accept_bind {wanted : Kind → Bool} {f : Option Token → Parser α}
    (hs : ∀ t, InOrderAfter t (f (some t))) (hn : InOrder (f none)) :
    InOrder (Parser.accept wanted >>= f) := by
  intro ts
  rcases accept_bind_eq_iff.mp (rfl : (Parser.accept wanted >>= f) ts = _) with
    ⟨t, rest, rfl, -, h⟩ | ⟨-, h⟩
  · rw [← h]
    exact hs t rest
  · rw [← h]
    exact hn ts

theorem expect_bind {kind : Kind} {missing : Expectation} {f : Token → Parser α}
    (h : ∀ t, InOrderAfter t (f t)) : InOrder (Parser.expect kind missing >>= f) := by
  intro ts
  have he := expect kind missing ts
  cases hq : Parser.expect kind missing ts with
  | failed missing reports rest =>
    rw [hq] at he
    rw [bind_of_failed hq]
    exact he
  | done t reports rest =>
    obtain ⟨rfl, hk, -⟩ := expect_eq_done_iff.mp hq
    rw [expect_bind_cons hk]
    exact h t rest

theorem dispatch {choose : Token → Option (Parser α)} {p : Parser α}
    (hc : ∀ t q, choose t = some q → InOrder q) (hp : InOrder p) :
    InOrder (Parser.dispatch choose p) := by
  intro ts
  cases ts with
  | nil => exact hp []
  | cons t ts =>
    cases hq : choose t with
    | none =>
      rw [Parser.dispatch, hq]
      exact hp (t :: ts)
    | some q =>
      rw [dispatch_cons hq]
      exact (hc t q hq).after t ts

theorem iterate {step : α → Parser (Option α)} (h : ∀ a, InOrder (step a)) (n : Nat) (a : α) :
    InOrder (Parser.iterate step n a) := by
  induction n generalizing a with
  | zero => exact pure a
  | succ n ih =>
    refine (h a).bind fun b => ?_
    cases b with
    | none => exact pure a
    | some b => exact ih b

theorem repeatFrom {step : α → Parser (Option α)} (h : ∀ a, InOrder (step a)) (a : α) :
    InOrder (Parser.repeatFrom step a) :=
  fun ts => iterate h ts.length a ts

theorem of_approximate {body : Parser α → Parser α} (h : ∀ n, InOrder (approximate body n)) :
    InOrder (Parser.fixed body) :=
  fun ts => h (ts.length + 1) ts

theorem fixed {body : Parser α → Parser α} (h : ∀ p, InOrder p → InOrder (body p)) :
    InOrder (Parser.fixed body) := by
  refine of_approximate fun n => ?_
  induction n with
  | zero => exact fail _
  | succ n ih => exact h _ ih

theorem recovering {p : Parser α} (hp : InOrder p) : InOrder (Parse.recovering p) := by
  intro ts
  have h := hp ts
  rw [Parse.recovering]
  cases hq : p ts with
  | done a reports rest =>
    rw [hq] at h
    exact h
  | failed missing reports left =>
    rw [hq] at h
    let m : Mark := ⟨⟨left.head?, .expected missing⟩, left, rfl⟩
    have hw : m.OnTheWay := by simp [m, Mark.OnTheWay]
    exact h.append (.single m hw (List.suffix_refl left) (resume_suffix_tail left))

end InOrder

end Parser

end ScriptFront
