import ScriptFront.Proofs.Parse.Locality

/-! # Parts of a statement

What stands between the keyword of a statement and its semicolon is read by parsers that never read
a semicolon and never recover, so that they report no structural problem, whether or not they
succeed.
-/

namespace ScriptFront

open Parse

/-- None of the problems made the parser give something up. -/
def Soft (reports : List Report) : Prop := ∀ r ∈ reports, r.problem.isStructural = false

@[simp]
theorem soft_nil : Soft [] := by
  simp [Soft]

@[simp]
theorem soft_append {earlier later : List Report} :
    Soft (earlier ++ later) ↔ Soft earlier ∧ Soft later := by
  simp only [Soft, List.forall_mem_append]

namespace Parse.Reply

variable {α β : Type}

/-- No semicolon was read from the tokens, and no structural problem was reported. -/
structure IsPartOf (reply : Reply α) (ts : List Token) : Prop where
  reads : ∃ read, ts = read ++ reply.rest ∧ ∀ t ∈ read, t.kind ≠ .semicolon
  soft : Soft reply.reports

namespace IsPartOf

variable {reply : Reply α} {ts : List Token}

theorem unread (hr : reply.rest = ts) (hs : Soft reply.reports) : reply.IsPartOf ts where
  reads := ⟨[], hr.symm, by simp⟩
  soft := hs

theorem cons {t : Token} (ht : t.kind ≠ .semicolon) (h : reply.IsPartOf ts) :
    reply.IsPartOf (t :: ts) where
  reads := by
    obtain ⟨read, hts, hread⟩ := h.reads
    exact ⟨t :: read, congrArg (t :: ·) hts, List.forall_mem_cons.mpr ⟨ht, hread⟩⟩
  soft := h.soft

theorem after {a : β} {earlier : List Report} {rest : List Token}
    (h : reply.IsPartOf rest) (he : (Reply.done a earlier rest).IsPartOf ts) :
    (reply.after earlier).IsPartOf ts where
  reads := by
    obtain ⟨read, hts, hread⟩ := he.reads
    obtain ⟨more, hrest, hmore⟩ := h.reads
    refine ⟨read ++ more, ?_, List.forall_mem_append.mpr ⟨hread, hmore⟩⟩
    rw [rest_after, List.append_assoc, ← hrest]
    exact hts
  soft := by
    rw [reports_after]
    exact soft_append.mpr ⟨he.soft, h.soft⟩

end IsPartOf

end Parse.Reply

namespace Parser

variable {α β : Type}

/-- A parser that stops before the next semicolon and reports no structural problem. -/
def IsPart (p : Parser α) : Prop := ∀ ts, (p ts).IsPartOf ts

namespace IsPart

theorem pure (a : α) : IsPart (Pure.pure a : Parser α) := fun _ => .unread rfl soft_nil

theorem fail (missing : Expectation) : IsPart (Parser.fail missing : Parser α) :=
  fun _ => .unread rfl soft_nil

theorem peek : IsPart Parser.peek := fun _ => .unread rfl soft_nil

theorem nextIs (kind : Kind) : IsPart (Parser.nextIs kind) := fun _ => .unread rfl soft_nil

theorem report (site : Option Token) {problem : Problem} (h : problem.isStructural = false) :
    IsPart (Parser.report site problem) :=
  fun _ => .unread rfl (List.forall_mem_singleton.mpr h)

theorem accept {wanted : Kind → Bool} (h : wanted .semicolon = false) :
    IsPart (Parser.accept wanted) := by
  intro ts
  cases ts with
  | nil => exact .unread rfl soft_nil
  | cons t ts =>
    cases hw : wanted t.kind with
    | true =>
      rw [accept_cons hw]
      exact .cons (ne_of_wanted hw h) (.unread rfl soft_nil)
    | false =>
      rw [accept_of_lacks (lacks_cons.mpr hw)]
      exact .unread rfl soft_nil

theorem expect {kind : Kind} (h : kind ≠ .semicolon) (missing : Expectation) :
    IsPart (Parser.expect kind missing) := by
  intro ts
  cases ts with
  | nil => exact .unread rfl soft_nil
  | cons t ts =>
    rw [Parser.expect]
    split
    · rename_i hk
      exact .cons (hk ▸ h) (.unread rfl soft_nil)
    · exact .unread rfl soft_nil

theorem bind {p : Parser α} {f : α → Parser β} (hp : IsPart p) (hf : ∀ a, IsPart (f a)) :
    IsPart (p >>= f) := by
  intro ts
  have h := hp ts
  cases hq : p ts with
  | failed missing reports rest =>
    rw [hq] at h
    rw [bind_of_failed hq]
    exact ⟨h.reads, h.soft⟩
  | done a reports rest =>
    rw [hq] at h
    rw [bind_of_done hq]
    exact (hf a rest).after h

theorem map {p : Parser α} (f : α → β) (hp : IsPart p) : IsPart (f <$> p) :=
  hp.bind fun a => pure (f a)

theorem dispatch {choose : Token → Option (Parser α)} {p : Parser α}
    (hk : ∀ t, t.kind = .semicolon → choose t = none) (hc : ∀ t q, choose t = some q → IsPart q)
    (hp : IsPart p) : IsPart (Parser.dispatch choose p) := by
  intro ts
  cases ts with
  | nil => exact hp []
  | cons t ts =>
    cases hq : choose t with
    | none =>
      rw [Parser.dispatch, hq]
      exact hp (t :: ts)
    | some q =>
      have ht : t.kind ≠ .semicolon := fun h => by simp [hk t h] at hq
      rw [dispatch_cons hq]
      exact .cons ht (hc t q hq ts)

theorem iterate {step : α → Parser (Option α)} (h : ∀ a, IsPart (step a)) (n : Nat) (a : α) :
    IsPart (Parser.iterate step n a) := by
  induction n generalizing a with
  | zero => exact pure a
  | succ n ih =>
    refine (h a).bind fun b => ?_
    cases b with
    | none => exact pure a
    | some b => exact ih b

theorem repeatFrom {step : α → Parser (Option α)} (h : ∀ a, IsPart (step a)) (a : α) :
    IsPart (Parser.repeatFrom step a) :=
  fun ts => iterate h ts.length a ts

theorem fixed {body : Parser α → Parser α} (h : ∀ p, IsPart p → IsPart (body p)) :
    IsPart (Parser.fixed body) := by
  have ha (n : Nat) : IsPart (approximate body n) := by
    induction n with
    | zero => exact fail _
    | succ n ih => exact h _ ih
  exact fun ts => ha (ts.length + 1) ts

end IsPart

end Parser

namespace Parse

open ScriptFront.Parser

/-! ### Expressions -/

section Expressions

variable {self : Parser Expr} (h : IsPart self)

include h

theorem primary_isPart : IsPart (primary self) := by
  refine .dispatch (fun t ht => ?_) (fun t q hq => ?_) (.fail _)
  · simp [primaryAfter, literal?, ht]
  · unfold primaryAfter at hq
    split at hq
    · cases hq
      exact h.bind fun _ => (IsPart.expect (by simp) _).bind fun _ => .pure _
    · obtain ⟨e, -, rfl⟩ := Option.map_eq_some_iff.mp hq
      exact .pure e

theorem argument_isPart (count : Nat) : IsPart (argument self count) := by
  refine IsPart.bind ?_ fun _ => h
  unfold limitArguments
  split
  · exact IsPart.peek.bind fun site => .report site rfl
  · exact .pure ()

theorem moreArguments_isPart (args : List Expr) : IsPart (moreArguments self args) := by
  refine (IsPart.accept rfl).bind fun t => ?_
  cases t with
  | none => exact .pure none
  | some t => exact (argument_isPart h _).bind fun _ => .pure _

theorem arguments_isPart : IsPart (arguments self) := by
  refine (IsPart.nextIs _).bind fun b => ?_
  cases b with
  | true => exact .pure []
  | false => exact (argument_isPart h 0).bind fun _ => .repeatFrom (moreArguments_isPart h) _

theorem call_isPart : IsPart (call self) := by
  refine (primary_isPart h).bind fun callee => .repeatFrom (fun callee => ?_) callee
  refine (IsPart.accept rfl).bind fun t => ?_
  cases t with
  | none => exact .pure none
  | some t =>
    refine (arguments_isPart h).bind fun _ => ?_
    exact (IsPart.expect (by simp) _).bind fun _ => .pure _

theorem unary_isPart : IsPart (unary self) := by
  refine .fixed fun inner hi => .dispatch (fun t ht => ?_) (fun t q hq => ?_) (call_isPart h)
  · simp [unaryAfter, ht, Kind.isUnary]
  · unfold unaryAfter at hq
    split at hq
    · cases hq
      exact hi.map _
    · cases hq

theorem chain_isPart {isOperator : Kind → Bool} (hk : isOperator .semicolon = false)
    (build : Expr → Token → Expr → Expr) : IsPart (chain isOperator build self) := by
  refine h.bind fun left => .repeatFrom (fun left => ?_) left
  refine (IsPart.accept hk).bind fun op => ?_
  cases op with
  | none => exact .pure none
  | some op => exact h.bind fun _ => .pure _

theorem term_isPart : IsPart (term self) := chain_isPart (chain_isPart (unary_isPart h) rfl _) rfl _

theorem assignment_isPart : IsPart (assignment self) := by
  have hc : IsPart (comparison self) := chain_isPart (term_isPart h) rfl _
  have hl : IsPart (logicOr self) :=
    chain_isPart (chain_isPart (chain_isPart hc rfl _) rfl _) rfl _
  refine hl.bind fun target => (IsPart.accept rfl).bind fun op => ?_
  cases op with
  | none => exact .pure target
  | some op =>
    refine IsPart.bind ?_ fun value => ?_
    · unfold rightSide
      split
      · exact h
      · exact term_isPart h
    · cases target with
      | reference name => exact .pure _
      | _ => exact (IsPart.report _ rfl).bind fun _ => .pure value

end Expressions

theorem expression_isPart : IsPart expression := .fixed fun _ h => assignment_isPart h

/-! ### Clauses -/

theorem initialValue_isPart : IsPart initialValue := by
  refine (IsPart.accept rfl).bind fun t => ?_
  cases t with
  | none => exact .pure none
  | some t => exact expression_isPart.map some

theorem expressionUnless_isPart (stop : Kind) : IsPart (expressionUnless stop) := by
  refine (IsPart.nextIs _).bind fun b => ?_
  cases b with
  | true => exact .pure none
  | false => exact expression_isPart.map some

theorem parameters_isPart : IsPart parameters := by
  refine (IsPart.accept rfl).bind fun first => .repeatFrom (fun params => ?_) _
  refine (IsPart.accept rfl).bind fun t => ?_
  cases t with
  | none => exact .pure none
  | some t =>
    refine (IsPart.nextIs _).bind fun b => ?_
    cases b with
    | true => exact .pure none
    | false =>
      refine (IsPart.expect (by simp) _).bind fun param => ?_
      split
      · exact (IsPart.report _ rfl).bind fun _ => .pure _
      · exact .pure _

end Parse

end ScriptFront
