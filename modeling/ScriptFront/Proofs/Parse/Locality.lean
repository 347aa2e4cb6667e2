import ScriptFront.Proofs.Parse.Success

/-! # Locality

What a parser replies is decided by the tokens it reads and by the one token after them. A problem
at the end of the input is reported only when nothing is left. Both hold of every parser that is
put together from the building blocks, by induction on how it is put together.
-/

namespace ScriptFront

open Parse

namespace Parse.Reply

variable {α : Type}

/-- The same reply, where something else is left. -/
def leaving (left : List Token) : Reply α → Reply α
  | .done a reports _ => .done a reports left
  | .failed missing reports _ => .failed missing reports left

theorem after_leaving (earlier : List Report) (left : List Token) (r : Reply α) :
    (r.leaving left).after earlier = (r.after earlier).leaving left := by
  cases r <;> rfl

@[simp]
theorem reports_after (earlier : List Report) (r : Reply α) :
    (r.after earlier).reports = earlier ++ r.reports := by
  cases r <;> rfl

end Parse.Reply

namespace Parser

variable {α β : Type}

/-- A parser that is put together from the building blocks. -/
inductive Built : {α : Type} → Parser α → Prop where
  | pure {α : Type} (a : α) : Built (pure a : Parser α)
  | fail {α : Type} (missing : Expectation) : Built (fail missing : Parser α)
  | report (t : Token) (problem : Problem) : Built (report (some t) problem)
  | reportNext (problem : Problem) : Built (do report (← peek) problem)
  | peek : Built peek
  | bind {α β : Type} {p : Parser α} {f : α → Parser β} (hp : Built p) (hf : ∀ a, Built (f a)) :
      Built (p >>= f)
  | dispatch {α : Type} {choose : Token → Option (Parser α)} {p : Parser α}
      (hc : ∀ t q, choose t = some q → Built q) (hp : Built p) : Built (dispatch choose p)
  | recovering {p : Parser Stmt} (hp : Built p) : Built (recovering p)
  /-- A parser that agrees with others on ever longer lists. -/
  | limit {α : Type} {p : Parser α} {q : Nat → Parser α} (hq : ∀ n, Built (q n))
      (hp : ∀ n, Agree n p (q n)) : Built p

/-- The reply is the same if what is left is replaced from its second token on. -/
def Local (p : Parser α) : Prop :=
  ∀ read left left', (p (read ++ left)).rest = left → left'.head? = left.head? →
    p (read ++ left') = (p (read ++ left)).leaving left'

/-- If something is left, all problems were reported at tokens. -/
def Sited (p : Parser α) : Prop :=
  ∀ ts, (p ts).rest ≠ [] → ∀ r ∈ (p ts).reports, r.site.isSome = true

namespace Built

theorem within {p : Parser α} (h : Built p) : Within p := by
  induction h with
  | pure a => exact .of_agree fun _ => .pure a
  | fail missing => exact .of_agree fun _ => .fail missing
  | report t problem => exact .of_agree fun _ => .report _ problem
  | reportNext problem => exact .of_agree fun _ => Agree.peek.bind fun _ => .report _ problem
  | peek => exact .of_agree fun _ => .peek
  | bind _ _ ihp ihf => exact .of_agree fun n => (ihp.agree n).bind fun a => (ihf a).agree n
  | dispatch _ _ ihc ihp =>
    intro ts
    cases ts with
    | nil => exact ihp []
    | cons t ts =>
      rw [Parser.dispatch]
      split
      · rename_i q hq
        exact (ihc t q hq ts).trans (List.suffix_cons t ts)
      · exact ihp (t :: ts)
  | recovering _ ih => exact .of_agree fun n => recovering_agree (ih.agree n)
  | limit _ hp _ => exact fun ts => (hp (ts.length + 1) ts (Nat.lt_succ_self _)).2

theorem map {p : Parser α} (f : α → β) (h : Built p) : Built (f <$> p) :=
  h.bind fun a => .pure (f a)

theorem nextIs (kind : Kind) : Built (Parser.nextIs kind) := by
  have h : Parser.nextIs kind =
      (fun t : Option Token => t.any (·.kind == kind)) <$> Parser.peek := rfl
  rw [h]
  exact map _ .peek

theorem accept (wanted : Kind → Bool) : Built (Parser.accept wanted) := by
  have h : Parser.accept wanted = Parser.dispatch
      (fun t => if wanted t.kind then some (Pure.pure (some t)) else none) (Pure.pure none) := by
    funext ts
    cases ts with
    | nil => rfl
    | cons t ts => cases hw : wanted t.kind <;> simp [Parser.accept, Parser.dispatch, hw] <;> rfl
  rw [h]
  refine .dispatch (fun t q hq => ?_) (.pure none)
  split at hq
  · cases hq
    exact .pure (some t)
  · cases hq

theorem expect (kind : Kind) (missing : Expectation) : Built (Parser.expect kind missing) := by
  have h : Parser.expect kind missing = Parser.dispatch
      (fun t => if t.kind = kind then some (Pure.pure t) else none) (.fail missing) := by
    funext ts
    cases ts with
    | nil => rfl
    | cons t ts => by_cases hk : t.kind = kind <;> simp [Parser.expect, Parser.dispatch, hk] <;> rfl
  rw [h]
  refine .dispatch (fun t q hq => ?_) (.fail missing)
  split at hq
  · cases hq
    exact .pure t
  · cases hq

theorem iterate {step : α → Parser (Option α)} (h : ∀ a, Built (step a)) (n : Nat) (a : α) :
    Built (Parser.iterate step n a) := by
  induction n generalizing a with
  | zero => exact .pure a
  | succ n ih =>
    refine (h a).bind fun b => ?_
    cases b with
    | none => exact .pure a
    | some b => exact ih b

theorem repeatFrom {step : α → Parser (Option α)} (hp : Progresses step)
    (h : ∀ a, Built (step a)) (a : α) : Built (Parser.repeatFrom step a) := by
  refine .limit (fun n => .iterate h n a) fun n ts ht => ?_
  have he : Parser.repeatFrom step a ts = Parser.iterate step n a ts :=
    hp.iterate a ts (Nat.le_refl _) (Nat.le_of_lt ht)
  rw [he]
  exact ⟨rfl, (iterate h n a).within ts⟩

theorem fixed {body : Parser α → Parser α} (hg : Guarded body)
    (h : ∀ n, Built (approximate body n)) : Built (Parser.fixed body) :=
  .limit h hg.fixed_agree

theorem approximate {body : Parser α → Parser α} (h : ∀ p, Built p → Built (body p)) (n : Nat) :
    Built (Parser.approximate body n) := by
  induction n with
  | zero => exact .fail _
  | succ n ih => exact h _ ih

/-! ### Locality -/

theorem exists_read {read left middle : List Token} (h : middle <:+ read ++ left)
    (hl : left <:+ middle) :
    ∃ first second, read = first ++ second ∧ middle = second ++ left := by
  obtain ⟨first, hf⟩ := h
  obtain ⟨second, rfl⟩ := hl
  rw [← List.append_assoc] at hf
  exact ⟨first, second, (List.append_cancel_right hf).symm, rfl⟩

theorem head?_append_congr (read : List Token) {left left' : List Token}
    (h : left'.head? = left.head?) :
    (read ++ left').head? = (read ++ left).head? := by
  cases read with
  | nil => exact h
  | cons t read => rfl

theorem resume_local {read left left' : List Token} (h : resume (read ++ left) = left)
    (hl : left'.head? = left.head?) : resume (read ++ left') = left' := by
  induction read with
  | nil =>
    -- Recovery drops a token, so there was none.
    cases left with
    | nil =>
      rw [List.head?_nil, List.head?_eq_none_iff] at hl
      rw [hl]
      rfl
    | cons t left =>
      have ht := resume_length_lt t left
      rw [List.nil_append] at h
      rw [h] at ht
      exact absurd ht (Nat.lt_irrefl _)
  | cons t read ih =>
    have hh := head?_append_congr read hl
    rw [List.cons_append, resume] at h ⊢
    rw [hh]
    split at h
    · rename_i hc
      rw [if_pos hc]
      rw [List.append_left_eq_self] at h
      rw [h]
      rfl
    · rename_i hc
      rw [if_neg hc]
      exact ih h

theorem local_bind {p : Parser α} {f : α → Parser β} (hw : ∀ a, Within (f a)) (wp : Within p)
    (hp : Local p) (hf : ∀ a, Local (f a)) : Local (p >>= f) := by
  intro read left left' hr hl
  cases hq : p (read ++ left) with
  | failed missing reports middle =>
    rw [bind_of_failed hq] at hr ⊢
    have h := hp read left left' (by rw [hq]; exact hr) hl
    rw [hq] at h
    exact bind_of_failed h
  | done a reports middle =>
    have hs := wp (read ++ left)
    rw [hq] at hs
    rw [bind_of_done hq, Reply.rest_after] at hr
    have hm : left <:+ middle := by
      have h := hw a middle
      rwa [hr] at h
    obtain ⟨first, second, rfl, rfl⟩ := exists_read hs hm
    rw [List.append_assoc] at hq ⊢
    have h₁ := hp first (second ++ left) (second ++ left') (by rw [hq]; rfl)
      (head?_append_congr second hl)
    have h₂ := hf a second left left' hr hl
    rw [hq] at h₁
    rw [List.append_assoc, bind_of_done h₁, bind_of_done hq, h₂, Reply.after_leaving]

theorem local_of_unread {p : Parser α} (hr : ∀ ts, (p ts).rest = ts)
    (hp : ∀ ts ts' : List Token, ts'.head? = ts.head? → p ts' = (p ts).leaving ts') :
    Local p := by
  intro read left left' h hl
  rw [hr, List.append_left_eq_self] at h
  rw [h]
  exact hp left left' hl

theorem local_dispatch {choose : Token → Option (Parser α)} {p : Parser α}
    (hw : ∀ t q, choose t = some q → Within q) (hc : ∀ t q, choose t = some q → Local q)
    (hp : Local p) : Local (Parser.dispatch choose p) := by
  intro read left left' hr hl
  cases read with
  | nil =>
    cases left with
    | nil =>
      rw [List.head?_nil, List.head?_eq_none_iff] at hl
      rw [hl]
      exact hp [] [] [] hr rfl
    | cons t left =>
      obtain ⟨tail, rfl⟩ := List.head?_eq_some_iff.mp hl
      simp only [List.nil_append, Parser.dispatch] at hr ⊢
      cases hq : choose t with
      | none =>
        rw [hq] at hr
        exact hp [] (t :: left) (t :: tail) hr rfl
      | some q =>
        rw [hq] at hr
        have hs := (hw t q hq left).length_le
        change (q left).rest = t :: left at hr
        rw [hr, List.length_cons] at hs
        omega
  | cons t read =>
    simp only [List.cons_append, Parser.dispatch] at hr ⊢
    cases hq : choose t with
    | none =>
      rw [hq] at hr
      exact hp (t :: read) left left' hr hl
    | some q =>
      rw [hq] at hr
      exact hc t q hq read left left' hr hl

theorem local_recovering {p : Parser Stmt} (hw : Within p) (hp : Local p) :
    Local (Parse.recovering p) := by
  intro read left left' hr hl
  cases hq : p (read ++ left) with
  | done a reports middle =>
    rw [Parse.recovering, hq] at hr
    have h := hp read left left' (by rw [hq]; exact hr) hl
    rw [hq] at h
    rw [Parse.recovering, Parse.recovering, h, hq]
    rfl
  | failed missing reports middle =>
    have hs := hw (read ++ left)
    rw [hq] at hs
    rw [Parse.recovering, hq] at hr
    change resume middle = left at hr
    have hm : left <:+ middle := hr ▸ resume_isSuffix middle
    obtain ⟨first, second, rfl, rfl⟩ := exists_read hs hm
    have hh := head?_append_congr second hl
    rw [List.append_assoc] at hq ⊢
    have h := hp first (second ++ left) (second ++ left') (by rw [hq]; rfl) hh
    rw [hq] at h
    rw [Parse.recovering, Parse.recovering, List.append_assoc, h, hq]
    simp only [Reply.leaving, hh, resume_local hr hl]

theorem isLocal {p : Parser α} (h : Built p) : Local p := by
  induction h with
  | pure a => exact local_of_unread (fun _ => rfl) fun _ _ _ => rfl
  | fail missing => exact local_of_unread (fun _ => rfl) fun _ _ _ => rfl
  | report t problem => exact local_of_unread (fun _ => rfl) fun _ _ _ => rfl
  | reportNext problem =>
    refine local_of_unread (fun _ => rfl) fun ts ts' hl => ?_
    rw [peek_bind, peek_bind, hl]
    rfl
  | peek =>
    refine local_of_unread (fun _ => rfl) fun ts ts' hl => ?_
    rw [Parser.peek, Parser.peek, hl]
    rfl
  | bind hp hf ihp ihf => exact local_bind (fun a => (hf a).within) hp.within ihp ihf
  | dispatch hc _ ihc ihp => exact local_dispatch (fun t q hq => (hc t q hq).within) ihc ihp
  | recovering hp ih => exact local_recovering hp.within ih
  | limit hq hp ih =>
    intro read left left' hr hl
    let n := (read ++ left).length + (read ++ left').length + 1
    have h₁ := (hp n (read ++ left) (by omega)).1
    have h₂ := (hp n (read ++ left') (by omega)).1
    rw [h₁] at hr
    rw [h₁, h₂]
    exact ih n read left left' hr hl

theorem isSome_head? {ts : List Token} (h : ts ≠ []) : ts.head?.isSome = true := by
  cases ts with
  | nil => exact absurd rfl h
  | cons t ts => rfl

theorem ne_nil_of_suffix {left ts : List Token} (h : left <:+ ts) (hl : left ≠ []) : ts ≠ [] := by
  rintro rfl
  exact hl (List.suffix_nil.mp h)

theorem sited {p : Parser α} (h : Built p) : Sited p := by
  induction h with
  | pure a => simp [Sited, Pure.pure, Parser.pure, Reply.reports]
  | fail missing => simp [Sited, Parser.fail, Reply.reports]
  | report t problem => simp [Sited, Parser.report, Reply.reports]
  | reportNext problem =>
    intro ts hl r hr
    rw [peek_bind] at hl hr
    change r ∈ [_] at hr
    rw [List.mem_singleton.mp hr]
    exact isSome_head? hl
  | peek => simp [Sited, Parser.peek, Reply.reports]
  | bind hp hf ihp ihf =>
    rename_i p f
    intro ts hl r hr
    have hip := ihp ts
    cases hq : p ts with
    | failed missing reports middle =>
      rw [hq] at hip
      rw [bind_of_failed hq] at hl hr
      exact hip hl r hr
    | done a reports middle =>
      rw [hq] at hip
      rw [bind_of_done hq, Reply.rest_after] at hl
      rw [bind_of_done hq, Reply.reports_after, List.mem_append] at hr
      rcases hr with hr | hr
      · exact hip (ne_nil_of_suffix ((hf a).within middle) hl) r hr
      · exact ihf a middle hl r hr
  | dispatch hc _ ihc ihp =>
    intro ts hl r hr
    cases ts with
    | nil => exact ihp [] hl r hr
    | cons t ts =>
      rw [Parser.dispatch] at hl hr
      split at hl
      · rename_i q hq
        rw [hq] at hr
        exact ihc t q hq ts hl r hr
      · rename_i hq
        rw [hq] at hr
        exact ihp (t :: ts) hl r hr
  | recovering hp ih =>
    rename_i p
    intro ts hl r hr
    have hip := ih ts
    cases hq : p ts with
    | done a reports middle =>
      rw [hq] at hip
      rw [Parse.recovering, hq] at hl hr
      exact hip hl r hr
    | failed missing reports middle =>
      rw [hq] at hip
      rw [Parse.recovering, hq] at hl hr
      have hm : middle ≠ [] := ne_nil_of_suffix (resume_isSuffix middle) hl
      change r ∈ reports ++ [_] at hr
      rcases List.mem_append.mp hr with hr | hr
      · exact hip hm r hr
      · rw [List.mem_singleton.mp hr]
        exact isSome_head? hm
  | limit hq hp ih =>
    intro ts hl r hr
    have he := (hp (ts.length + 1) ts (Nat.lt_succ_self _)).1
    rw [he] at hl hr
    exact ih (ts.length + 1) ts hl r hr

end Built

end Parser

namespace Parse

open ScriptFront.Parser

/-! ### Expressions -/

section Expressions

variable {self : Parser Expr} (h : Built self)

include h

theorem primary_built : Built (primary self) := by
  refine .dispatch (fun t q hq => ?_) (.fail _)
  unfold primaryAfter at hq
  split at hq
  · cases hq
    exact h.bind fun _ => (Built.expect _ _).bind fun _ => .pure _
  · obtain ⟨e, -, rfl⟩ := Option.map_eq_some_iff.mp hq
    exact .pure e

theorem argument_built (count : Nat) : Built (argument self count) := by
  refine Built.bind ?_ fun _ => h
  unfold limitArguments
  split
  · exact .reportNext _
  · exact .pure ()

theorem moreArguments_built (args : List Expr) : Built (moreArguments self args) := by
  refine (Built.accept _).bind fun t => ?_
  cases t with
  | none => exact .pure none
  | some t => exact (argument_built h _).bind fun _ => .pure _

theorem arguments_built : Built (arguments self) := by
  refine (Built.nextIs _).bind fun b => ?_
  cases b with
  | true => exact .pure []
  | false =>
    exact (argument_built h 0).bind fun _ =>
      .repeatFrom (moreArguments_progresses h.within) (moreArguments_built h) _

theorem moreCalls_built (callee : Expr) : Built (moreCalls self callee) := by
  refine (Built.accept _).bind fun t => ?_
  cases t with
  | none => exact .pure none
  | some t =>
    exact (arguments_built h).bind fun _ => (Built.expect _ _).bind fun _ => .pure _

theorem call_built : Built (call self) :=
  (primary_built h).bind fun _ =>
    .repeatFrom (moreCalls_progresses h.within) (moreCalls_built h) _

theorem unary_built : Built (unary self) := by
  refine .fixed (fun n _ _ hr => ?_) (.approximate fun inner hi => ?_)
  · exact .dispatch (unaryAfter_agree hr) (call_agree (h.within.agree n))
  · refine .dispatch (fun t q hq => ?_) (call_built h)
    unfold unaryAfter at hq
    split at hq
    · cases hq
      exact hi.map _
    · cases hq

theorem chain_built (isOperator : Kind → Bool) (build : Expr → Token → Expr → Expr) :
    Built (chain isOperator build self) := by
  refine h.bind fun left => .repeatFrom (moreOperands_progresses h.within) (fun left => ?_) left
  refine (Built.accept _).bind fun op => ?_
  cases op with
  | none => exact .pure none
  | some op => exact h.bind fun _ => .pure _

theorem term_built : Built (term self) := chain_built (chain_built (unary_built h) _ _) _ _

theorem assignment_built : Built (assignment self) := by
  have hl : Built (logicOr self) :=
    chain_built (chain_built (chain_built (chain_built (term_built h) _ _) _ _) _ _) _ _
  refine hl.bind fun target => (Built.accept _).bind fun op => ?_
  cases op with
  | none => exact .pure target
  | some op =>
    refine Built.bind ?_ fun value => ?_
    · unfold rightSide
      split
      · exact h
      · exact term_built h
    · cases target with
      | reference name => exact .pure _
      | _ => exact (Built.report op _).bind fun _ => .pure value

end Expressions

theorem expression_built : Built expression :=
  .fixed guarded_assignment (.approximate fun _ h => assignment_built h)

/-! ### Statements -/

theorem expressionStatement_built : Built expressionStatement :=
  expression_built.bind fun _ => (Built.expect _ _).bind fun _ => .pure _

theorem initialValue_built : Built initialValue := by
  refine (Built.accept _).bind fun t => ?_
  cases t with
  | none => exact .pure none
  | some t => exact expression_built.map some

theorem variableDeclaration_built : Built variableDeclaration :=
  (Built.expect _ _).bind fun _ => initialValue_built.bind fun _ =>
    (Built.expect _ _).bind fun _ => .pure _

theorem expressionUnless_built (stop : Kind) : Built (expressionUnless stop) := by
  refine (Built.nextIs _).bind fun b => ?_
  cases b with
  | true => exact .pure none
  | false => exact expression_built.map some

theorem initializer_built : Built initializer := by
  refine .dispatch (fun t q hq => ?_) (expressionStatement_built.map some)
  unfold initializerAfter at hq
  split at hq
  · cases hq
    exact .pure none
  · cases hq
    exact variableDeclaration_built.map some
  · cases hq

theorem parameters_built : Built parameters := by
  refine (Built.accept _).bind fun first =>
    .repeatFrom moreParameters_progresses (fun params => ?_) _
  refine (Built.accept _).bind fun t => ?_
  cases t with
  | none => exact .pure none
  | some t =>
    refine (Built.nextIs _).bind fun b => ?_
    cases b with
    | true => exact .pure none
    | false =>
      refine (Built.expect _ _).bind fun param => ?_
      split
      · exact (Built.report param _).bind fun _ => .pure _
      · exact .pure _

theorem declarations_built {isEnd : Option Kind → Bool} {d : Parser (Option Stmt)}
    (hend : isEnd none = true) (h : Built d) (ha : Advances d) :
    Built (declarations isEnd d) := by
  refine .repeatFrom (moreDeclarations_progresses hend ha) (fun body => ?_) []
  refine Built.peek.bind fun t => ?_
  split
  · exact .pure none
  · exact h.bind fun _ => .pure _

end Parse

end ScriptFront
