import ScriptFront.Proofs.Order.Basic
import ScriptFront.Proofs.Soundness.Expression

/-! # Expressions report in order

An argument too many is reported at its first token, before it is read, and a bad target at its
operator, after the right side. If the right side was read, its problems are at its own tokens, so
that the bad target is never reported after a problem at the end of the input.
-/

namespace ScriptFront

open Parse ScriptFront.Parser

namespace Grammar

theorem targetReports_eq (target : Expr) (op : Token) :
    targetReports target op = [] ∨
      targetReports target op = [⟨some op, .invalidAssignmentTarget⟩] := by
  cases target with
  | reference => exact Or.inl rfl
  | _ => exact Or.inr rfl

theorem isSome_site_targetReports (target : Expr) (op : Token) :
    ∀ r ∈ targetReports target op, r.site.isSome = true := by
  rcases targetReports_eq target op with h | h <;> simp [h]

theorem isSome_site_argumentReports (count : Nat) (argument : Expression) :
    ∀ r ∈ argumentReports count argument.yield.head?, r.site.isSome = true := by
  obtain ⟨t, tail, hy, -⟩ := argument.exists_yield_eq_cons
  unfold argumentReports
  split <;> simp [hy]

theorem ExprTree.isSome_site {form : ExprForm} (d : ExprTree form) :
    ∀ r ∈ d.reports, r.site.isSome = true := by
  induction d with
  | atom | noCalls | noArguments | noFurtherArguments | noOperations => simp
  | grouping _ _ _ ih | signed _ _ ih | unsigned _ ih | unassigned _ ih => exact ih
  | call _ _ hf hm | someArguments _ _ hf hm | chain _ _ hf hm | moreCalls _ _ _ _ hf hm
  | moreOperations _ _ _ hf hm => exact List.forall_mem_append.mpr ⟨hf, hm⟩
  | @furtherArguments count _ argument _ ha hm =>
    have hc := isSome_site_argumentReports count argument
    exact List.forall_mem_append.mpr ⟨List.forall_mem_append.mpr ⟨hc, ha⟩, hm⟩
  | assigned target op _ ht hr | compound target op _ ht hr =>
    have hb := isSome_site_targetReports target.value op.1
    exact List.forall_mem_append.mpr ⟨List.forall_mem_append.mpr ⟨ht, hr⟩, hb⟩

theorem Level.Sound.isSome_site {level : Level} {p : Parser Expr} (h : level.Sound p)
    {ts rest : List Token} {e : Expr} {reports : List Report}
    (hp : p ts = .done e reports rest) : ∀ r ∈ reports, r.site.isSome = true := by
  obtain ⟨d, -, -, rfl⟩ := h hp
  exact d.isSome_site

end Grammar

namespace Parse

section Expressions

variable {self : Parser Expr} (h : InOrder self)

include h

theorem primary_inOrder : InOrder (primary self) := by
  refine .dispatch (fun t q hq => ?_) (.fail _)
  unfold primaryAfter at hq
  split at hq
  · cases hq
    exact h.bind fun _ => (InOrder.expect _ _).bind fun _ => .pure _
  · obtain ⟨e, -, rfl⟩ := Option.map_eq_some_iff.mp hq
    exact .pure e

theorem argument_inOrder (count : Nat) : InOrder (argument self count) := by
  refine InOrder.bind ?_ fun _ => h
  unfold limitArguments
  split
  · exact .reportNext rfl (by simp)
  · exact .pure ()

theorem moreArguments_inOrder (args : List Expr) : InOrder (moreArguments self args) := by
  refine (InOrder.accept _).bind fun t => ?_
  cases t with
  | none => exact .pure none
  | some t => exact (argument_inOrder h _).bind fun _ => .pure _

theorem arguments_inOrder : InOrder (arguments self) := by
  refine (InOrder.nextIs _).bind fun b => ?_
  cases b with
  | true => exact .pure []
  | false => exact (argument_inOrder h 0).bind fun _ => .repeatFrom (moreArguments_inOrder h) _

theorem call_inOrder : InOrder (call self) := by
  refine (primary_inOrder h).bind fun callee => .repeatFrom (fun callee => ?_) callee
  refine (InOrder.accept _).bind fun t => ?_
  cases t with
  | none => exact .pure none
  | some t =>
    refine (arguments_inOrder h).bind fun _ => ?_
    exact (InOrder.expect _ _).bind fun _ => .pure _

theorem unary_inOrder : InOrder (unary self) := by
  refine .fixed fun inner hi => .dispatch (fun t q hq => ?_) (call_inOrder h)
  unfold unaryAfter at hq
  split at hq
  · cases hq
    exact hi.map _
  · cases hq

theorem chain_inOrder (isOperator : Kind → Bool) (build : Expr → Token → Expr → Expr) :
    InOrder (chain isOperator build self) := by
  refine h.bind fun left => .repeatFrom (fun left => ?_) left
  refine (InOrder.accept _).bind fun op => ?_
  cases op with
  | none => exact .pure none
  | some op => exact h.bind fun _ => .pure _

theorem term_inOrder : InOrder (term self) :=
  chain_inOrder (chain_inOrder (unary_inOrder h) _ _) _ _

theorem logicOr_inOrder : InOrder (logicOr self) := by
  have hc : InOrder (comparison self) := chain_inOrder (term_inOrder h) _ _
  exact chain_inOrder (chain_inOrder (chain_inOrder hc _ _) _ _) _ _

theorem rightSide_inOrder (op : Token) : InOrder (rightSide self op) := by
  unfold rightSide
  split
  · exact h
  · exact term_inOrder h

end Expressions

section Assignment

open Grammar

variable {self : Parser Expr} (hs : Level.assignment.Sound self)

include hs

theorem isSome_site_rightSide {op : Token} {ts rest : List Token} {e : Expr}
    {reports : List Report} (h : rightSide self op ts = .done e reports rest) :
    ∀ r ∈ reports, r.site.isSome = true := by
  unfold rightSide at h
  split at h
  · exact hs.isSome_site h
  · exact (term_sound hs).isSome_site h

/-- The right side of an assignment and then the complaint about its target, if there is one. -/
theorem assigned_inOrderAfter (h : InOrder self) (target : Expr) (op : Token) :
    InOrderAfter op (rightSide self op >>= assigned target op) := by
  intro ts
  have hr := rightSide_inOrder h op ts
  cases hq : rightSide self op ts with
  | failed missing reports rest =>
    rw [hq] at hr
    rw [bind_of_failed hq]
    exact hr.longer (List.suffix_cons op ts)
  | done value reports rest =>
    rw [hq] at hr
    rw [bind_of_done hq, ExprTree.assigned_eq]
    change Trail (op :: ts) (reports ++ targetReports target op) rest
    rcases targetReports_eq target op with ht | ht
    · rw [ht, List.append_nil]
      exact hr.longer (List.suffix_cons op ts)
    · rw [ht]
      exact hr.target (isSome_site_rightSide hs hq)

theorem assignment_inOrder (h : InOrder self) : InOrder (assignment self) :=
  (logicOr_inOrder h).bind fun target =>
    .accept_bind (assigned_inOrderAfter hs h target) (.pure target)

end Assignment

theorem expression_inOrder : InOrder expression := by
  -- The approximations are in order only together with being sound: a bad target needs to know that
  -- its right side has no problem at the end of the input.
  have h (n : Nat) : Grammar.Level.assignment.Sound (approximate assignment n) ∧
      InOrder (approximate assignment n) := by
    induction n with
    | zero =>
      refine ⟨?_, .fail _⟩
      intro ts e reports rest h
      cases h
    | succ n ih => exact ⟨Grammar.assignment_sound ih.1, assignment_inOrder ih.1 ih.2⟩
  exact .of_approximate fun n => (h n).2

end Parse

end ScriptFront
