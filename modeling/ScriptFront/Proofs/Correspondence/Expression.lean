import ScriptFront.Parse.Expression
import ScriptFront.Proofs.Correspondence.Basic

/-! # Expressions correspond -/

namespace ScriptFront.Parse

open ScriptFront.Parser

variable {R : Token → Token → Prop} (hR : SameKinds R) {p q : Parser Expr}

include hR

theorem literal?_alike {t u : Token} (h : R t u) :
    Option.Rel (Expr.Alike R) (literal? t) (literal? u) := by
  have hk := hR h
  unfold literal?
  rw [← hk]
  split
  case h_6 => exact .some (.reference h)
  case h_7 => exact .none
  all_goals
    rename_i ht
    refine .some (.literal h ?_)
    simp [LiteralAlike, ht]

theorem primary_alike (h : Alike R (Expr.Alike R) p q) :
    Alike R (Expr.Alike R) (primary p) (primary q) := by
  refine .dispatch (fun t u ht => ?_) (.fail _)
  unfold primaryAfter
  rw [hR ht]
  split
  · exact .some (h.bind fun _ _ hi => (Alike.expect hR _ _).bind fun _ _ _ => .pure (.grouping hi))
  · have hl := literal?_alike hR ht
    generalize literal? t = o at hl
    generalize literal? u = o' at hl
    cases hl with
    | none => exact .none
    | some he => exact .some (.pure he)

omit hR in
theorem argument_alike (h : Alike R (Expr.Alike R) p q) (count : Nat) :
    Alike R (Expr.Alike R) (argument p count) (argument q count) := by
  have hl : Alike R (fun _ _ => True) (limitArguments count) (limitArguments count) := by
    unfold limitArguments
    split
    · exact Alike.peek.bind fun _ _ hs => .report hs _
    · exact .pure trivial
  exact hl.bind fun _ _ _ => h

theorem moreArguments_alike (h : Alike R (Expr.Alike R) p q) {args args' : List Expr}
    (ha : List.Forall₂ (Expr.Alike R) args args') :
    Alike R (Option.Rel (List.Forall₂ (Expr.Alike R))) (moreArguments p args)
      (moreArguments q args') := by
  refine (Alike.accept hR _).bind fun comma comma' hc => ?_
  cases hc with
  | none => exact .pure .none
  | some _ =>
    rw [ha.length_eq]
    refine (argument_alike h args'.length).bind fun arg arg' he => .pure (.some ?_)
    exact List.rel_append ha (.cons he .nil)

theorem arguments_alike (h : Alike R (Expr.Alike R) p q) :
    Alike R (List.Forall₂ (Expr.Alike R)) (arguments p) (arguments q) := by
  refine (Alike.nextIs hR _).bind fun b b' hb => ?_
  subst hb
  cases b with
  | true => exact .pure .nil
  | false =>
    refine (argument_alike h 0).bind fun first first' hf => ?_
    exact .repeatFrom (fun _ _ ha => moreArguments_alike hR h ha) (.cons hf .nil)

theorem call_alike (h : Alike R (Expr.Alike R) p q) :
    Alike R (Expr.Alike R) (call p) (call q) := by
  have hstep (callee callee' : Expr) (hc : callee.Alike R callee') :
      Alike R (Option.Rel (Expr.Alike R)) (moreCalls p callee) (moreCalls q callee') := by
    refine (Alike.accept hR _).bind fun opening opening' ho => ?_
    cases ho with
    | none => exact .pure .none
    | some _ =>
      refine (arguments_alike hR h).bind fun args args' ha => ?_
      exact (Alike.expect hR _ _).bind fun paren paren' hp => .pure (.some (.call hc hp ha))
  exact (primary_alike hR h).bind fun callee callee' hc => .repeatFrom hstep hc

theorem unary_alike (h : Alike R (Expr.Alike R) p q) :
    Alike R (Expr.Alike R) (unary p) (unary q) := by
  refine .fixed fun inner inner' hi => .dispatch (fun t u ht => ?_) (call_alike hR h)
  unfold unaryAfter
  rw [hR ht]
  split
  · exact .some (hi.map fun _ _ hr => .unary ht hr)
  · exact .none

theorem chain_alike {isOperator : Kind → Bool} {build : Expr → Token → Expr → Expr}
    (hb : ∀ {left left' right right' : Expr} {op op' : Token}, left.Alike R left' → R op op' →
      right.Alike R right' → (build left op right).Alike R (build left' op' right'))
    (h : Alike R (Expr.Alike R) p q) :
    Alike R (Expr.Alike R) (chain isOperator build p) (chain isOperator build q) := by
  have hstep (left left' : Expr) (hl : left.Alike R left') :
      Alike R (Option.Rel (Expr.Alike R)) (moreOperands isOperator build p left)
        (moreOperands isOperator build q left') := by
    refine (Alike.accept hR _).bind fun op op' ho => ?_
    cases ho with
    | none => exact .pure .none
    | some ho => exact h.bind fun right right' hr => .pure (.some (hb hl ho hr))
  exact h.bind fun first first' hf => .repeatFrom hstep hf

theorem term_alike (h : Alike R (Expr.Alike R) p q) :
    Alike R (Expr.Alike R) (term p) (term q) :=
  chain_alike hR .binary (chain_alike hR .binary (unary_alike hR h))

theorem logicOr_alike (h : Alike R (Expr.Alike R) p q) :
    Alike R (Expr.Alike R) (logicOr p) (logicOr q) := by
  have hc : Alike R (Expr.Alike R) (comparison p) (comparison q) :=
    chain_alike hR .binary (term_alike hR h)
  have he : Alike R (Expr.Alike R) (equality p) (equality q) := chain_alike hR .binary hc
  have ha : Alike R (Expr.Alike R) (logicAnd p) (logicAnd q) := chain_alike hR .logical he
  exact chain_alike hR .logical ha

theorem assigned_alike {target target' value value' : Expr} {op op' : Token}
    (ht : target.Alike R target') (ho : R op op') (hv : value.Alike R value') :
    Alike R (Expr.Alike R) (assigned target op value) (assigned target' op' value') := by
  have hreport : Alike R (Expr.Alike R)
      (do report (some op) .invalidAssignmentTarget; return value)
      (do report (some op') .invalidAssignmentTarget; return value') :=
    (Alike.report (.some ho) _).bind fun _ _ _ => .pure hv
  cases ht with
  | reference hn =>
    refine .pure (.assign hn ?_)
    rw [hR ho]
    split
    · exact hv
    · exact .binary (.reference hn) ho hv
  | _ => exact hreport

theorem assignment_alike (h : Alike R (Expr.Alike R) p q) :
    Alike R (Expr.Alike R) (assignment p) (assignment q) := by
  refine (logicOr_alike hR h).bind fun target target' ht => ?_
  refine (Alike.accept hR _).bind fun op op' ho => ?_
  cases ho with
  | none => exact .pure ht
  | @some op op' ho =>
    have hright : Alike R (Expr.Alike R) (rightSide p op) (rightSide q op') := by
      unfold rightSide
      rw [hR ho]
      split
      · exact h
      · exact term_alike hR h
    exact hright.bind fun value value' hv => assigned_alike hR ht ho hv

theorem expression_alike : Alike R (Expr.Alike R) expression expression :=
  .fixed fun _ _ => assignment_alike hR

end ScriptFront.Parse
