import ScriptFront.Proofs.Grammar.Level
import ScriptFront.Proofs.Slice.Refinement

/-! # Expressions by index -/

namespace ScriptFront.Slice

open Parse Grammar

/-! ### The repeated parts, one at a time -/

theorem operands_eq {isOperator : Kind → Bool} {build : Expr → Token → Expr → Expr}
    {operand : Parser Expr} (h : Parser.Within operand) (left : Expr) :
    Parser.repeatFrom (moreOperands isOperator build operand) left = (do
      match ← Parser.accept isOperator with
      | none => pure left
      | some op =>
        let right ← operand
        Parser.repeatFrom (moreOperands isOperator build operand) (build left op right)) := by
  rw [(moreOperands_progresses h).repeatFrom_eq, moreOperands, bind_assoc]
  congr
  funext op
  cases op <;> simp

def callOf (callee : Expr) : Parser Expr := do
  let args ← Parse.arguments expression
  let paren ← Parser.expect .rightParen .parenAfterArguments
  return .call callee paren args

theorem calls_eq (callee : Expr) :
    Parser.repeatFrom (moreCalls expression) callee = (do
      match ← Parser.accept (· == .leftParen) with
      | none => pure callee
      | some _ => callOf callee >>= Parser.repeatFrom (moreCalls expression)) := by
  rw [(moreCalls_progresses expression_within).repeatFrom_eq, moreCalls, bind_assoc]
  congr
  funext opening
  cases opening <;> simp [callOf]

theorem furtherArguments_eq (args : List Expr) :
    Parser.repeatFrom (moreArguments expression) args = (do
      match ← Parser.accept (· == .comma) with
      | none => pure args
      | some _ =>
        let arg ← argument expression args.length
        Parser.repeatFrom (moreArguments expression) (args ++ [arg])) := by
  rw [(moreArguments_progresses expression_within).repeatFrom_eq, moreArguments, bind_assoc]
  congr
  funext comma
  cases comma <;> simp

theorem accept_isAssignment {α : Type} (f : Option Token → Parser α) :
    Parser.accept Kind.isAssignment >>= f = (do
      match ← Parser.accept (· == .equal) with
      | none => Parser.accept Kind.isCompound >>= f
      | some op => f (some op)) := by
  funext ts
  by_cases hl : Parser.Lacks (· == .equal) ts
  · rw [Parser.accept_bind_of_lacks hl]
    change _ = (Parser.accept Kind.isCompound >>= f) ts
    by_cases hc : Parser.Lacks Kind.isCompound ts
    · have ha : Parser.Lacks Kind.isAssignment ts := by
        intro t ht
        have h₁ := hl t ht
        have h₂ := hc t ht
        simp_all [Kind.isAssignment]
      rw [Parser.accept_bind_of_lacks hc, Parser.accept_bind_of_lacks ha]
    · cases ts with
      | nil => exact absurd (Parser.lacks_nil _) hc
      | cons t rest =>
        have hk : t.kind.isCompound = true := by simpa using hc
        have ha : t.kind.isAssignment = true := by simp [Kind.isAssignment, hk]
        rw [Parser.accept_bind_cons hk, Parser.accept_bind_cons ha]
  · cases ts with
    | nil => exact absurd (Parser.lacks_nil _) hl
    | cons t rest =>
      have hk : t.kind = .equal := by simpa using hl
      have ha : t.kind.isAssignment = true := by simp [Kind.isAssignment, hk]
      rw [Parser.accept_bind_cons ha, Parser.accept_bind_cons (by simpa using hk)]

/-! ### Each level -/

variable {c : Input} {n : Nat} {here : List Token → Prop}

theorem limitArguments_refines (count : Nat) :
    Refines c n here (fun _ => limitArguments count) (Parse.limitArguments count) := by
  unfold limitArguments Parse.limitArguments
  split
  · intro rest reported hs hn hr
    rw [Parser.peek_bind]
    refine ⟨.of_eq ?_, List.suffix_refl rest⟩
    rw [bind_ok (lift_ok (peek_state hs))]
    rfl
  · exact .pure ()

theorem primaryAt_succ_of_leftParen {t : Token} (h : t.kind = .leftParen) (k : Nat) :
    primaryAt (k + 1) t = (do
      let _ ← liftM advance
      let inner ← assignment k
      let _ ← consume .rightParen .parenAfterExpression
      return Expr.grouping inner) := by
  simp [primaryAt, literal?, h]

theorem primary_refines (h : Refines c n anywhere assignment expression) :
    Refines c (n + 1) anywhere primary (Parse.primary expression) := by
  refine .deeper (fun _ => by rw [primary]) ?_
  intro rest reported hs hn _
  have hpeek (k : Nat) : (liftM peek >>= primaryAt k) (c.state rest reported) =
      primaryAt k (rest.head?.getD c.ending) (c.state rest reported) :=
    bind_ok (lift_ok (peek_state hs))
  cases rest with
  | nil =>
    have hp (k : Nat) : primaryAt (k + 1) c.ending = errorAt c.ending (.expected .expression) := by
      simp [primaryAt, literal?, c.isEnding]
    refine ⟨.congr hpeek (.succ hp (.of_eq ?_)), List.suffix_refl []⟩
    exact errorAt_state [] .expression
  | cons t rest =>
    have ht : rest <:+ t :: rest := List.suffix_cons t rest
    rw [Parse.primary]
    by_cases hk : t.kind = .leftParen
    · have hq : primaryAfter expression t = some (grouping expression) := by
        simp [primaryAfter, hk]
      have hg : Refines c n anywhere
          (fun k => do
            let inner ← assignment k
            let _ ← consume .rightParen .parenAfterExpression
            return Expr.grouping inner)
          (grouping expression) :=
        h.bind fun inner => (Refines.consume _ _).bind fun _ => .pure (Expr.grouping inner)
      obtain ⟨he, hw⟩ := hg rest reported (ht.trans hs) (Nat.lt_of_succ_lt_succ hn) trivial
      rw [Parser.dispatch_cons hq]
      refine ⟨.congr hpeek (.succ (primaryAt_succ_of_leftParen hk) ?_), hw.trans ht⟩
      exact he.congr fun k => bind_ok (lift_ok (advance_state hs))
    · cases hl : literal? t with
      | some e =>
        have hp (k : Nat) : primaryAt (k + 1) t = (do
            let _ ← liftM advance
            return e) := by
          simp [primaryAt, hl]
        have hq : primaryAfter expression t = some (pure e) := by
          simp [primaryAfter, hk, hl]
        rw [Parser.dispatch_cons hq]
        refine ⟨.congr hpeek (.succ hp (.of_eq ?_)), ht⟩
        rw [bind_ok (lift_ok (advance_state hs))]
        exact pure_state e
      | none =>
        have hp (k : Nat) : primaryAt (k + 1) t = errorAt t (.expected .expression) := by
          simp [primaryAt, hl, hk]
        have hq : ∀ u ∈ (t :: rest).head?, primaryAfter expression u = none := by
          simp [primaryAfter, hk, hl]
        rw [Parser.dispatch_of_none hq]
        refine ⟨.congr hpeek (.succ hp (.of_eq ?_)), List.suffix_refl _⟩
        exact errorAt_state (t :: rest) .expression

theorem argumentLoop_refines (h : Refines c n anywhere assignment expression) (args : List Expr) :
    Refines c n anywhere (argumentLoop · args) (do
      let arg ← argument expression args.length
      Parser.repeatFrom (moreArguments expression) (args ++ [arg])) := by
  induction n generalizing args with
  | zero => exact .zero
  | succ n ih =>
    have hm (arg : Expr) : Refines c (n + 1) anywhere
        (fun k => do
          if ← accept (· == .comma) then argumentLoop k (args ++ [arg]) else return args ++ [arg])
        (Parser.repeatFrom (moreArguments expression) (args ++ [arg])) := by
      rw [furtherArguments_eq]
      exact .accept (fun _ _ => (ih h.succ (args ++ [arg])).weaken) (.pure _)
    rw [argument, bind_assoc]
    refine .deeper (fun _ => by rw [argumentLoop]) ?_
    exact (limitArguments_refines args.length).bind fun _ => h.bind hm

theorem finishCall_refines (h : Refines c n anywhere assignment expression) (callee : Expr) :
    Refines c n anywhere (finishCall · callee) (callOf callee) := by
  have ha : Refines c n anywhere arguments (Parse.arguments expression) :=
    .deeper (fun _ => by rw [arguments]) (.nextIs (.pure []) (argumentLoop_refines h []))
  refine .deeper (fun _ => by rw [finishCall]) ?_
  exact ha.bind fun args => (Refines.consume _ _).bind fun paren => .pure _

theorem callLoop_refines (h : Refines c n anywhere assignment expression) {l : Nat}
    (hl : l ≤ n + 1) (callee : Expr) :
    Refines c l anywhere (callLoop · callee)
      (Parser.repeatFrom (moreCalls expression) callee) := by
  induction l generalizing callee with
  | zero => exact .zero
  | succ l ih =>
    have hf : Refines c l anywhere assignment expression :=
      h.mono (Nat.le_of_succ_le_succ hl) fun _ hr => hr
    rw [calls_eq]
    refine .deeper (fun _ => by rw [callLoop]) ?_
    refine .accept (fun _ _ => Refines.weaken ?_) (.pure callee)
    exact (finishCall_refines hf callee).bind (ih (Nat.le_of_succ_le hl))

theorem call_refines (h : Refines c n anywhere assignment expression) :
    Refines c (n + 1) anywhere call (Parse.call expression) := by
  refine .deeper (fun _ => by rw [call]) ?_
  exact (primary_refines h).bind (callLoop_refines h (Nat.le_refl _))

theorem unary_refines (h : Refines c n anywhere assignment expression) {l : Nat}
    (hl : l ≤ n + 1) : Refines c l anywhere unary (Parse.unary expression) := by
  induction l with
  | zero => exact .zero
  | succ l ih =>
    rw [unary_eq expression_within]
    refine .deeper (fun _ => by rw [unary]) ?_
    refine .of_choices (.choice ?_ (.noChoice ?_ ((call_refines h).mono hl fun _ hr => hr)))
    · intro op hop
      refine ⟨_, if_pos hop, .previous ?_⟩
      exact Refines.weaken ((ih (Nat.le_of_succ_le hl)).bind fun right => .pure _)
    · intro t ht
      have hu : t.kind.isUnary = false := by simpa using ht
      simp [unaryAfter, hu]

theorem binaryLoop_refines {b : Chain}
    (h : Refines c n anywhere (operand · b) (b.operand.parser expression)) (left : Expr) :
    Refines c n anywhere (binaryLoop · b left)
      (Parser.repeatFrom (moreOperands b.isOperator b.build (b.operand.parser expression))
        left) := by
  induction n generalizing left with
  | zero => exact .zero
  | succ n ih =>
    rw [operands_eq b.operand.within]
    refine .deeper (fun _ => by rw [binaryLoop]) ?_
    refine .accept (fun op _ => .previous (Refines.weaken ?_)) (.pure left)
    exact h.succ.bind fun right => ih h.succ (b.build left op right)

theorem binary_refines_of_operand {b : Chain} {m : Nat → Attempt Expr}
    (ho : ∀ k, operand (k + 1) b = m k)
    (h : Refines c n anywhere m (b.operand.parser expression)) :
    Refines c n anywhere (binary · b) ((Level.chain b).parser expression) := by
  have h' : Refines c n anywhere (operand · b) (b.operand.parser expression) := .deeper ho h
  rw [Chain.parser_eq]
  refine .deeper (fun _ => by rw [binary]) ?_
  exact h'.bind (binaryLoop_refines h')

theorem binary_refines (h : Refines c n anywhere assignment expression) (b : Chain) :
    Refines c (n + 1) anywhere (binary · b) ((Level.chain b).parser expression) := by
  have factor : Refines c (n + 1) anywhere (binary · .factor) (Parse.factor expression) :=
    binary_refines_of_operand (fun _ => by rw [operand]) (unary_refines h (Nat.le_refl _))
  have term : Refines c (n + 1) anywhere (binary · .term) (Parse.term expression) :=
    binary_refines_of_operand (fun _ => by rw [operand]) factor
  have comparison :
      Refines c (n + 1) anywhere (binary · .comparison) (Parse.comparison expression) :=
    binary_refines_of_operand (fun _ => by rw [operand]) term
  have equality : Refines c (n + 1) anywhere (binary · .equality) (Parse.equality expression) :=
    binary_refines_of_operand (fun _ => by rw [operand]) comparison
  have logicAnd : Refines c (n + 1) anywhere (binary · .logicAnd) (Parse.logicAnd expression) :=
    binary_refines_of_operand (fun _ => by rw [operand]) equality
  cases b with
  | factor => exact factor
  | term => exact term
  | comparison => exact comparison
  | equality => exact equality
  | logicAnd => exact logicAnd
  | logicOr => exact binary_refines_of_operand (fun _ => by rw [operand]) logicAnd

theorem report_refines (t : Token) (problem : Problem) :
    Refines c n here (fun _ => liftM (report t problem)) (Parser.report (some t) problem) :=
  fun rest _ _ _ _ => ⟨.of_eq rfl, List.suffix_refl rest⟩

theorem assignment_refines_succ (h : Refines c n anywhere assignment expression) :
    Refines c (n + 1) anywhere assignment expression := by
  rw [expression_eq]
  refine .deeper (fun _ => by rw [assignment]) ?_
  refine (binary_refines h .logicOr).bind fun target => ?_
  rw [accept_isAssignment]
  refine .accept ?_ (.accept ?_ (.pure target))
  · intro op hop
    have hk : op.kind = .equal := by simpa using hop
    simp only [rightSide, if_pos hk]
    refine .previous (h.weaken.bind fun right => ?_)
    cases target with
    | reference name =>
      simp only [assigned, if_pos hk]
      exact .pure _
    | _ => exact (report_refines op _).bind fun _ => .pure right
  · intro op hop
    have hk : op.kind ≠ .equal := Parser.ne_of_wanted hop rfl
    simp only [rightSide, if_neg hk]
    refine .previous ((binary_refines h .term).succ.weaken.bind fun right => ?_)
    cases target with
    | reference name =>
      simp only [assigned, if_neg hk]
      exact .pure _
    | _ => exact (report_refines op _).bind fun _ => .pure right

theorem assignment_refines : Refines c n anywhere assignment expression := by
  induction n with
  | zero => exact .zero
  | succ n ih => exact assignment_refines_succ ih

end ScriptFront.Slice
