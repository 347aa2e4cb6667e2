import ScriptFront.Proofs.Grammar.Level
import ScriptFront.Proofs.NormalForm.Basic
import ScriptFront.Proofs.Parse.Postcondition

/-! # Expressions are in normal form

The parser of each level gives an expression that holds together at least as tightly as the level.
-/

namespace ScriptFront

open Parse ScriptFront.Parser Grammar

/-! ### Trees in normal form -/

/-- An expression in normal form that may stand wherever one of that tightness is required. -/
structure Expr.Fits (least : Nat) (e : Expr) : Prop where
  normal : (Node.expr e).Everywhere Node.IsNormal
  tight : least ≤ e.tightness
  whole : e.isCompound = false
  written : e.isImplied = false

def Stmt.Normal (s : Stmt) : Prop := (Node.stmt s).Everywhere Node.IsNormal

namespace Node

/-- A tree in normal form that may stand in any place where such a tree is required. -/
def Fits : Node → Prop
  | .expr e => e.Fits 0
  | .stmt s => s.Normal

@[simp]
theorem fits_expr {e : Expr} : (Node.expr e).Fits ↔ e.Fits 0 := Iff.rfl

@[simp]
theorem fits_stmt {s : Stmt} : (Node.stmt s).Fits ↔ s.Normal := Iff.rfl

theorem everywhere_of_children {n : Node} (hs : n.HasShape)
    (hc : ∀ child ∈ n.children, child.Fits) : n.Everywhere IsNormal := by
  have hn : n.IsNormal := by
    refine ⟨hs, ?_, ?_⟩
    · intro e he h
      rw [(hc (.expr e) he).whole] at h
      cases h
    · intro e he h
      rw [(hc (.expr e) he).written] at h
      cases h
  refine everywhere_iff.mpr ⟨hn, ?_⟩
  intro child h
  cases child with
  | expr e => exact (hc _ h).normal
  | stmt s => exact hc _ h

end Node

namespace Expr.Fits

theorem mono {m n : Nat} {e : Expr} (h : e.Fits n) (hm : m ≤ n) : e.Fits m :=
  { h with tight := Nat.le_trans hm h.tight }

theorem everywhere_of_children {e : Expr} (hs : e.HasShape)
    (hc : ∀ child ∈ e.children, child.Fits 0) : (Node.expr e).Everywhere Node.IsNormal := by
  refine Node.everywhere_of_children hs fun child h => ?_
  obtain ⟨c, hmem, rfl⟩ := List.mem_map.mp h
  exact hc c hmem

theorem grouping {inner : Expr} (h : inner.Fits 0) : (Expr.grouping inner).Fits 8 where
  normal := everywhere_of_children trivial (by simpa [children] using h)
  tight := Nat.le_refl _
  whole := rfl
  written := rfl

theorem reference {t : Token} (h : t.kind = .identifier) : (Expr.reference t).Fits 8 where
  normal := everywhere_of_children h (by simp [children])
  tight := Nat.le_refl _
  whole := rfl
  written := rfl

theorem literal {t : Token} {v : Value} (h : t.StandsFor v) (hf : t.kind ≠ .forKw) :
    (Expr.literal t v).Fits 8 where
  normal := everywhere_of_children h (by simp [children])
  tight := Nat.le_refl _
  whole := rfl
  written := by simpa [isImplied] using hf

theorem of_literal? {t : Token} {e : Expr} (h : literal? t = some e) : e.Fits 8 := by
  unfold literal? at h
  split at h
  case h_6 hk =>
    cases h
    exact reference hk
  case h_7 => cases h
  all_goals
    rename_i hk
    cases h
    exact literal (by simp [Token.StandsFor, hk]) (by simp [hk])

theorem call {callee : Expr} {paren : Token} {args : List Expr} (hc : callee.Fits 8)
    (hp : paren.kind = .rightParen) (ha : ∀ arg ∈ args, arg.Fits 0) :
    (Expr.call callee paren args).Fits 8 where
  normal := by
    refine everywhere_of_children ⟨hc.tight, hp⟩ ?_
    intro child h
    rcases List.mem_cons.mp h with rfl | h
    · exact hc.mono (Nat.zero_le 8)
    · exact ha child h
  tight := Nat.le_refl _
  whole := rfl
  written := rfl

theorem unary {op : Token} {right : Expr} (ho : isSign op.kind = true) (hr : right.Fits 7) :
    (Expr.unary op right).Fits 7 where
  normal := everywhere_of_children ⟨ho, hr.tight⟩
    (by simpa [children] using hr.mono (Nat.zero_le 7))
  tight := Nat.le_refl _
  whole := rfl
  written := rfl

theorem assign {name : Token} {value : Expr} (hn : name.kind = .identifier) (hv : value.Fits 0) :
    (Expr.assign name value).Fits 0 where
  normal := everywhere_of_children hn (by simpa [children] using hv)
  tight := Nat.zero_le _
  whole := rfl
  written := rfl

theorem compound {name op : Token} {right : Expr} (hn : name.kind = .identifier)
    (ho : Grammar.isCompound op.kind = true) (hr : right.Fits 5) :
    (Expr.assign name (.binary (.reference name) op right)).Fits 0 where
  normal := by
    have hb : (Node.expr (.binary (.reference name) op right)).Everywhere Node.IsNormal := by
      refine everywhere_of_children (by simp [HasShape, ho]) ?_
      have hl := (reference hn).mono (Nat.zero_le 8)
      simpa [children] using And.intro hl (hr.mono (Nat.zero_le 5))
    refine Node.everywhere_iff.mpr ⟨⟨hn, ?_, ?_⟩, by simpa [Node.children, children] using hb⟩
    · intro e he _
      obtain rfl : e = .binary (.reference name) op right := by
        simpa [Node.children, children] using he
      exact ⟨name, op, right, rfl, rfl, hr.tight⟩
    · intro e he h
      obtain rfl : e = .binary (.reference name) op right := by
        simpa [Node.children, children] using he
      cases h
  tight := Nat.zero_le _
  whole := rfl
  written := rfl

end Expr.Fits

/-! ### Levels -/

namespace Grammar

def Chain.tightness : Chain → Nat
  | .logicOr => 1
  | .logicAnd => 2
  | .equality => 3
  | .comparison => 4
  | .term => 5
  | .factor => 6

def Level.tightness : Level → Nat
  | .assignment => 0
  | .chain c => c.tightness
  | .unary => 7
  | .call | .primary => 8

theorem Chain.operand_tightness (c : Chain) : c.operand.tightness = c.tightness + 1 := by
  cases c <;> rfl

theorem Chain.tightness_of_isOperator {c : Chain} {k : Kind} (h : c.isOperator k = true) :
    k.tightness = c.tightness := by
  cases c <;> cases k <;> first | rfl | cases h

theorem Chain.build_fits {c : Chain} {left right : Expr} {op : Token}
    (ho : c.isOperator op.kind = true) (hl : left.Fits c.tightness)
    (hr : right.Fits c.operand.tightness) : (c.build left op right).Fits c.tightness := by
  have ht := c.tightness_of_isOperator ho
  rw [c.operand_tightness] at hr
  have hlt : op.kind.tightness ≤ left.tightness := ht ▸ hl.tight
  have hrt : op.kind.tightness < right.tightness := ht ▸ hr.tight
  have hc : ∀ child ∈ [left, right], child.Fits 0 := by
    simpa using And.intro (hl.mono (Nat.zero_le _)) (hr.mono (Nat.zero_le _))
  have hlogical (h : op.kind = .logicalAnd ∨ op.kind = .logicalOr) :
      (Expr.logical left op right).Fits c.tightness :=
    ⟨Expr.Fits.everywhere_of_children ⟨h, hlt, hrt⟩ hc, Nat.le_of_eq ht.symm, rfl, rfl⟩
  have hbinary (h : op.kind.isBinary = true) (hn : isCompound op.kind = false) :
      (Expr.binary left op right).Fits c.tightness := by
    have hs : (Expr.binary left op right).HasShape := by
      simpa [Expr.HasShape, hn] using ⟨h, hlt, hrt⟩
    exact ⟨Expr.Fits.everywhere_of_children hs hc, Nat.le_of_eq ht.symm, hn, rfl⟩
  have hkinds : ∀ k : Kind, c.isOperator k = true → isCompound k = false := by
    intro k hk
    cases c <;> cases k <;> first | rfl | cases hk
  cases c with
  | logicAnd => exact hlogical (Or.inl (by simpa [isOperator] using ho))
  | logicOr => exact hlogical (Or.inr (by simpa [isOperator] using ho))
  | factor => exact hbinary (by simp_all [isOperator, Kind.isBinary]) (hkinds _ ho)
  | term => exact hbinary (by simp_all [isOperator, Kind.isBinary]) (hkinds _ ho)
  | comparison => exact hbinary (by simp_all [isOperator, Kind.isBinary]) (hkinds _ ho)
  | equality => exact hbinary (by simp_all [isOperator, Kind.isBinary]) (hkinds _ ho)

/-- The parser gives expressions of that level. -/
def Level.GivenBy (level : Level) (p : Parser Expr) : Prop :=
  Gives p fun e _ => e.Fits level.tightness

variable {self : Parser Expr}

theorem primary_fits (hs : Level.assignment.GivenBy self) :
    Level.primary.GivenBy (Parse.primary self) := by
  refine .dispatch (fun t q hq => ?_) (.fail _)
  unfold primaryAfter at hq
  split at hq
  · cases hq
    exact hs.bind fun inner hi => .bind .any fun _ _ => .pure fun _ => hi.grouping
  · obtain ⟨e, he, rfl⟩ := Option.map_eq_some_iff.mp hq
    exact .pure fun _ => .of_literal? he

theorem argument_fits (hs : Level.assignment.GivenBy self) (count : Nat) :
    Level.assignment.GivenBy (argument self count) :=
  .bind .any fun _ _ => hs

theorem arguments_fits (hs : Level.assignment.GivenBy self) :
    Gives (Parse.arguments self) fun args _ => ∀ arg ∈ args, arg.Fits 0 := by
  have hstep (args : List Expr) (ha : ∀ arg ∈ args, arg.Fits 0) :
      Gives (moreArguments self args) fun o _ => ∀ more ∈ o, ∀ arg ∈ more, arg.Fits 0 := by
    refine .bind .any fun comma _ => ?_
    cases comma with
    | none => exact .pure (by simp)
    | some comma =>
      refine (argument_fits hs args.length).bind fun arg h => .pure fun _ more hm => ?_
      cases hm
      intro e he
      rcases List.mem_append.mp he with he | he
      · exact ha e he
      · rw [List.mem_singleton.mp he]
        exact h
  refine .bind .any fun stop _ => ?_
  cases stop with
  | true => exact .pure (by simp)
  | false =>
    refine (argument_fits hs 0).bind fun first h => .repeatFrom hstep fun e he => ?_
    rw [List.mem_singleton.mp he]
    exact h

theorem call_fits (hs : Level.assignment.GivenBy self) :
    Level.call.GivenBy (Parse.call self) := by
  have hstep (callee : Expr) (hc : callee.Fits 8) :
      Gives (Parse.moreCalls self callee) fun o _ => ∀ e ∈ o, e.Fits 8 := by
    refine .bind .any fun opening _ => ?_
    cases opening with
    | none => exact .pure (by simp)
    | some opening =>
      refine (arguments_fits hs).bind fun args ha => (Gives.expect _ _).bind fun paren hp => ?_
      refine .pure fun _ e he => ?_
      cases he
      exact hc.call hp ha
  exact (primary_fits hs).bind fun callee hc => .repeatFrom hstep hc

theorem unary_fits (hs : Level.assignment.GivenBy self) :
    Level.unary.GivenBy (Parse.unary self) := by
  refine .fixed fun inner hi => .dispatch (fun op q hq => ?_) ?_
  · unfold unaryAfter at hq
    split at hq
    · rename_i ho
      cases hq
      exact hi.map fun right _ hr => hr.unary ((isSign_eq op.kind).trans ho)
    · cases hq
  · exact (call_fits hs).mono fun e _ he => he.mono (Nat.le_succ 7)

theorem chain_fits {c : Chain} {operand : Parser Expr} (ho : c.operand.GivenBy operand) :
    (Level.chain c).GivenBy (Parse.chain c.isOperator c.build operand) := by
  have hstep (left : Expr) (hl : left.Fits c.tightness) :
      Gives (moreOperands c.isOperator c.build operand left) fun o _ =>
        ∀ e ∈ o, e.Fits c.tightness := by
    refine (Gives.accept _).bind fun op hop => ?_
    cases op with
    | none => exact .pure (by simp)
    | some op =>
      refine ho.bind fun right hr => .pure fun _ e he => ?_
      cases he
      exact c.build_fits (hop op rfl) hl hr
  refine ho.bind fun first hf => .repeatFrom hstep (hf.mono ?_)
  rw [c.operand_tightness]
  exact Nat.le_succ _

theorem term_fits (hs : Level.assignment.GivenBy self) :
    (Level.chain .term).GivenBy (term self) :=
  chain_fits (c := .term) (chain_fits (c := .factor) (unary_fits hs))

theorem logicOr_fits (hs : Level.assignment.GivenBy self) :
    (Level.chain .logicOr).GivenBy (logicOr self) := by
  have hc : (Level.chain .comparison).GivenBy (comparison self) :=
    chain_fits (c := .comparison) (term_fits hs)
  have he : (Level.chain .equality).GivenBy (equality self) := chain_fits (c := .equality) hc
  have ha : (Level.chain .logicAnd).GivenBy (logicAnd self) := chain_fits (c := .logicAnd) he
  exact chain_fits (c := .logicOr) ha

/-- A target that is no name is dropped, so that the value stands alone. -/
theorem assigned_fits {target right : Expr} {op : Token} (ht : target.Fits 1)
    (ho : op.kind.isAssignment = true)
    (hr : right.Fits (if op.kind = .equal then 0 else 5)) :
    Level.assignment.GivenBy (assigned target op right) := by
  cases target with
  | reference name =>
    have hn : name.kind = .identifier := (Node.everywhere_iff.mp ht.normal).1.shape
    refine .pure fun _ => ?_
    by_cases hk : op.kind = .equal
    · rw [if_pos hk] at hr ⊢
      exact hr.assign hn
    · rw [if_neg hk] at hr ⊢
      have hc : op.kind.isCompound = true := by simpa [Kind.isAssignment, hk] using ho
      exact hr.compound hn ((isCompound_eq op.kind).trans hc)
  | _ => exact .bind .any fun _ _ => .pure fun _ => hr.mono (Nat.zero_le _)

theorem assignment_fits (hs : Level.assignment.GivenBy self) :
    Level.assignment.GivenBy (Parse.assignment self) := by
  refine (logicOr_fits hs).bind fun target ht => (Gives.accept _).bind fun op ho => ?_
  cases op with
  | none => exact .pure fun _ => ht.mono (Nat.zero_le _)
  | some op =>
    have hright : Gives (rightSide self op) fun e _ =>
        e.Fits (if op.kind = .equal then 0 else 5) := by
      unfold rightSide
      split
      · exact hs
      · exact term_fits hs
    exact hright.bind fun right hr => assigned_fits ht (ho op rfl) hr

end Grammar

theorem Parse.expression_fits : Gives expression fun e _ => e.Fits 0 :=
  .fixed fun _ => assignment_fits

end ScriptFront
