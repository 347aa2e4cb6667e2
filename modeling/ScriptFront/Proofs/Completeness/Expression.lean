import ScriptFront.Proofs.Grammar.Level
import ScriptFront.Proofs.Parse.Success

/-! # Expressions are read

The tokens of a derivation, in front of a token that does not go on with it, are read as the
value of the derivation, with its reports. The proof is by induction on the derivation
(`ExprTree.isRead`); for each level it needs to know which kinds of token go on with an
expression of that level.
-/

namespace ScriptFront.Grammar

open Parse ScriptFront.Parser

/-! ### What goes on with an expression -/

def Chain.upTo : Chain → List Chain
  | .factor => [.factor]
  | .term => [.factor, .term]
  | .comparison => [.factor, .term, .comparison]
  | .equality => [.factor, .term, .comparison, .equality]
  | .logicAnd => [.factor, .term, .comparison, .equality, .logicAnd]
  | .logicOr => [.factor, .term, .comparison, .equality, .logicAnd, .logicOr]

/-- Whether a token of some kind after an expression of the level is read as part of it. -/
def Level.goesOn : Level → Kind → Bool
  | .primary, _ => false
  | .call, k | .unary, k => k == .leftParen
  | .chain c, k => k == .leftParen || c.upTo.any (·.isOperator k)
  | .assignment, k =>
    k == .leftParen || Chain.logicOr.upTo.any (·.isOperator k) || k.isAssignment

theorem Chain.goesOn_of_operand {c : Chain} {k : Kind} (h : c.operand.goesOn k = true) :
    (Level.chain c).goesOn k = true := by
  cases c <;> simp [operand, Level.goesOn, upTo] at h ⊢ <;> grind

theorem Chain.goesOn_of_isOperator {c : Chain} {k : Kind} (h : c.isOperator k = true) :
    (Level.chain c).goesOn k = true := by
  cases c <;> simp [Level.goesOn, upTo, h]

theorem Chain.operand_goesOn_of_isOperator {c : Chain} {k : Kind} (h : c.isOperator k = true) :
    c.operand.goesOn k = false := by
  cases c with
  | factor | term | equality =>
    simp [isOperator] at h
    rcases h with rfl | rfl <;> rfl
  | comparison =>
    simp [isOperator] at h
    rcases h with ((rfl | rfl) | rfl) | rfl <;> rfl
  | logicAnd | logicOr =>
    simp [isOperator] at h
    subst h
    rfl

theorem Chain.assignment_goesOn {c : Chain} {k : Kind} (h : (Level.chain c).goesOn k = true) :
    Level.assignment.goesOn k = true := by
  cases c <;> simp [Level.goesOn, upTo] at h ⊢ <;> grind

theorem logicOr_goesOn_of_isAssignment {k : Kind} (h : k.isAssignment = true) :
    (Level.chain .logicOr).goesOn k = false := by
  simp [Kind.isAssignment, Kind.isCompound] at h
  rcases h with rfl | ((rfl | rfl) | rfl) | rfl <;> rfl

/-! ### How an expression begins -/

def Level.begins : Level → Kind → Bool
  | .primary, k | .call, k => isAtom k || k == .leftParen
  | _, k => isAtom k || k == .leftParen || isSign k

theorem Level.assignment_begins {level : Level} {k : Kind} (h : level.begins k = true) :
    Level.assignment.begins k = true := by
  cases level <;> simp_all [begins]

theorem Chain.begins_of_operand {c : Chain} {k : Kind} (h : c.operand.begins k = true) :
    (Level.chain c).begins k = true := by
  cases c <;> exact h

theorem ExprTree.exists_yield_eq_cons : {level : Level} → (d : ExprTree (.expr level)) →
    ∃ t tail, d.yield = t :: tail ∧ level.begins t.kind = true
  | _, atom t => ⟨t.1, [], rfl, by simp [Level.begins, t.2]⟩
  | _, grouping opening inner closing =>
    ⟨opening.1, inner.yield ++ [closing.1], rfl, by simp [Level.begins, opening.2]⟩
  | _, call callee more => by
    obtain ⟨t, tail, h, hk⟩ := exists_yield_eq_cons callee
    exact ⟨t, tail ++ more.yield, by simp [h], hk⟩
  | _, signed op operand => ⟨op.1, operand.yield, rfl, by simp [Level.begins, op.2]⟩
  | _, unsigned e => by
    obtain ⟨t, tail, h, hk⟩ := exists_yield_eq_cons e
    exact ⟨t, tail, h, Level.assignment_begins hk⟩
  | _, chain first more => by
    obtain ⟨t, tail, h, hk⟩ := exists_yield_eq_cons first
    exact ⟨t, tail ++ more.yield, by simp [h], Chain.begins_of_operand hk⟩
  | _, unassigned e => exists_yield_eq_cons e
  | _, assigned target op right => by
    obtain ⟨t, tail, h, hk⟩ := exists_yield_eq_cons target
    exact ⟨t, tail ++ op.1 :: right.yield, by simp [h], hk⟩
  | _, compound target op right => by
    obtain ⟨t, tail, h, hk⟩ := exists_yield_eq_cons target
    exact ⟨t, tail ++ op.1 :: right.yield, by simp [h], hk⟩

/-- The derivation is read from the front of any list that does not go on with it. -/
def ExprTree.IsRead : {form : ExprForm} → ExprTree form → Prop
  | .expr level, d => ∀ rest, Lacks level.goesOn rest →
    level.parser expression (d.yield ++ rest) = .done d.value d.reports rest
  | .operations c, d => ∀ left rest, Lacks (Level.chain c).goesOn rest →
    repeatFrom (moreOperands c.isOperator c.build (c.operand.parser expression)) left
      (d.yield ++ rest) =
        .done (d.value.foldl (fun e o => c.build e o.1 o.2) left) d.reports rest
  | .calls, d => ∀ callee rest, Lacks Level.call.goesOn rest →
    repeatFrom (Parse.moreCalls expression) callee (d.yield ++ rest) =
      .done (d.value.foldl (fun e c => .call e c.2 c.1) callee) d.reports rest
  | .arguments, d => ∀ (closing : Terminal .rightParen) rest,
    Parse.arguments expression (d.yield ++ closing.1 :: rest) =
      .done d.value d.reports (closing.1 :: rest)
  | .furtherArguments count, d => ∀ (args : List Expr) (closing : Terminal .rightParen) rest,
    args.length = count →
    repeatFrom (moreArguments expression) args (d.yield ++ closing.1 :: rest) =
      .done (args ++ d.value) d.reports (closing.1 :: rest)

/-! ### Reading each form -/

theorem literal?_eq_atomValue {t : Token} (h : isAtom t.kind = true) :
    literal? t = some (atomValue t) := by
  simp only [isAtom, Bool.or_eq_true, beq_iff_eq] at h
  rcases h with ((((h | h) | h) | h) | h) | h <;> simp [literal?, atomValue, literalValue, h]

namespace ExprTree

theorem isRead_atom (t : TerminalOf isAtom) : (atom t).IsRead := by
  intro rest _
  have hp : t.1.kind ≠ .leftParen := ne_of_wanted t.2 rfl
  have ha : primaryAfter expression t.1 = some (pure (atomValue t.1)) := by
    rw [primaryAfter, if_neg hp, literal?_eq_atomValue t.2]
    rfl
  exact dispatch_cons ha

theorem isRead_grouping (opening : Terminal .leftParen) {inner : Expression}
    (closing : Terminal .rightParen) (hi : inner.IsRead) :
    (grouping opening inner closing).IsRead := by
  intro rest _
  have hg : Parse.grouping expression (inner.yield ++ closing.1 :: rest) =
      .done (.grouping inner.value) inner.reports rest := by
    have hc : Lacks Level.assignment.goesOn (closing.1 :: rest) := by
      simp [closing.2, Level.goesOn]
      decide
    have he := hi (closing.1 :: rest) hc
    rw [Level.parser, ← expression_eq] at he
    rw [Parse.grouping, bind_of_done he, expect_bind_cons closing.2]
    change Reply.done _ (inner.reports ++ []) rest = _
    rw [List.append_nil]
  change primary expression (opening.1 :: ((inner.yield ++ [closing.1]) ++ rest)) =
    .done (.grouping inner.value) inner.reports rest
  rw [primary, dispatch_cons (if_pos opening.2), List.append_assoc]
  exact hg

theorem isRead_call {callee : ExprTree (.expr .primary)} {more : ExprTree .calls}
    (hc : callee.IsRead) (hm : more.IsRead) : (call callee more).IsRead := by
  intro rest hr
  have hp : primary expression (callee.yield ++ (more.yield ++ rest)) =
      .done callee.value callee.reports (more.yield ++ rest) :=
    hc (more.yield ++ rest) fun _ _ => rfl
  have h := bind_eq_done hp (hm callee.value rest hr)
  rwa [← List.append_assoc] at h

theorem isRead_noCalls : noCalls.IsRead := by
  intro callee rest hr
  refine repeatFrom_of_none (moreCalls_progresses expression_within) ?_
  exact accept_bind_eq_iff.mpr (Or.inr ⟨hr, rfl⟩)

theorem isRead_moreCalls (opening : Terminal .leftParen) {args : ExprTree .arguments}
    (closing : Terminal .rightParen) {more : ExprTree .calls} (ha : args.IsRead)
    (hm : more.IsRead) : (moreCalls opening args closing more).IsRead := by
  intro callee rest hr
  have hs : Parse.moreCalls expression callee
      (opening.1 :: (args.yield ++ closing.1 :: (more.yield ++ rest))) =
        .done (some (.call callee closing.1 args.value)) args.reports (more.yield ++ rest) := by
    refine accept_bind_eq_iff.mpr (Or.inl ⟨opening.1, _, rfl, by simp [opening.2], ?_⟩)
    refine bind_eq_done_iff.mpr ⟨_, _, _, [], ha closing _, ?_, by simp⟩
    exact expect_bind_eq_done_iff.mpr ⟨closing.1, _, rfl, closing.2, rfl⟩
  have h := repeatFrom_of_some (moreCalls_progresses expression_within) hs
  rw [hm _ rest hr] at h
  simpa using h

theorem assignment_lacks_cons {t : Token} {rest : List Token}
    (h : t.kind = .rightParen ∨ t.kind = .comma ∨ t.kind = .semicolon) :
    Lacks Level.assignment.goesOn (t :: rest) := by
  rw [lacks_cons]
  rcases h with h | h | h <;> rw [h] <;> rfl

theorem IsRead.expression_eq {d : Expression} (hd : d.IsRead) {rest : List Token}
    (hr : Lacks Level.assignment.goesOn rest) :
    expression (d.yield ++ rest) = .done d.value d.reports rest := by
  rw [Parse.expression_eq]
  exact hd rest hr

theorem limitArguments_eq (count : Nat) (ts : List Token) :
    limitArguments count ts = .done () (argumentReports count ts.head?) ts := by
  unfold limitArguments argumentReports
  split
  · exact peek_bind
  · rfl

theorem IsRead.argument_eq {d : Expression} (hd : d.IsRead) (count : Nat) {rest : List Token}
    (hr : Lacks Level.assignment.goesOn rest) :
    argument expression count (d.yield ++ rest) =
      .done d.value (argumentReports count d.yield.head? ++ d.reports) rest := by
  obtain ⟨t, tail, hy, -⟩ := d.exists_yield_eq_cons
  have hl := limitArguments_eq count (d.yield ++ rest)
  have hh : (d.yield ++ rest).head? = d.yield.head? := by simp [hy]
  rw [hh] at hl
  exact bind_eq_done hl (hd.expression_eq hr)

theorem isRead_noArguments : noArguments.IsRead := by
  intro closing rest
  exact nextIs_bind_cons closing.2

/-- What follows an argument ends it: a comma or the closing parenthesis. -/
theorem furtherArguments_lacks {count : Nat} (more : ExprTree (.furtherArguments count))
    (closing : Terminal .rightParen) (rest : List Token) :
    Lacks Level.assignment.goesOn (more.yield ++ closing.1 :: rest) := by
  cases more with
  | noFurtherArguments => exact assignment_lacks_cons (Or.inl closing.2)
  | furtherArguments comma argument more =>
    exact assignment_lacks_cons (Or.inr (Or.inl comma.2))

theorem isRead_someArguments {first : Expression} {more : ExprTree (.furtherArguments 1)}
    (hf : first.IsRead) (hm : more.IsRead) : (someArguments first more).IsRead := by
  intro closing rest
  obtain ⟨t, tail, hy, hk⟩ := first.exists_yield_eq_cons
  have hn : t.kind ≠ .rightParen := ne_of_wanted hk rfl
  have ha := hf.argument_eq 0 (furtherArguments_lacks more closing rest)
  have hl : Lacks (· == .rightParen) (first.yield ++ (more.yield ++ closing.1 :: rest)) := by
    simp [hy, hn]
  change Parse.arguments expression ((first.yield ++ more.yield) ++ closing.1 :: rest) =
    .done (first.value :: more.value) (first.reports ++ more.reports) (closing.1 :: rest)
  rw [List.append_assoc, Parse.arguments, nextIs_bind_of_lacks hl]
  exact bind_eq_done_iff.mpr ⟨_, _, _, _, ha, hm [first.value] closing rest rfl, rfl⟩

theorem isRead_noFurtherArguments {count : Nat} :
    (noFurtherArguments : ExprTree (.furtherArguments count)).IsRead := by
  intro args closing rest _
  change repeatFrom (moreArguments expression) args (closing.1 :: rest) =
    .done (args ++ []) [] (closing.1 :: rest)
  rw [List.append_nil]
  refine repeatFrom_of_none (moreArguments_progresses expression_within) ?_
  refine accept_bind_eq_iff.mpr (Or.inr ⟨?_, rfl⟩)
  simp [closing.2]

theorem isRead_furtherArguments {count : Nat} (comma : Terminal .comma) {argument : Expression}
    {more : ExprTree (.furtherArguments (count + 1))} (ha : argument.IsRead) (hm : more.IsRead) :
    (furtherArguments comma argument more).IsRead := by
  rintro args closing rest rfl
  have hs : moreArguments expression args
      (comma.1 :: (argument.yield ++ (more.yield ++ closing.1 :: rest))) =
        .done (some (args ++ [argument.value]))
          (argumentReports args.length argument.yield.head? ++ argument.reports)
          (more.yield ++ closing.1 :: rest) := by
    refine accept_bind_eq_iff.mpr (Or.inl ⟨comma.1, _, rfl, by simp [comma.2], ?_⟩)
    have hl := furtherArguments_lacks more closing rest
    exact bind_eq_done_iff.mpr
      ⟨_, _, _, [], ha.argument_eq args.length hl, rfl, (List.append_nil _).symm⟩
  have h := repeatFrom_of_some (moreArguments_progresses expression_within) hs
  rw [hm (args ++ [argument.value]) closing rest (by simp)] at h
  simpa using h

theorem isRead_signed (op : TerminalOf isSign) {operand : ExprTree (.expr .unary)}
    (ho : operand.IsRead) : (signed op operand).IsRead := by
  intro rest hr
  change Parse.unary expression (op.1 :: (operand.yield ++ rest)) =
    .done (.unary op.1 operand.value) operand.reports rest
  have hu : op.1.kind.isUnary = true := (isSign_eq op.1.kind).symm.trans op.2
  rw [unary_eq expression_within, dispatch_cons (if_pos hu)]
  exact map_eq_done_iff.mpr ⟨operand.value, ho rest hr, rfl⟩

theorem isRead_unsigned {e : ExprTree (.expr .call)} (he : e.IsRead) : (unsigned e).IsRead := by
  intro rest hr
  change Parse.unary expression (e.yield ++ rest) = .done e.value e.reports rest
  obtain ⟨t, tail, hy, hk⟩ := e.exists_yield_eq_cons
  have hu : t.kind.isUnary = false := by
    simp only [Level.begins, isAtom, Bool.or_eq_true, beq_iff_eq] at hk
    rcases hk with (((((h | h) | h) | h) | h) | h) | h <;> rw [h] <;> rfl
  have hn : ∀ u ∈ (e.yield ++ rest).head?, unaryAfter (Parse.unary expression) u = none := by
    simp [hy, unaryAfter, hu]
  rw [unary_eq expression_within, dispatch_of_none hn]
  exact he rest hr

theorem isRead_noOperations {c : Chain} : (noOperations : ExprTree (.operations c)).IsRead := by
  intro left rest hr
  refine repeatFrom_of_none (moreOperands_progresses c.operand.within) ?_
  exact accept_bind_eq_iff.mpr (Or.inr ⟨hr.mono fun _ => Chain.goesOn_of_isOperator, rfl⟩)

/-- What follows an operand ends it: an operator of its level, or what ends the chain. -/
theorem operations_lacks {c : Chain} (more : ExprTree (.operations c)) {rest : List Token}
    (hr : Lacks (Level.chain c).goesOn rest) : Lacks c.operand.goesOn (more.yield ++ rest) := by
  cases more with
  | noOperations => exact hr.mono fun _ => Chain.goesOn_of_operand
  | moreOperations op right more =>
    exact lacks_cons.mpr (Chain.operand_goesOn_of_isOperator op.2)

theorem isRead_moreOperations {c : Chain} (op : TerminalOf c.isOperator)
    {right : ExprTree (.expr c.operand)} {more : ExprTree (.operations c)} (hr : right.IsRead)
    (hm : more.IsRead) : (moreOperations op right more).IsRead := by
  intro left rest hl
  have hs : moreOperands c.isOperator c.build (c.operand.parser expression) left
      (op.1 :: (right.yield ++ (more.yield ++ rest))) =
        .done (some (c.build left op.1 right.value)) right.reports (more.yield ++ rest) := by
    refine accept_bind_eq_iff.mpr (Or.inl ⟨op.1, _, rfl, op.2, ?_⟩)
    exact bind_eq_done_iff.mpr
      ⟨_, _, _, [], hr _ (operations_lacks more hl), rfl, (List.append_nil _).symm⟩
  have h := repeatFrom_of_some (moreOperands_progresses c.operand.within) hs
  rw [hm _ rest hl] at h
  simpa using h

theorem isRead_chain {c : Chain} {first : ExprTree (.expr c.operand)}
    {more : ExprTree (.operations c)} (hf : first.IsRead) (hm : more.IsRead) :
    (chain first more).IsRead := by
  intro rest hr
  rw [Chain.parser_eq]
  change Parse.chain c.isOperator c.build _ ((first.yield ++ more.yield) ++ rest) =
    .done (more.value.foldl _ first.value) (first.reports ++ more.reports) rest
  rw [List.append_assoc]
  exact bind_eq_done_iff.mpr
    ⟨_, _, _, _, hf _ (operations_lacks more hr), hm first.value rest hr, rfl⟩

/-! ### Assignments -/

theorem isRead_unassigned {e : ExprTree (.expr (.chain .logicOr))} (he : e.IsRead) :
    (unassigned e).IsRead := by
  intro rest hr
  have hl := he rest (hr.mono fun _ => Chain.assignment_goesOn)
  change Parse.assignment expression (e.yield ++ rest) = .done e.value e.reports rest
  refine bind_eq_done_iff.mpr ⟨_, _, _, [], hl, ?_, (List.append_nil _).symm⟩
  refine accept_bind_eq_iff.mpr (Or.inr ⟨hr.mono fun k hk => ?_, rfl⟩)
  simp [Level.goesOn, hk]

theorem assigned_eq (target : Expr) (op : Token) (right : Expr) (ts : List Token) :
    Parse.assigned target op right ts =
      .done (assignedValue target op right) (targetReports target op) ts := by
  cases target <;> rfl

theorem assignment_eq_done {target : ExprTree (.expr (.chain .logicOr))} (ht : target.IsRead)
    {op : Token} (ho : op.kind.isAssignment = true) {ts rest : List Token} {right : Expr}
    {reports : List Report} (hr : rightSide expression op ts = .done right reports rest) :
    assignment expression (target.yield ++ op :: ts) =
      .done (assignedValue target.value op right)
        (target.reports ++ reports ++ targetReports target.value op) rest := by
  have hl := ht (op :: ts) (lacks_cons.mpr (logicOr_goesOn_of_isAssignment ho))
  refine bind_eq_done_iff.mpr ⟨_, _, _, _, hl, ?_, List.append_assoc _ _ _⟩
  refine accept_bind_eq_iff.mpr (Or.inl ⟨op, ts, rfl, ho, ?_⟩)
  exact bind_eq_done_iff.mpr ⟨_, _, _, _, hr, assigned_eq target.value op right rest, rfl⟩

theorem isRead_assigned {target : ExprTree (.expr (.chain .logicOr))} (op : Terminal .equal)
    {right : Expression} (ht : target.IsRead) (hr : right.IsRead) :
    (assigned target op right).IsRead := by
  intro rest hl
  have hs : rightSide expression op.1 (right.yield ++ rest) =
      .done right.value right.reports rest := by
    rw [rightSide, if_pos op.2]
    exact hr.expression_eq hl
  have h := assignment_eq_done ht (by rw [op.2]; rfl) hs
  rwa [← List.cons_append, ← List.append_assoc] at h

theorem isRead_compound {target : ExprTree (.expr (.chain .logicOr))}
    (op : TerminalOf isCompound) {right : ExprTree (.expr (.chain .term))} (ht : target.IsRead)
    (hr : right.IsRead) : (compound target op right).IsRead := by
  intro rest hl
  have hn : op.1.kind ≠ .equal := ne_of_wanted op.2 rfl
  have hs : rightSide expression op.1 (right.yield ++ rest) =
      .done right.value right.reports rest := by
    rw [rightSide, if_neg hn]
    exact hr rest (hl.mono fun _ => Chain.assignment_goesOn)
  have hc : op.1.kind.isCompound = true := (isCompound_eq op.1.kind).symm.trans op.2
  have h := assignment_eq_done ht (by simp [Kind.isAssignment, hc]) hs
  rwa [← List.cons_append, ← List.append_assoc] at h

theorem isRead {form : ExprForm} (d : ExprTree form) : d.IsRead := by
  induction d with
  | atom t => exact isRead_atom t
  | grouping opening _ closing hi => exact isRead_grouping opening closing hi
  | call _ _ hc hm => exact isRead_call hc hm
  | noCalls => exact isRead_noCalls
  | moreCalls opening _ closing _ ha hm => exact isRead_moreCalls opening closing ha hm
  | noArguments => exact isRead_noArguments
  | someArguments _ _ hf hm => exact isRead_someArguments hf hm
  | noFurtherArguments => exact isRead_noFurtherArguments
  | furtherArguments comma _ _ ha hm => exact isRead_furtherArguments comma ha hm
  | signed op _ ho => exact isRead_signed op ho
  | unsigned _ he => exact isRead_unsigned he
  | chain _ _ hf hm => exact isRead_chain hf hm
  | noOperations => exact isRead_noOperations
  | moreOperations op _ _ hr hm => exact isRead_moreOperations op hr hm
  | unassigned _ he => exact isRead_unassigned he
  | assigned _ op _ ht hr => exact isRead_assigned op ht hr
  | compound _ op _ ht hr => exact isRead_compound op ht hr

/-- A whole expression is read up to a token that does not go on with it. -/
theorem expression_yield (d : Expression) {rest : List Token}
    (hr : Lacks Level.assignment.goesOn rest) :
    expression (d.yield ++ rest) = .done d.value d.reports rest :=
  d.isRead.expression_eq hr

end ExprTree

end ScriptFront.Grammar
