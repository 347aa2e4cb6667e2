import ScriptFront.Proofs.Completeness.Expression

/-! # What is read as an expression is one

If a parser of the grammar succeeds, the tokens it has read are those of a derivation, and its
value and its reports are the derivation's. A parser that is defined through itself need only be
sound if the parser it asks for is: the proof is by induction on how often it asks.
-/

namespace ScriptFront.Grammar

open Parse ScriptFront.Parser

/-- What the parser reads is an expression of the level. -/
def Level.Sound (level : Level) (p : Parser Expr) : Prop :=
  Ensures p fun ts e reports rest => ∃ d : ExprTree (.expr level),
    ts = d.yield ++ rest ∧ e = d.value ∧ reports = d.reports

variable {self : Parser Expr} {ts rest : List Token} {reports : List Report}

/-! ### Primary expressions and calls -/

theorem isAtom_of_literal? {t : Token} {e : Expr} (h : literal? t = some e) :
    isAtom t.kind = true ∧ e = atomValue t := by
  have ha : isAtom t.kind = true := by
    unfold literal? at h
    split at h <;> simp_all [isAtom]
  rw [literal?_eq_atomValue ha] at h
  cases h
  exact ⟨ha, rfl⟩

theorem grouping_sound (hs : Level.assignment.Sound self) (opening : Terminal .leftParen)
    {e : Expr} (h : grouping self ts = .done e reports rest) :
    ∃ d : ExprTree (.expr .primary),
      opening.1 :: ts = d.yield ++ rest ∧ e = d.value ∧ reports = d.reports := by
  obtain ⟨_, _, _, _, hi, hc, rfl⟩ := bind_eq_done_iff.mp h
  obtain ⟨inner, rfl, rfl, rfl⟩ := hs hi
  obtain ⟨closing, tail, rfl, hk, hp⟩ := expect_bind_eq_done_iff.mp hc
  obtain ⟨rfl, rfl, rfl⟩ := pure_eq_done_iff.mp hp
  exact ⟨.grouping opening inner ⟨closing, hk⟩, by simp, rfl,
    List.append_nil _⟩

theorem primary_sound (hs : Level.assignment.Sound self) : Level.primary.Sound (primary self) := by
  intro ts e reports rest h
  rcases dispatch_eq_iff.mp h with ⟨t, tail, q, rfl, hq, hr⟩ | ⟨-, hf⟩
  · unfold primaryAfter at hq
    split at hq
    · rename_i hk
      cases hq
      exact grouping_sound hs ⟨t, hk⟩ hr
    · obtain ⟨a, ha, rfl⟩ := Option.map_eq_some_iff.mp hq
      obtain ⟨rfl, rfl, rfl⟩ := pure_eq_done_iff.mp hr
      obtain ⟨hk, rfl⟩ := isAtom_of_literal? ha
      exact ⟨.atom ⟨t, hk⟩, rfl, rfl, rfl⟩
  · cases hf

theorem argument_sound (hs : Level.assignment.Sound self) {count : Nat} {e : Expr}
    (h : argument self count ts = .done e reports rest) :
    ∃ d : Expression, ts = d.yield ++ rest ∧ e = d.value ∧
      reports = argumentReports count d.yield.head? ++ d.reports := by
  obtain ⟨_, _, _, _, hl, he, rfl⟩ := bind_eq_done_iff.mp h
  rw [ExprTree.limitArguments_eq] at hl
  cases hl
  obtain ⟨d, rfl, rfl, rfl⟩ := hs he
  obtain ⟨t, tail, hy, -⟩ := d.exists_yield_eq_cons
  exact ⟨d, rfl, rfl, by simp [hy]⟩

theorem moreArguments_sound (hs : Level.assignment.Sound self) {args more : List Expr}
    (h : Steps (moreArguments self) args ts reports more rest) {count : Nat}
    (hc : args.length = count) :
    ∃ d : ExprTree (.furtherArguments count),
      ts = d.yield ++ rest ∧ more = args ++ d.value ∧ reports = d.reports := by
  induction h generalizing count with
  | refl args ts => exact ⟨.noFurtherArguments, rfl, (List.append_nil _).symm, rfl⟩
  | stop h =>
    rcases accept_bind_eq_iff.mp h with ⟨comma, tail, rfl, hk, hn⟩ | ⟨-, hn⟩
    · obtain ⟨_, _, _, _, -, hp, -⟩ := bind_eq_done_iff.mp hn
      cases hp
    · cases hn
      exact ⟨.noFurtherArguments, rfl, (List.append_nil _).symm, rfl⟩
  | step h _ ih =>
    rcases accept_bind_eq_iff.mp h with ⟨comma, tail, rfl, hk, hn⟩ | ⟨-, hn⟩
    · obtain ⟨_, _, _, _, ha, hp, rfl⟩ := bind_eq_done_iff.mp hn
      obtain ⟨argument, rfl, rfl, rfl⟩ := argument_sound hs ha
      cases hp
      subst hc
      obtain ⟨more, rfl, rfl, rfl⟩ := ih List.length_append
      refine ⟨.furtherArguments ⟨comma, by simpa using hk⟩ argument more, ?_, ?_, ?_⟩
      · simp
      · simp
      · simp
    · cases hn

theorem arguments_sound (hs : Level.assignment.Sound self) {args : List Expr}
    (h : arguments self ts = .done args reports rest) :
    ∃ d : ExprTree .arguments, ts = d.yield ++ rest ∧ args = d.value ∧ reports = d.reports := by
  rcases nextIs_bind_eq_iff.mp h with ⟨t, tail, rfl, -, hn⟩ | ⟨-, hn⟩
  · cases hn
    exact ⟨.noArguments, rfl, rfl, rfl⟩
  · obtain ⟨_, _, _, _, ha, hr, rfl⟩ := bind_eq_done_iff.mp hn
    obtain ⟨first, rfl, rfl, rfl⟩ := argument_sound hs ha
    obtain ⟨more, rfl, rfl, rfl⟩ := moreArguments_sound hs (steps_of_repeatFrom hr) rfl
    exact ⟨.someArguments first more, by simp, rfl, rfl⟩

theorem moreCalls_sound (hs : Level.assignment.Sound self) {callee e : Expr}
    (h : Steps (moreCalls self) callee ts reports e rest) :
    ∃ d : ExprTree .calls, ts = d.yield ++ rest ∧
      e = d.value.foldl (fun e c => .call e c.2 c.1) callee ∧ reports = d.reports := by
  induction h with
  | refl callee ts => exact ⟨.noCalls, rfl, rfl, rfl⟩
  | stop h =>
    rcases accept_bind_eq_iff.mp h with ⟨opening, tail, rfl, hk, hn⟩ | ⟨-, hn⟩
    · obtain ⟨_, _, _, _, -, hp, -⟩ := bind_eq_done_iff.mp hn
      obtain ⟨_, _, rfl, -, hp⟩ := expect_bind_eq_done_iff.mp hp
      cases hp
    · cases hn
      exact ⟨.noCalls, rfl, rfl, rfl⟩
  | step h _ ih =>
    rcases accept_bind_eq_iff.mp h with ⟨opening, tail, rfl, hk, hn⟩ | ⟨-, hn⟩
    · obtain ⟨_, _, _, _, ha, hp, rfl⟩ := bind_eq_done_iff.mp hn
      obtain ⟨args, rfl, rfl, rfl⟩ := arguments_sound hs ha
      obtain ⟨closing, _, rfl, hc, hp⟩ := expect_bind_eq_done_iff.mp hp
      cases hp
      obtain ⟨more, rfl, rfl, rfl⟩ := ih
      refine ⟨.moreCalls ⟨opening, by simpa using hk⟩ args ⟨closing, hc⟩ more, ?_, rfl, ?_⟩
      · simp
      · simp
    · cases hn

theorem call_sound (hs : Level.assignment.Sound self) : Level.call.Sound (call self) := by
  intro ts e reports rest h
  obtain ⟨_, _, _, _, hp, hr, rfl⟩ := bind_eq_done_iff.mp h
  obtain ⟨callee, rfl, rfl, rfl⟩ := primary_sound hs hp
  obtain ⟨more, rfl, rfl, rfl⟩ := moreCalls_sound hs (steps_of_repeatFrom hr)
  exact ⟨.call callee more, by simp, rfl, rfl⟩

/-! ### Operators -/

theorem unary_sound (hs : Level.assignment.Sound self) : Level.unary.Sound (unary self) := by
  refine Ensures.fixed ?_
  intro inner hi ts e reports rest h
  rcases dispatch_eq_iff.mp h with ⟨op, tail, q, rfl, hq, hr⟩ | ⟨-, hc⟩
  · unfold unaryAfter at hq
    split at hq
    · rename_i hk
      cases hq
      obtain ⟨_, he, rfl⟩ := map_eq_done_iff.mp hr
      obtain ⟨operand, rfl, rfl, rfl⟩ := hi he
      exact ⟨.signed ⟨op, (isSign_eq op.kind).trans hk⟩ operand, rfl, rfl, rfl⟩
    · cases hq
  · obtain ⟨e, rfl, rfl, rfl⟩ := call_sound hs hc
    exact ⟨.unsigned e, rfl, rfl, rfl⟩

theorem moreOperands_sound {c : Chain} {operand : Parser Expr} (ho : c.operand.Sound operand)
    {left e : Expr} (h : Steps (moreOperands c.isOperator c.build operand) left ts reports e rest) :
    ∃ d : ExprTree (.operations c), ts = d.yield ++ rest ∧
      e = d.value.foldl (fun left o => c.build left o.1 o.2) left ∧ reports = d.reports := by
  induction h with
  | refl left ts => exact ⟨.noOperations, rfl, rfl, rfl⟩
  | stop h =>
    rcases accept_bind_eq_iff.mp h with ⟨op, tail, rfl, hk, hn⟩ | ⟨-, hn⟩
    · obtain ⟨_, _, _, _, -, hp, -⟩ := bind_eq_done_iff.mp hn
      cases hp
    · cases hn
      exact ⟨.noOperations, rfl, rfl, rfl⟩
  | step h _ ih =>
    rcases accept_bind_eq_iff.mp h with ⟨op, tail, rfl, hk, hn⟩ | ⟨-, hn⟩
    · obtain ⟨_, _, _, _, hr, hp, rfl⟩ := bind_eq_done_iff.mp hn
      obtain ⟨right, rfl, rfl, rfl⟩ := ho hr
      cases hp
      obtain ⟨more, rfl, rfl, rfl⟩ := ih
      refine ⟨.moreOperations ⟨op, hk⟩ right more, ?_, rfl, ?_⟩
      · simp
      · simp
    · cases hn

theorem chain_sound {c : Chain} {operand : Parser Expr} (ho : c.operand.Sound operand) :
    (Level.chain c).Sound (Parse.chain c.isOperator c.build operand) := by
  intro ts e reports rest h
  obtain ⟨_, _, _, _, hf, hr, rfl⟩ := bind_eq_done_iff.mp h
  obtain ⟨first, rfl, rfl, rfl⟩ := ho hf
  obtain ⟨more, rfl, rfl, rfl⟩ := moreOperands_sound ho (steps_of_repeatFrom hr)
  exact ⟨.chain first more, by simp, rfl, rfl⟩

theorem term_sound (hs : Level.assignment.Sound self) : (Level.chain .term).Sound (term self) :=
  chain_sound (c := .term) (chain_sound (c := .factor) (unary_sound hs))

theorem logicOr_sound (hs : Level.assignment.Sound self) :
    (Level.chain .logicOr).Sound (logicOr self) := by
  have hc : (Level.chain .comparison).Sound (comparison self) :=
    chain_sound (c := .comparison) (term_sound hs)
  have he : (Level.chain .equality).Sound (equality self) := chain_sound (c := .equality) hc
  have ha : (Level.chain .logicAnd).Sound (logicAnd self) := chain_sound (c := .logicAnd) he
  exact chain_sound (c := .logicOr) ha

theorem assignment_sound (hs : Level.assignment.Sound self) :
    Level.assignment.Sound (assignment self) := by
  intro ts e reports rest h
  obtain ⟨_, _, _, _, ht, hr, rfl⟩ := bind_eq_done_iff.mp h
  obtain ⟨target, rfl, rfl, rfl⟩ := logicOr_sound hs ht
  rcases accept_bind_eq_iff.mp hr with ⟨op, tail, rfl, hk, hn⟩ | ⟨-, hn⟩
  · obtain ⟨_, _, _, _, hright, ha, rfl⟩ := bind_eq_done_iff.mp hn
    rw [ExprTree.assigned_eq] at ha
    cases ha
    unfold rightSide at hright
    split at hright
    · rename_i heq
      obtain ⟨right, rfl, rfl, rfl⟩ := hs hright
      exact ⟨.assigned target ⟨op, heq⟩ right, by simp, rfl,
        (List.append_assoc ..).symm⟩
    · rename_i hne
      have hc : op.kind.isCompound = true := by simpa [Kind.isAssignment, hne] using hk
      obtain ⟨right, rfl, rfl, rfl⟩ := term_sound hs hright
      exact ⟨.compound target ⟨op, (isCompound_eq op.kind).trans hc⟩ right, by simp, rfl,
        (List.append_assoc ..).symm⟩
  · cases hn
    exact ⟨.unassigned target, rfl, rfl, List.append_nil _⟩

theorem expression_sound : Level.assignment.Sound expression :=
  Ensures.fixed fun _ => assignment_sound

end ScriptFront.Grammar
