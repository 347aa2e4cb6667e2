import ScriptFront.Proofs.Slice.Expression

/-! # Statements and declarations by index -/

namespace ScriptFront.Slice

open Parse

variable {α β : Type} {c : Input} {n : Nat} {t : Token} {rest : List Token}
  {here : List Token → Prop} {reported : List Diagnostic}

theorem expressionStatement_refines :
    Refines c n anywhere expressionStatement Parse.expressionStatement :=
  assignment_refines.bind fun _ => (Refines.consume _ _).bind fun _ => .pure _

theorem variableDeclaration_refines :
    Refines c n anywhere variableDeclaration Parse.variableDeclaration := by
  have hi : Refines c n anywhere initialValue Parse.initialValue := by
    cases n with
    | zero => exact .zero
    | succ n => exact .accept (fun _ _ => assignment_refines.weaken.map some) (.pure none)
  exact (Refines.consume _ _).bind fun _ => hi.bind fun _ =>
    (Refines.consume _ _).bind fun _ => .pure _

theorem printStatement_refines :
    Refines c n (justAfter c t) printStatement (Parse.printStatement t) :=
  .previous (assignment_refines.weaken.bind fun _ => (Refines.consume _ _).bind fun _ => .pure _)

theorem breakStatement_refines :
    Refines c n (justAfter c t) (fun _ => breakStatement) (Parse.breakStatement t) :=
  .previous ((Refines.consume _ _).bind fun _ => .pure _)

theorem expressionUnless_refines (stop : Kind) :
    Refines c n here (expressionUnless · stop) (Parse.expressionUnless stop) :=
  .nextIs (.pure none) (assignment_refines.weaken.map some)

theorem returnStatement_refines :
    Refines c n (justAfter c t) returnStatement (Parse.returnStatement t) :=
  .previous ((expressionUnless_refines _).bind fun _ => (Refines.consume _ _).bind fun _ => .pure _)

theorem initializer_refines : Refines c n anywhere initializer Parse.initializer := by
  cases n with
  | zero => exact .zero
  | succ n =>
    have hv : Refines c n anywhere _ _ := variableDeclaration_refines.map some
    have he : Refines c (n + 1) anywhere _ _ := expressionStatement_refines.map some
    refine .of_choices (.choice ?_ (.choice ?_ (.noChoice ?_ he)))
    · intro t ht
      exact ⟨_, by simp_all [initializerAfter], .pure none⟩
    · intro t ht
      exact ⟨_, by simp_all [initializerAfter], hv.weaken⟩
    · intro t ht
      simp_all [initializerAfter]

/-! ### Parameters -/

theorem furtherParameters_eq (params : List Token) :
    Parser.repeatFrom moreParameters params = (do
      match ← Parser.accept (· == .comma) with
      | none => pure params
      | some _ =>
        if ← Parser.nextIs .rightParen then pure params
        else
          let param ← Parser.expect .identifier .parameterName
          if mostParameters ≤ params.length then
            Parser.report (some param) .tooManyParameters
            Parser.repeatFrom moreParameters params
          else Parser.repeatFrom moreParameters (params ++ [param])) := by
  refine (moreParameters_progresses.repeatFrom_eq params).trans ?_
  rw [moreParameters, bind_assoc]
  congr
  funext comma
  cases comma with
  | none => simp
  | some comma =>
    rw [nextParameter, bind_assoc]
    congr
    funext b
    cases b with
    | true => simp
    | false =>
      simp only [Bool.false_eq_true, if_false, bind_assoc]
      congr
      funext param
      split <;> simp

theorem parameterLoop_refines (params : List Token) :
    Refines c n anywhere (parameterLoop · params) (Parser.repeatFrom moreParameters params) := by
  induction n generalizing params with
  | zero => exact .zero
  | succ n ih =>
    rw [furtherParameters_eq]
    refine .deeper (fun _ => by rw [parameterLoop]) ?_
    refine .accept (fun _ _ => Refines.weaken (.nextIs (.pure params) ?_)) (.pure params)
    refine (Refines.consume _ _).bind fun param => ?_
    split
    · exact (report_refines param _).bind fun _ => ih params
    · exact ih (params ++ [param])

theorem firstParameter_refines :
    Refines c n anywhere (fun _ => firstParameter)
      (Option.toList <$> Parser.accept (· == .identifier)) := by
  intro rest reported hs hn _
  rw [← bind_pure_comp]
  by_cases hl : Parser.Lacks (· == .identifier) rest
  · have hb : rest.head?.any (·.kind == .identifier) = false := by
      cases rest with
      | nil => rfl
      | cons t rest => simpa using hl
    rw [Parser.accept_bind_of_lacks hl]
    refine ⟨.of_eq ?_, List.suffix_refl rest⟩
    rw [firstParameter, bind_ok (lift_ok (nextIs_state _ hs)), hb, if_neg Bool.false_ne_true]
    exact pure_state []
  · cases rest with
    | nil => exact absurd (Parser.lacks_nil _) hl
    | cons t rest =>
      have hk : (t.kind == .identifier) = true := by simpa using hl
      have hb : (t :: rest).head?.any (·.kind == .identifier) = true := hk
      rw [Parser.accept_bind_cons hk]
      refine ⟨.of_eq ?_, List.suffix_cons t rest⟩
      rw [firstParameter, bind_ok (lift_ok (nextIs_state _ hs)), hb, if_pos rfl,
        bind_ok (lift_ok (advance_state hs))]
      exact pure_state [t]

theorem parameters_refines : Refines c n anywhere parameters Parse.parameters := by
  have h := (firstParameter_refines (c := c) (n := n)).bind parameterLoop_refines
  rw [← bind_pure_comp, bind_assoc] at h
  simp only [pure_bind] at h
  exact h

/-! ### Declarations -/

theorem skip_ends (h : t :: rest <:+ c.body) :
    Ends skip (c.state rest reported) ((), c.state (resume (t :: rest)) reported) := by
  induction rest generalizing t with
  | nil =>
    have hr : resume [t] = [] := by simp [resume]
    refine .succ (fun _ => by rw [skip]) (.run_bind (.of_eq (isAtEnd_state List.nil_suffix)) ?_)
    rw [hr]
    exact .of_eq rfl
  | cons u rest ih =>
    have hs : u :: rest <:+ c.body := (List.suffix_cons t _).trans h
    refine .succ (fun _ => by rw [skip]) (.run_bind (.of_eq (isAtEnd_state hs)) ?_)
    refine .run_bind (.of_eq (previous_state h)) ?_
    by_cases ht : t.kind = .semicolon
    · have hr : resume (t :: u :: rest) = u :: rest := by simp [resume, ht]
      simp only [if_pos ht, hr]
      exact .of_eq rfl
    · simp only [if_neg ht]
      refine .run_bind (.of_eq (peek_state hs)) ?_
      cases hu : u.kind.startsDeclaration with
      | true =>
        have hr : resume (t :: u :: rest) = u :: rest := by
          rw [resume, if_pos (by simp [hu])]
        simp only [List.head?_cons, Option.getD_some, hu, if_true, hr]
        exact .of_eq rfl
      | false =>
        have hr : resume (t :: u :: rest) = resume (u :: rest) := by
          rw [resume, if_neg (by simp [ht, hu])]
        simp only [List.head?_cons, Option.getD_some, hu, Bool.false_eq_true, if_false, hr]
        exact .run_bind (.of_eq (advance_state hs)) (ih hs)

theorem synchronize_ends (h : rest <:+ c.body) (hb : c.body ≠ []) :
    Ends synchronize (c.state rest reported) ((), c.state (resume rest) reported) := by
  cases rest with
  | nil =>
    -- Nothing is left to drop, but a token has been read before.
    have hl : [c.body.getLast hb] <:+ c.body := ⟨_, List.dropLast_concat_getLast hb⟩
    have ha : advance (c.state [] reported) = some (c.body.getLast hb, c.state [] reported) := by
      rw [advance, run_bind (isAtEnd_state h)]
      exact previous_state hl
    have hr : resume [c.body.getLast hb] = resume [] := by simp [resume]
    rw [← hr]
    exact .run_bind (.of_eq ha) (skip_ends hl)
  | cons t rest => exact .run_bind (.of_eq (advance_state h)) (skip_ends h)

def notAtEnd : List Token → Prop := (· ≠ [])

theorem recovering_refines {m : Nat → Attempt α} {p : Parser α} (h : Refines c n notAtEnd m p) :
    Refines c n notAtEnd (fun k => liftM (recovering k (m k))) (Parse.recovering p) := by
  intro rest reported hs hn hr
  have hb : c.body ≠ [] := by
    intro hb
    rw [hb, List.suffix_nil] at hs
    exact hr hs
  obtain ⟨he, hw⟩ := h rest reported hs hn hr
  change Ends (fun k => ExceptT.run (m k)) _ _ at he
  cases hp : p rest with
  | done a reports left =>
    rw [hp] at he hw
    rw [Parse.recovering, hp]
    exact ⟨.lift (.run_bind he (.of_eq rfl)), hw⟩
  | failed missing reports left =>
    rw [hp] at he hw
    change left <:+ rest at hw
    rw [Parse.recovering, hp]
    refine ⟨.lift (.run_bind he (.run_bind (synchronize_ends (hw.trans hs) hb) ?_)),
      (resume_isSuffix left).trans hw⟩
    rw [List.map_append, ← List.append_assoc]
    exact .of_eq rfl

/-- A body is read one declaration at a time. The induction is on the number of tokens left, which
a declaration makes smaller. -/
theorem declarationLoop_refines {stop : Run Bool} {isEnd : Option Kind → Bool}
    (hend : isEnd none = true)
    (hstop : ∀ rest reported, rest <:+ c.body → stop (c.state rest reported) =
      some (isEnd (rest.head?.map Token.kind), c.state rest reported))
    (hd : Refines c n notAtEnd (fun k => liftM (declaration k)) Parse.declaration)
    (stmts : List Stmt) :
    Refines c n anywhere (fun k => liftM (declarationLoop k stop stmts))
      (Parser.repeatFrom (moreDeclarations isEnd Parse.declaration) stmts) := by
  have hp : Parser.Progresses (moreDeclarations isEnd Parse.declaration) :=
    moreDeclarations_progresses hend declaration_advances
  induction n generalizing stmts with
  | zero => exact .zero
  | succ n ih =>
    have heq (k : Nat) : (liftM (declarationLoop (k + 1) stop stmts) : Attempt (List Stmt)) = (do
        if ← stop then return stmts
        else
          let d ← liftM (declaration k)
          liftM (declarationLoop k stop (stmts ++ d.toList))) := by
      rw [declarationLoop, lift_bind]
      congr
      funext b
      cases b with
      | true => rfl
      | false => exact lift_bind _ _
    refine .deeper heq ?_
    intro rest reported hs hn _
    have hb (k : Nat) := bind_ok (f := fun b => if b = true then pure stmts else do
      let d ← liftM (declaration k)
      liftM (declarationLoop k stop (stmts ++ d.toList))) (lift_ok (hstop rest reported hs))
    cases he : isEnd (rest.head?.map Token.kind) with
    | true =>
      have hm : moreDeclarations isEnd Parse.declaration stmts rest = .done none [] rest := by
        rw [moreDeclarations, Parser.peek_bind, he]
        rfl
      rw [he] at hb
      rw [Parser.repeatFrom_of_none hp hm]
      exact ⟨.congr hb (.of_eq (pure_state stmts)), List.suffix_refl rest⟩
    | false =>
      have hr : notAtEnd rest := by
        rintro rfl
        rw [List.head?_nil, Option.map_none, hend] at he
        cases he
      obtain ⟨d, reports, left, hq⟩ := exists_declaration_eq_done rest
      have hlt : left.length < rest.length := by
        cases rest with
        | nil => exact absurd rfl hr
        | cons t rest =>
          have h := declaration_length_lt t rest
          rwa [hq] at h
      have hm : moreDeclarations isEnd Parse.declaration stmts rest =
          .done (some (stmts ++ d.toList)) reports left := by
        rw [moreDeclarations, Parser.peek_bind, he, if_neg Bool.false_ne_true,
          Parser.bind_of_done hq]
        exact congrArg (Reply.done _ · left) (List.append_nil reports)
      obtain ⟨hx, hw⟩ := hd rest reported hs hn hr
      rw [hq] at hx hw
      obtain ⟨hx', hw'⟩ := ih hd.succ (stmts ++ d.toList) left
        (reported ++ reports.map (·.diagnostic c.ending)) (hw.trans hs) (by omega) trivial
      rw [he] at hb
      rw [Parser.repeatFrom_of_some hp hm, result_after, Reply.rest_after]
      exact ⟨.congr hb (.bind hx hx'), hw'.trans hw⟩

theorem endsBlock_state (h : rest <:+ c.body) :
    endsBlock (c.state rest reported) =
      some (Parse.endsBlock (rest.head?.map Token.kind), c.state rest reported) := by
  rw [endsBlock, run_bind (nextIs_state _ h)]
  cases rest with
  | nil => exact isAtEnd_state h
  | cons t rest =>
    by_cases hk : t.kind = .rightBrace
    · have hb : (t :: rest).head?.any (·.kind == .rightBrace) = true := by simp [hk]
      have he : Parse.endsBlock ((t :: rest).head?.map Token.kind) = true := by
        simp [hk, Parse.endsBlock]
      rw [hb, he]
      rfl
    · have hb : (t :: rest).head?.any (·.kind == .rightBrace) = false := by simp [hk]
      rw [hb, if_neg Bool.false_ne_true, isAtEnd_state h]
      simp [hk, Parse.endsBlock]

section

variable (hd : Refines c n notAtEnd (fun k => liftM (declaration k)) Parse.declaration)

include hd

theorem block_refines : Refines c n anywhere block (blockOf Parse.declaration) := by
  have hl := declarationLoop_refines rfl (fun _ _ h => endsBlock_state h) hd []
  refine .deeper (fun _ => by rw [block]) ?_
  exact hl.bind fun _ => (Refines.consume _ _).bind fun _ => .pure _

theorem function_refines :
    Refines c n anywhere function (functionDeclaration Parse.declaration) := by
  refine .deeper (fun _ => by rw [function]) ?_
  exact (Refines.consume _ _).bind fun _ => (Refines.consume _ _).bind fun _ =>
    parameters_refines.bind fun _ => (Refines.consume _ _).bind fun _ =>
    (Refines.consume _ _).bind fun _ => (block_refines hd).bind fun _ => .pure _

end

/-! ### Statements -/

section

variable (h : Refines c n anywhere statement Parse.statement)

include h

theorem whileStatement_refines :
    Refines c n (justAfter c t) whileStatement (Parse.whileStatement Parse.statement t) := by
  refine .deeper (fun _ => by rw [whileStatement]) (.previous ?_)
  exact (Refines.consume _ _).bind fun _ => assignment_refines.bind fun _ =>
    (Refines.consume _ _).bind fun _ => h.bind fun _ => .pure _

theorem alternative_refines :
    Refines c n anywhere alternative (Parse.alternative Parse.statement) := by
  refine .deeper (fun _ => by rw [alternative]) ?_
  cases n with
  | zero => exact .zero
  | succ n => exact .accept (fun _ _ => h.succ.weaken.map some) (.pure none)

theorem ifStatement_refines :
    Refines c n (justAfter c t) ifStatement (Parse.ifStatement Parse.statement t) := by
  refine .deeper (fun _ => by rw [ifStatement]) (.previous ?_)
  exact (Refines.consume _ _).bind fun _ => assignment_refines.bind fun _ =>
    (Refines.consume _ _).bind fun _ => h.bind fun _ =>
    (alternative_refines h).bind fun _ => .pure _

theorem forStatement_refines :
    Refines c n (justAfter c t) forStatement (Parse.forStatement Parse.statement t) := by
  refine .deeper (fun _ => by rw [forStatement]) (.previous ?_)
  exact (Refines.consume _ _).bind fun _ => initializer_refines.bind fun _ =>
    (expressionUnless_refines _).bind fun _ => (Refines.consume _ _).bind fun _ =>
    (expressionUnless_refines _).bind fun _ => (Refines.consume _ _).bind fun _ =>
    h.bind fun _ => .pure _

end

theorem statement_refines_succ (h : Refines c n anywhere statement Parse.statement)
    (hd : Refines c n notAtEnd (fun k => liftM (declaration k)) Parse.declaration) :
    Refines c (n + 1) anywhere statement Parse.statement := by
  rw [statement_eq, statementBody]
  refine .deeper (fun _ => by rw [statement]) ?_
  refine .of_choices (.choice ?_ (.choice ?_ (.choice ?_ (.choice ?_ (.choice ?_ (.choice ?_
    (.choice ?_ (.noChoice ?_ expressionStatement_refines))))))))
  · intro t ht
    exact ⟨_, by simp_all [statementAfter], forStatement_refines h⟩
  · intro t ht
    exact ⟨_, by simp_all [statementAfter], ifStatement_refines h⟩
  · intro t ht
    exact ⟨_, by simp_all [statementAfter], printStatement_refines⟩
  · intro t ht
    exact ⟨_, by simp_all [statementAfter], breakStatement_refines⟩
  · intro t ht
    exact ⟨_, by simp_all [statementAfter], returnStatement_refines⟩
  · intro t ht
    exact ⟨_, by simp_all [statementAfter], whileStatement_refines h⟩
  · intro t ht
    have hk : t.kind = .leftBrace := by simpa using ht
    have hq : statementAfter Parse.statement t =
        some (Stmt.block t <$> blockOf Parse.declaration) := by
      simp only [statementAfter, hk]
      rfl
    refine ⟨_, hq, .previous (Refines.weaken ?_)⟩
    exact (block_refines hd).bind fun _ => .pure _
  · intro t ht
    simp_all [statementAfter]

/-- A declaration up to where it misses something, if the statement it may be and the declarations
in it are read. -/
theorem declarationBody_refines_succ (h : Refines c (n + 1) anywhere statement Parse.statement)
    (hd : Refines c n notAtEnd (fun k => liftM (declaration k)) Parse.declaration) :
    Refines c (n + 1) anywhere declarationBody
      (Parse.declarationBody Parse.statement Parse.declaration) := by
  refine .of_choices (.choice ?_ (.choice ?_ (.noChoice ?_ h)))
  · intro t ht
    exact ⟨_, by simp_all [declarationAfter], (function_refines hd).weaken⟩
  · intro t ht
    exact ⟨_, by simp_all [declarationAfter], variableDeclaration_refines.weaken⟩
  · intro t ht
    simp_all [declarationAfter]

theorem declaration_refines_succ (h : Refines c (n + 1) anywhere statement Parse.statement)
    (hd : Refines c n notAtEnd (fun k => liftM (declaration k)) Parse.declaration) :
    Refines c (n + 1) notAtEnd (fun k => liftM (declaration k)) Parse.declaration := by
  have hb := recovering_refines (declarationBody_refines_succ h hd).weaken
  rw [declaration_eq]
  exact .deeper (fun k => by rw [declaration_succ]) hb

theorem statement_and_declaration_refine (n : Nat) :
    Refines c n anywhere statement Parse.statement ∧
      Refines c n notAtEnd (fun k => liftM (declaration k)) Parse.declaration := by
  induction n with
  | zero => exact ⟨.zero, .zero⟩
  | succ n ih =>
    obtain ⟨hs, hd⟩ := ih
    have hs' := statement_refines_succ hs hd
    exact ⟨hs', declaration_refines_succ hs' hd⟩

theorem declarationBody_refines (n : Nat) :
    Refines c n anywhere declarationBody
      (Parse.declarationBody Parse.statement Parse.declaration) := by
  cases n with
  | zero => exact .zero
  | succ n =>
    exact declarationBody_refines_succ (statement_and_declaration_refine (n + 1)).1
      (statement_and_declaration_refine n).2

end ScriptFront.Slice
