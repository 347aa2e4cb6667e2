import ScriptFront.Proofs.Order.Expression
import ScriptFront.Proofs.Recovery.Spans
import ScriptFront.Proofs.Slice.Refinement

/-! # Programs report in order

Parsing reports structural problems at different tokens, one after the other. All problems but bad
targets are reported in the order of the tokens they are at. Once a problem at the end of the input
has been reported, there are only such problems left.
-/

namespace ScriptFront

open Parse ScriptFront.Parser

namespace Parse

/-! ### Statements -/

theorem expressionStatement_inOrder : InOrder expressionStatement :=
  expression_inOrder.bind fun _ => (InOrder.expect _ _).bind fun _ => .pure _

theorem initialValue_inOrder : InOrder initialValue := by
  refine (InOrder.accept _).bind fun t => ?_
  cases t with
  | none => exact .pure none
  | some t => exact expression_inOrder.map some

theorem variableDeclaration_inOrder : InOrder variableDeclaration :=
  (InOrder.expect _ _).bind fun _ => initialValue_inOrder.bind fun _ =>
    (InOrder.expect _ _).bind fun _ => .pure _

theorem expressionUnless_inOrder (stop : Kind) : InOrder (expressionUnless stop) := by
  refine (InOrder.nextIs _).bind fun b => ?_
  cases b with
  | true => exact .pure none
  | false => exact expression_inOrder.map some

theorem initializer_inOrder : InOrder initializer := by
  refine .dispatch (fun t q hq => ?_) (expressionStatement_inOrder.map some)
  unfold initializerAfter at hq
  split at hq
  · cases hq
    exact .pure none
  · cases hq
    exact variableDeclaration_inOrder.map some
  · cases hq

theorem nextParameter_inOrder (params : List Token) : InOrder (nextParameter params) := by
  refine (InOrder.nextIs _).bind fun b => ?_
  cases b with
  | true => exact .pure none
  | false =>
    refine .expect_bind fun param => ?_
    split
    · exact (InOrderAfter.report param (by simp)).bind fun _ => .pure _
    · exact (InOrder.pure _).after param

theorem parameters_inOrder : InOrder parameters := by
  refine (InOrder.accept _).bind fun first => .repeatFrom (fun params => ?_) _
  refine (InOrder.accept _).bind fun t => ?_
  cases t with
  | none => exact .pure none
  | some t => exact nextParameter_inOrder params

theorem declarations_inOrder (isEnd : Option Kind → Bool) {d : Parser (Option Stmt)}
    (h : InOrder d) : InOrder (declarations isEnd d) := by
  refine .repeatFrom (fun body => ?_) []
  refine InOrder.peek.bind fun t => ?_
  split
  · exact .pure none
  · exact h.bind fun _ => .pure _

theorem blockOf_inOrder {d : Parser (Option Stmt)} (h : InOrder d) : InOrder (blockOf d) :=
  (declarations_inOrder _ h).bind fun _ => (InOrder.expect _ _).bind fun _ => .pure _

theorem functionDeclaration_inOrder {d : Parser (Option Stmt)} (h : InOrder d) :
    InOrder (functionDeclaration d) :=
  (InOrder.expect _ _).bind fun _ => (InOrder.expect _ _).bind fun _ =>
    parameters_inOrder.bind fun _ => (InOrder.expect _ _).bind fun _ =>
      (InOrder.expect _ _).bind fun _ => (blockOf_inOrder h).bind fun _ => .pure _

section Statements

variable {self : Parser Stmt} (h : InOrder self)

include h

theorem declarationOf_inOrder : InOrder (declarationOf self) := by
  refine .fixed fun d hd => .recovering (.dispatch (fun t q hq => ?_) h)
  unfold declarationAfter at hq
  split at hq
  · cases hq
    exact functionDeclaration_inOrder hd
  · cases hq
    exact variableDeclaration_inOrder
  · cases hq

theorem whileStatement_inOrder (keyword : Token) : InOrder (whileStatement self keyword) :=
  (InOrder.expect _ _).bind fun _ => expression_inOrder.bind fun _ =>
    (InOrder.expect _ _).bind fun _ => h.bind fun _ => .pure _

theorem alternative_inOrder : InOrder (alternative self) := by
  refine (InOrder.accept _).bind fun t => ?_
  cases t with
  | none => exact .pure none
  | some t => exact h.map some

theorem ifStatement_inOrder (keyword : Token) : InOrder (ifStatement self keyword) :=
  (InOrder.expect _ _).bind fun _ => expression_inOrder.bind fun _ =>
    (InOrder.expect _ _).bind fun _ => h.bind fun _ =>
      (alternative_inOrder h).bind fun _ => .pure _

theorem forStatement_inOrder (keyword : Token) : InOrder (forStatement self keyword) :=
  (InOrder.expect _ _).bind fun _ => initializer_inOrder.bind fun _ =>
    (expressionUnless_inOrder _).bind fun _ => (InOrder.expect _ _).bind fun _ =>
      (expressionUnless_inOrder _).bind fun _ => (InOrder.expect _ _).bind fun _ =>
        h.bind fun _ => .pure _

theorem statementAfter_inOrder {t : Token} {q : Parser Stmt} (hq : statementAfter self t = some q) :
    InOrder q := by
  unfold statementAfter at hq
  split at hq <;> cases hq
  · exact forStatement_inOrder h t
  · exact ifStatement_inOrder h t
  · exact expression_inOrder.bind fun _ => (InOrder.expect _ _).bind fun _ => .pure _
  · exact (InOrder.expect _ _).bind fun _ => .pure _
  · exact (expressionUnless_inOrder _).bind fun _ => (InOrder.expect _ _).bind fun _ => .pure _
  · exact whileStatement_inOrder h t
  · exact (blockOf_inOrder (declarationOf_inOrder h)).map _

end Statements

theorem statement_inOrder : InOrder statement :=
  .fixed fun _ h => .dispatch (fun _ _ => statementAfter_inOrder h) expressionStatement_inOrder

theorem program_inOrder : InOrder program :=
  declarations_inOrder _ (declarationOf_inOrder statement_inOrder)

end Parse

/-! ### The diagnostics of a list of tokens -/

namespace Diagnostic

def atEnd (d : Diagnostic) : Bool := d.place == .endOfInput

theorem atEnd_atToken (t : Token) (problem : Problem) :
    (atToken t problem).atEnd = decide (t.kind = .eof) := by
  by_cases h : t.kind = .eof <;> simp [atEnd, atToken, h]

end Diagnostic

structure Placed where
  diagnostic : Diagnostic
  index : Nat

namespace Placed

/-- A structural problem that is not at the end of the input. -/
def blames (p : Placed) : Bool := p.diagnostic.problem.isStructural && !p.diagnostic.atEnd

def onTheWay (p : Placed) : Bool := p.diagnostic.problem != .invalidAssignmentTarget

/-- The diagnostic is at the token with the index, which stands before the first end of input, or it
is at the end of the input. -/
structure IsIn (p : Placed) (ts : List Token) : Prop where
  token : p.diagnostic.atEnd = false → p.index < ts.findIdx Cursor.isEnding ∧
    ∃ t, ts[p.index]? = some t ∧ p.diagnostic = .atToken t p.diagnostic.problem
  ending : p.diagnostic.atEnd = true → p.index = ts.findIdx Cursor.isEnding ∧
    p.diagnostic = .atToken (Cursor.ofTokens ts).ending p.diagnostic.problem

end Placed

/-- The diagnostics follow each other as the tokens of `ts` do. -/
structure InSourceOrder (ts : List Token) (placed : List Placed) : Prop where
  isIn : ∀ p ∈ placed, p.IsIn ts
  /-- No token is blamed twice, and none after a later one. -/
  blames : (placed.filter Placed.blames).Pairwise fun p q => p.index < q.index
  onTheWay : (placed.filter Placed.onTheWay).Pairwise fun p q => p.index ≤ q.index
  /-- After a diagnostic at the end of the input there are only such diagnostics. -/
  ending : placed.Pairwise fun p q => p.diagnostic.atEnd = true → q.diagnostic.atEnd = true

namespace Cursor

theorem rest_ofTokens (ts : List Token) :
    (ofTokens ts).rest = ts.take (ts.findIdx isEnding) := by
  have h : ts.takeWhile (!isEnding ·) = ts.take (ts.findIdx fun t => !!isEnding t) :=
    List.takeWhile_eq_take_findIdx_not
  simp only [Bool.not_not] at h
  exact h

theorem length_rest_ofTokens (ts : List Token) :
    (ofTokens ts).rest.length = ts.findIdx isEnding := by
  rw [rest_ofTokens, List.length_take]
  exact Nat.min_eq_left List.findIdx_le_length

theorem getElem?_of_suffix_rest {ts place : List Token} {t : Token}
    (h : t :: place <:+ (ofTokens ts).rest) :
    ts[(ofTokens ts).rest.length - (t :: place).length]? = some t := by
  let n := (ofTokens ts).rest.length - (t :: place).length
  let beyond := ts.drop (ts.findIdx isEnding)
  have hts : (ofTokens ts).rest ++ beyond = ts := by
    rw [rest_ofTokens]
    exact List.take_append_drop _ ts
  calc
    ts[n]? = ((ofTokens ts).rest ++ beyond)[n]? := by rw [hts]
    _ = (t :: place ++ beyond).head? := Slice.getElem?_length_sub_length h
    _ = some t := rfl

theorem diagnostics_parse_eq (c : Cursor) :
    c.parse.diagnostics = c.located (program c.rest).reports := by
  rw [parse]
  cases program c.rest <;> rfl

end Cursor

namespace Mark

variable {ts : List Token} {m m' : Mark}

/-- The diagnostic of a report in `ts`, with the index of its place. -/
def placed (ts : List Token) (m : Mark) : Placed where
  diagnostic := m.report.diagnostic (Cursor.ofTokens ts).ending
  index := (Cursor.ofTokens ts).rest.length - m.place.length

theorem diagnostic_placed (ts : List Token) (m : Mark) : (m.placed ts).diagnostic =
    .atToken (m.place.head?.getD (Cursor.ofTokens ts).ending) m.report.problem := by
  rw [← m.site_eq]
  rfl

theorem atEnd_placed (hm : m.place <:+ (Cursor.ofTokens ts).rest) :
    (m.placed ts).diagnostic.atEnd = m.place.isEmpty := by
  rw [diagnostic_placed, Diagnostic.atEnd_atToken]
  cases hp : m.place with
  | nil => simp [Cursor.kind_ending_ofTokens]
  | cons t place =>
    rw [hp] at hm
    have ht : t.kind ≠ .eof := withoutEnd_rest ts t (hm.mem List.mem_cons_self)
    simp [ht]

theorem isIn_placed (hm : m.place <:+ (Cursor.ofTokens ts).rest) : (m.placed ts).IsIn ts := by
  have hd := m.diagnostic_placed ts
  have hend := atEnd_placed hm
  have hl := Cursor.length_rest_ofTokens ts
  cases hp : m.place with
  | nil =>
    rw [hp] at hd hend
    refine ⟨fun h => ?_, fun _ => ⟨?_, hd⟩⟩
    · rw [hend] at h
      cases h
    · rw [placed, hp]
      exact hl
  | cons t place =>
    rw [hp] at hm hd hend
    refine ⟨fun _ => ⟨?_, t, ?_, hd⟩, fun h => ?_⟩
    · have hle := hm.length_le
      rw [List.length_cons] at hle
      simp only [placed, hp, List.length_cons]
      omega
    · rw [placed, hp]
      exact Cursor.getElem?_of_suffix_rest hm
    · rw [hend] at h
      cases h

theorem onTheWay_placed : (m.placed ts).onTheWay = true ↔ m.OnTheWay := by
  rw [Placed.onTheWay, diagnostic_placed]
  exact bne_iff_ne

theorem onTheWay_of_isStructural (h : m.report.problem.isStructural = true) : m.OnTheWay := by
  intro ht
  rw [ht] at h
  cases h

theorem blames_placed (hm : m.place <:+ (Cursor.ofTokens ts).rest) :
    (m.placed ts).blames = true ↔ m.report.problem.isStructural = true ∧ m.place ≠ [] := by
  rw [Placed.blames, atEnd_placed hm, diagnostic_placed]
  simp [Diagnostic.atToken]

theorem Precedes.index_le (h : m.Precedes m') (hw : m.OnTheWay) (hw' : m'.OnTheWay) :
    (m.placed ts).index ≤ (m'.placed ts).index :=
  Nat.sub_le_sub_left ((h.order hw hw').trans m.onward_suffix).length_le _

/-- The token of a structural problem is dropped, so that a later place is beyond it. -/
theorem Precedes.index_lt (h : m.Precedes m') (hm : m.place <:+ (Cursor.ofTokens ts).rest)
    (hs : m.report.problem.isStructural = true) (hp : m.place ≠ []) (hw' : m'.OnTheWay) :
    (m.placed ts).index < (m'.placed ts).index := by
  have hplace := (h.order (onTheWay_of_isStructural hs) hw').length_le
  rw [onward, if_pos hs, List.length_tail] at hplace
  have hle := hm.length_le
  have hpos := List.length_pos_iff.mpr hp
  simp only [placed]
  omega

theorem inSourceOrder_placed {marks : List Mark}
    (hplace : ∀ m ∈ marks, m.place <:+ (Cursor.ofTokens ts).rest)
    (h : marks.Pairwise Precedes) : InSourceOrder ts (marks.map (placed ts)) where
  isIn := List.forall_mem_map.mpr fun m hm => isIn_placed (hplace m hm)
  blames := by
    refine List.pairwise_filter.mpr (List.pairwise_map.mpr (h.imp_of_mem ?_))
    intro m m' hm hm' h hb hb'
    obtain ⟨hs, hp⟩ := (blames_placed (hplace m hm)).mp hb
    obtain ⟨hs', -⟩ := (blames_placed (hplace m' hm')).mp hb'
    exact h.index_lt (hplace m hm) hs hp (onTheWay_of_isStructural hs')
  onTheWay := by
    refine List.pairwise_filter.mpr (List.pairwise_map.mpr (h.imp ?_))
    intro m m' h hw hw'
    exact h.index_le (onTheWay_placed.mp hw) (onTheWay_placed.mp hw')
  ending := by
    refine List.pairwise_map.mpr (h.imp_of_mem ?_)
    intro m m' hm hm' h
    rw [atEnd_placed (hplace m hm), atEnd_placed (hplace m' hm')]
    simpa using h.ending

end Mark

/-- Parsing reports in the order of the tokens. The diagnostics have indices, in any list of tokens,
at which they are: those of structural problems that are not at the end of the input increase, and
those of all problems but bad targets do not decrease. Once a diagnostic is at the end of the input,
so are all that follow. -/
theorem parse_diagnostics_inSourceOrder (ts : List Token) :
    ∃ placed : List Placed,
      placed.map Placed.diagnostic = (Cursor.ofTokens ts).parse.diagnostics ∧
        InSourceOrder ts placed := by
  obtain ⟨marks, hreports, hbetween, hprecedes⟩ :=
    (program_inOrder (Cursor.ofTokens ts).rest).exists_marks
  refine ⟨marks.map (Mark.placed ts), ?_, ?_⟩
  · rw [Cursor.diagnostics_parse_eq, ← hreports, Cursor.located, List.map_map, List.map_map]
    rfl
  · exact Mark.inSourceOrder_placed (fun m hm => (hbetween m hm).place) hprecedes

end ScriptFront
