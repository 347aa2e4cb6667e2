import ScriptFront.Proofs.Recovery.Source

/-! # Where the tokens of a tree come from

Each statement of a program keeps tokens of one stretch of the input only, and the stretches of
statements that follow each other do, too. So the nodes of a statement are not on later lines than
those of the statements after it.
-/

namespace ScriptFront

open Parse ScriptFront.Parser

/-- A part of a list, from an index on and before another one. -/
structure Stretch where
  start : Nat
  stop : Nat
  start_lt_stop : start < stop

namespace Stretch

/-- The token is in the part. -/
def Holds (x : Stretch) (ts : List Token) (t : Token) : Prop :=
  ∃ i, x.start ≤ i ∧ i < x.stop ∧ ts[i]? = some t

/-- All tokens that are kept in a statement are in the part. -/
def Covers (ts : List Token) (s : Stmt) (x : Stretch) : Prop :=
  x.stop ≤ ts.length ∧ (Node.stmt s).Everywhere fun n => ∀ t ∈ n.tokens, x.Holds ts t

def ofRead (before : List Token) {read : List Token} (h : read ≠ []) : Stretch where
  start := before.length
  stop := before.length + read.length
  start_lt_stop := Nat.lt_add_of_pos_right (List.length_pos_iff.mpr h)

theorem ofRead_holds {before read rest : List Token} (hr : read ≠ []) {t : Token} (h : t ∈ read) :
    (ofRead before hr).Holds (before ++ (read ++ rest)) t := by
  obtain ⟨i, hi, ht⟩ := List.getElem_of_mem h
  refine ⟨before.length + i, Nat.le_add_right _ _, Nat.add_lt_add_left hi _, ?_⟩
  rw [List.getElem?_append_right (Nat.le_add_right _ _), Nat.add_sub_cancel_left,
    List.getElem?_append_left hi, List.getElem?_eq_getElem hi, ht]

theorem Holds.line_le {ts : List Token} (hl : ts.Pairwise fun t u => t.line ≤ u.line)
    {x y : Stretch} (hxy : x.stop ≤ y.start) {t u : Token} (ht : x.Holds ts t)
    (hu : y.Holds ts u) : t.line ≤ u.line := by
  obtain ⟨i, -, hi, ht⟩ := ht
  obtain ⟨j, hj, -, hu⟩ := hu
  obtain ⟨hi', rfl⟩ := List.getElem?_eq_some_iff.mp ht
  obtain ⟨hj', rfl⟩ := List.getElem?_eq_some_iff.mp hu
  exact List.pairwise_iff_getElem.mp hl i j hi' hj' (by omega)

end Stretch

/-- A kept statement is made of tokens of its span. Nothing else could have been used when the span
was read alone. -/
theorem Span.IsRead.tokens_mem {s : Span} (h : s.IsRead) {stmt : Stmt}
    (hs : s.statement = some stmt) :
    (Node.stmt stmt).Everywhere fun n => ∀ t ∈ n.tokens, t ∈ s.tokens := by
  let R (t u : Token) : Prop := t ∈ s.tokens ∧ t = u
  have hR : SameKinds R := fun t u ht => congrArg Token.kind ht.2
  have hrefl : List.Forall₂ R s.tokens s.tokens :=
    List.forall₂_same.mpr fun t ht => ⟨ht, rfl⟩
  have halike := program_alike hR s.tokens s.tokens hrefl
  rw [program_eq_spans, (h.kept hs).1] at halike
  cases halike with
  | done hstmts _ _ =>
    obtain ⟨hstmt, -⟩ := List.forall₂_cons.mp hstmts
    intro n hn t ht
    obtain ⟨u, hu, -⟩ := (Node.Alike.stmt hstmt).everywhere n hn t ht
    exact hu

/-- The statements of a list of tokens use parts of it one after the other. -/
theorem exists_stretches (before ts : List Token) :
    ∃ stretches : List Stretch,
      List.Forall₂ (Stretch.Covers (before ++ ts)) ((spans ts).filterMap Span.statement) stretches ∧
        (stretches.Pairwise fun x y => x.stop ≤ y.start) ∧
        ∀ x ∈ stretches, before.length ≤ x.start := by
  induction ts using span_induction generalizing before with
  | nil => exact ⟨[], by simp [spans], .nil, by simp⟩
  | span read rest d reports hr h ih =>
    obtain ⟨stretches, hc, hp, hb⟩ := ih (before ++ read)
    rw [List.append_assoc] at hc
    simp only [List.length_append] at hb
    rw [spans_append hr h]
    cases d with
    | none => exact ⟨stretches, hc, hp, fun x hx => Nat.le_of_add_right_le (hb x hx)⟩
    | some s =>
      have hread : (Span.mk read (some s) reports).IsRead := ⟨hr, rest, h⟩
      refine ⟨.ofRead before hr :: stretches, ?_, ?_, ?_⟩
      · refine .cons ⟨?_, fun n hn t ht => ?_⟩ hc
        · simp only [Stretch.ofRead, List.length_append]
          omega
        · exact Stretch.ofRead_holds hr (hread.tokens_mem rfl n hn t ht)
      · exact List.pairwise_cons.mpr ⟨hb, hp⟩
      · refine List.forall_mem_cons.mpr ⟨Nat.le_refl _, fun x hx => ?_⟩
        exact Nat.le_of_add_right_le (hb x hx)

theorem pairwise_of_forall₂ {α β : Type} {S : α → β → Prop} {P : α → α → Prop} {Q : β → β → Prop}
    (hP : ∀ {a a' : α} {b b' : β}, S a b → S a' b' → Q b b' → P a a') {as : List α} {bs : List β}
    (h : List.Forall₂ S as bs) (hb : bs.Pairwise Q) : as.Pairwise P := by
  induction h with
  | nil => exact .nil
  | cons hs hrest ih =>
    obtain ⟨hfirst, hmore⟩ := List.pairwise_cons.mp hb
    refine List.pairwise_cons.mpr ⟨fun a' ha' => ?_, ih hmore⟩
    obtain ⟨b', hb', hs'⟩ := exists_mem_of_forall₂ hrest ha'
    exact hP hs hs' (hfirst b' hb')

/-- The token is one of a part of the source, which is not its end, on a line of the source. -/
structure Token.IsFrom (source : Bytes) (x : Stretch) (t : Token) : Prop where
  held : x.Holds (scan source).tokens t
  kind_ne_eof : t.kind ≠ .eof
  one_le_line : 1 ≤ t.line
  line_le : t.line ≤ (1 + Bytes.newlines source : Nat)

theorem isFrom_of_holds {source : Bytes} {x : Stretch} {t : Token}
    (h : x.Holds (Source.bodyFrom 1 source) t) : t.IsFrom source x := by
  obtain ⟨i, hi, hi', ht⟩ := h
  have hmem := List.mem_of_getElem? ht
  have hscan : (scan source).tokens[i]? = some t := by
    rw [Source.tokens_scan, List.getElem?_append_left (List.getElem?_eq_some_iff.mp ht).1, ht]
  have hline := Source.line_bounds_bodyFrom 1 source t hmem
  exact ⟨⟨i, hi, hi', hscan⟩, Source.withoutEnd_bodyFrom 1 source t hmem, hline.1, hline.2⟩

/-- Every token that is kept in a program is a token of the source other than its end, and so is
every token that a node is attributed to; they are on lines of the source. Each statement has them
from a stretch of its own, and the stretches follow each other as the statements do. So no node of
a statement is on a later line than a node of a statement after it. -/
theorem readProgram_attributed (source : Bytes) :
    let stmts := (readProgram source).stmts
    (∃ stretches : List Stretch,
      (stretches.Pairwise fun x y => x.stop ≤ y.start) ∧
        List.Forall₂ (fun s x => x.stop < (scan source).tokens.length ∧
          ∀ n ∈ s.universe, ∀ t ∈ n.base :: n.tokens, t.IsFrom source x) stmts stretches) ∧
      stmts.Pairwise fun s s' =>
        ∀ n ∈ s.universe, ∀ n' ∈ s'.universe, n.base.line ≤ n'.base.line := by
  intro stmts
  obtain ⟨stretches, hcovers, hpairwise, -⟩ := exists_stretches [] (Source.bodyFrom 1 source)
  rw [← stmts_readProgram source] at hcovers
  have hparts : List.Forall₂ (fun s x => x.stop < (scan source).tokens.length ∧
      ∀ n ∈ s.universe, ∀ t ∈ n.base :: n.tokens, t.IsFrom source x) stmts stretches := by
    refine hcovers.imp fun s x h => ⟨?_, fun n hn t ht => isFrom_of_holds ?_⟩
    · have hstop : x.stop ≤ (Source.bodyFrom 1 source).length := h.1
      rw [Source.tokens_scan, List.length_append, List.length_singleton]
      omega
    · rcases List.mem_cons.mp ht with rfl | ht
      · exact Node.Everywhere.base h.2 n hn
      · exact h.2 n hn t ht
  refine ⟨⟨stretches, hpairwise, hparts⟩, pairwise_of_forall₂ ?_ hcovers hpairwise⟩
  intro s s' x x' hs hs' hx n hn n' hn'
  have hfirst := Node.Everywhere.base hs.2 n hn
  have hsecond := Node.Everywhere.base hs'.2 n' hn'
  exact hfirst.line_le (Source.pairwise_line_bodyFrom 1 source) hx hsecond

end ScriptFront
