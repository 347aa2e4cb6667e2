import ScriptFront.Proofs.NormalForm.Program
import ScriptFront.Proofs.Scan.Words
import ScriptFront.Proofs.Tree.Attribution
import ScriptFront.Proofs.Tree.Shown

/-! # The text of a tree is unambiguous

The text of a statement that was read from a source, and its outline without lines, tell the same:
either determines which nodes there are, how they are nested, and all names, operators and values.
-/

namespace ScriptFront

open Parse

/-! ### The text of a tree is that of its list -/

namespace Node

theorem readable_of_children {n : Node} (hn : n.IsLegible)
    (hc : ∀ child ∈ n.children, child.sexp.Readable) : n.sexp.Readable := by
  rcases n with e | s
  · cases e with
    | literal =>
      have hv := Value.IsRead.isAtom_literal hn
      exact Sexp.readable_of_head (by decide) (by simpa using hv)
    | _ =>
      refine Sexp.readable_of_head (by decide) ?_
      simp_all [sexp, children, Expr.children, IsLegible, IsAtom.word]
  · cases s with
    | conditional _ _ _ o =>
      cases o <;> refine Sexp.readable_of_head (by decide) ?_ <;> simp_all [sexp, children]
    | leave _ o =>
      refine Sexp.readable_of_head ?_ ?_
      · rcases hn with h | h <;> rw [h] <;> decide
      · cases o <;> simp_all [sexp, children]
    | define _ o =>
      refine Sexp.readable_of_head (by decide) ?_
      cases o <;> simp_all [sexp, children, IsLegible, IsAtom.word]
    | _ =>
      refine Sexp.readable_of_head (by decide) ?_
      simp_all [sexp, children, IsLegible, IsAtom.word]

theorem readable_sexp {n : Node} (h : n.Everywhere IsLegible) : n.sexp.Readable := by
  induction n using child_induction with
  | h n ih =>
    obtain ⟨hroot, hc⟩ := everywhere_iff.mp h
    exact readable_of_children hroot fun child hm => ih child hm (hc child hm)

/-- The text of a node is a head with parts, of which none is empty. -/
theorem render_eq_parenthesized {n : Node} (hr : n.sexp.Readable)
    (hc : ∀ child ∈ n.children, child.render = child.sexp.write) :
    ∃ head items, n.sexp = .list (.atom head :: items) ∧
      n.render = parenthesized head (items.map Sexp.write) := by
  rcases n with e | s
  · cases e with
    | call callee _ args =>
      obtain ⟨hcallee, hargs⟩ := List.forall_mem_cons.mp hc
      have hcallee : callee.render = callee.sexp.write := hcallee
      have hargs : args.map Expr.render = args.map (Sexp.write ∘ Expr.sexp) :=
        List.map_congr_left (List.forall_mem_map.mp hargs)
      exact ⟨_, _, rfl, by simp [render, Expr.render, Expr.renderAll_eq_map, hargs, hcallee]⟩
    | _ =>
      refine ⟨_, _, rfl, ?_⟩
      simp_all [render, sexp, Expr.render, children, Expr.children, Sexp.write]
  · have hbody {body : List Stmt} (hb : ∀ child ∈ body.map stmt, child.render = child.sexp.write) :
        Stmt.renderAll body = body.map (Sexp.write ∘ Stmt.sexp) := by
      rw [Stmt.renderAll_eq_map]
      exact List.map_congr_left (List.forall_mem_map.mp hb)
    cases s with
    | block => exact ⟨_, _, rfl, by simp [render, Stmt.render, hbody hc]⟩
    | function name params body =>
      have hparams : (Sexp.list (params.map fun t => .atom t.lexeme)).Readable :=
        Sexp.readable_list.mp hr _ (by simp)
      refine ⟨_, _, rfl, ?_⟩
      rw [List.map_cons, List.map_cons, ← Sexp.parenthesized_nil_eq_write hparams]
      simp [render, Stmt.render, hbody hc, Sexp.write, Function.comp_def]
    | conditional _ _ _ o =>
      cases o <;> refine ⟨_, _, rfl, ?_⟩ <;> simp_all [render, sexp, Stmt.render, children]
    | define _ o | leave _ o =>
      refine ⟨_, _, rfl, ?_⟩
      cases o <;> simp_all [render, sexp, Stmt.render, children, Sexp.write]
    | _ =>
      refine ⟨_, _, rfl, ?_⟩
      simp_all [render, sexp, Stmt.render, children]

theorem render_eq_write {n : Node} (h : n.Everywhere IsLegible) : n.render = n.sexp.write := by
  induction n using child_induction with
  | h n ih =>
    have hr := readable_sexp h
    have hc : ∀ child ∈ n.children, child.render = child.sexp.write := fun child hm =>
      ih child hm ((everywhere_iff.mp h).2 child hm)
    obtain ⟨head, items, hsexp, hrender⟩ := render_eq_parenthesized hr hc
    rw [hrender, hsexp, Sexp.parenthesized_eq_write (hsexp ▸ hr)]

end Node

/-! ### Trees of a source are legible -/

theorem Token.IsScanned.word_of_name {t : Token} (h : t.IsScanned) (hk : t.kind = .identifier) :
    IsWord t.lexeme :=
  h.word (by simp [hk])

theorem Token.IsScanned.isRead {t : Token} (h : t.IsScanned) {v : Value} (hv : t.StandsFor v) :
    v.IsRead := by
  unfold Token.StandsFor at hv
  split at hv
  · exact hv ▸ .bool true
  · exact hv ▸ .bool true
  · exact hv ▸ .bool false
  · exact hv ▸ .null
  · exact hv ▸ h.literal
  · exact hv ▸ h.literal
  · exact hv.elim

theorem Node.isLegible_of_shape {n : Node} (hn : n.HasShape) (ht : ∀ t ∈ n.tokens, t.IsScanned) :
    n.IsLegible := by
  rcases n with e | s
  · cases e with
    | assign | reference => exact (ht _ List.mem_cons_self).word_of_name hn
    | binary left op right =>
      have hop := ht op List.mem_cons_self
      -- Normal form says nothing of the kind of a compound operator but that it is one.
      by_cases hk : Grammar.isCompound op.kind = true
      · exact hop.word_of hk (by decide)
      · simp only [HasShape, Expr.HasShape, hk, Bool.false_eq_true, ↓reduceIte] at hn
        exact hop.word_of hn.1 (by decide)
    | logical left op right =>
      have hop := ht op List.mem_cons_self
      rcases hn.1 with hk | hk
      · exact hop.word (by simp [hk])
      · exact hop.word (by simp [hk])
    | unary op right => exact (ht op List.mem_cons_self).word_of hn.1 (by decide)
    | literal token value => exact (ht token List.mem_cons_self).isRead hn
    | grouping | call => trivial
  · cases s with
    | define => exact (ht _ List.mem_cons_self).word_of_name hn
    | function name params =>
      obtain ⟨hname, hparams⟩ := List.forall_mem_cons.mp ht
      exact ⟨hname.word_of_name hn.1, fun p hp => (hparams p hp).word_of_name (hn.2.1 p hp)⟩
    | leave keyword =>
      have hk := ht keyword List.mem_cons_self
      rcases hn with hreturn | ⟨hbreak, -⟩
      · exact .inl (hk.returnKw hreturn)
      · exact .inr (hk.breakKw hbreak)
    | block | expression | conditional | print | loop => trivial

theorem legible_of_mem_readProgram {source : Bytes} {s : Stmt}
    (h : s ∈ (readProgram source).stmts) : (Node.stmt s).Everywhere Node.IsLegible := by
  rw [stmts_readProgram] at h
  have hnormal := program_gives (program_eq_spans (Source.bodyFrom 1 source)) s h
  obtain ⟨span, hspan, hs⟩ := List.mem_filterMap.mp h
  have htokens := (isRead_of_mem_spans hspan).tokens_mem hs
  intro n hn
  refine Node.isLegible_of_shape (hnormal n hn).shape fun t ht => ?_
  exact Source.isScanned_bodyFrom 1 source t (mem_of_mem_spans hspan (htokens n hn t ht))

/-- The two formats carry the same information: statements of any two sources have the same text
if and only if they have the same outline, apart from the lines. The text is unambiguous: it
determines which nodes there are, how they are nested, which optional parts and how many of the
others they have, and all names, operators and values. -/
theorem render_eq_iff_outline_eq {source source' : Bytes} {a b : Stmt}
    (ha : a ∈ (readProgram source).stmts) (hb : b ∈ (readProgram source').stmts) :
    (a.render = b.render ↔ a.outline.withoutLines = b.outline.withoutLines) ∧
      (a.render = b.render ↔ (Node.stmt a).shown = (Node.stmt b).shown) := by
  have hla := legible_of_mem_readProgram ha
  have hlb := legible_of_mem_readProgram hb
  have hsexp : a.render = b.render ↔ (Node.stmt a).sexp = (Node.stmt b).sexp := by
    have hwa : a.render = _ := Node.render_eq_write hla
    have hwb : b.render = _ := Node.render_eq_write hlb
    rw [hwa, hwb, Sexp.write_inj (Node.readable_sexp hla) (Node.readable_sexp hlb)]
  constructor
  · exact hsexp.trans (Node.sexp_shows.eq_iff_eq Node.outline_shows hla hlb)
  · exact hsexp.trans (Node.sexp_shows.eq_iff_eq Node.shown_shows hla hlb)

/-- A call on one line, and the same call on three lines with another numeral. Its string looks like
the end of one list and the beginning of another. -/
theorem render_eq_iff_outline_eq_call :
    ∃ a ∈ (readProgram (text "print f(1.50, \"a) (b\");")).stmts,
      ∃ b ∈ (readProgram (text "print\n f(1.5,\n \"a) (b\");")).stmts,
        a.render = text "(print (call (var f) (literal 1.5) (literal \"a) (b\")))" ∧
        a.universe.map (·.base.line) = [1, 1, 1, 1, 1] ∧
        b.universe.map (·.base.line) = [1, 3, 2, 2, 3] ∧
        a.outline.withoutLines = b.outline.withoutLines ∧
        (Node.stmt a).shown = (Node.stmt b).shown := by
  let source := text "print f(1.50, \"a) (b\");"
  let source' := text "print\n f(1.5,\n \"a) (b\");"
  let written := text "(print (call (var f) (literal 1.5) (literal \"a) (b\")))"
  let facts (s : Stmt) : Bytes × List Int := (s.render, s.universe.map (·.base.line))
  obtain ⟨a, ha⟩ : ∃ a, (readProgram source).stmts = [a] := ⟨_, rfl⟩
  obtain ⟨b, hb⟩ : ∃ b, (readProgram source').stmts = [b] := ⟨_, rfl⟩
  have hfacts : [facts a] = [(written, [1, 1, 1, 1, 1])] := by
    change [a].map facts = _
    rw [← ha]
    decide +kernel
  have hfacts' : [facts b] = [(written, [1, 3, 2, 2, 3])] := by
    change [b].map facts = _
    rw [← hb]
    decide +kernel
  obtain ⟨hwritten, hlines⟩ := Prod.mk.inj (List.cons.inj hfacts).1
  obtain ⟨hwritten', hlines'⟩ := Prod.mk.inj (List.cons.inj hfacts').1
  have ha' : a ∈ (readProgram source).stmts := by simp [ha]
  have hb' : b ∈ (readProgram source').stmts := by simp [hb]
  have hsame : a.render = b.render := hwritten.trans hwritten'.symm
  obtain ⟨houtline, hshown⟩ := render_eq_iff_outline_eq ha' hb'
  exact ⟨a, ha', b, hb', hwritten, hlines, hlines', houtline.mp hsame, hshown.mp hsame⟩

end ScriptFront
