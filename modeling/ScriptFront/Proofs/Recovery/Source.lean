import ScriptFront.Proofs.Completeness.Program
import ScriptFront.Proofs.Correspondence.Program
import ScriptFront.Proofs.Recovery.Append
import ScriptFront.Proofs.Scan.LineByLine
import ScriptFront.Proofs.Soundness.Program
import ScriptFront.Proofs.Tree.Tokens
import ScriptFront.Session
import ScriptFront.Tree.Render

/-! # Sources one after the other

What is read of a source is what the spans of its tokens give. Sources of which nothing is
reported, with line feeds between them, are read as each of them alone; the statements differ only
in the lines of their tokens, which their texts do not show.
-/

namespace ScriptFront

open Parse ScriptFront.Parser

theorem readProgram_eq (source : Bytes) :
    let body := Source.bodyFrom 1 source
    let c : Cursor := ⟨body, Token.ending (1 + Bytes.newlines source : Nat)⟩
    readProgram source = ⟨(spans body).filterMap Span.statement,
      (scan source).diagnostics ++ c.located ((spans body).flatMap Span.reports)⟩ := by
  intro body c
  have hc : Cursor.ofTokens (scan source).tokens = c := by
    rw [Source.tokens_scan]
    exact Cursor.ofTokens_append_cons (Source.withoutEnd_bodyFrom 1 source) rfl []
  rw [readProgram, hc, Cursor.parse_eq (program_eq_spans body)]

theorem stmts_readProgram (source : Bytes) :
    (readProgram source).stmts =
      (spans (Source.bodyFrom 1 source)).filterMap Span.statement := by
  rw [readProgram_eq]

theorem diagnostics_readProgram_eq_nil_iff {source : Bytes} :
    (readProgram source).diagnostics = [] ↔
      (Source.scanFrom 1 source).diagnostics = [] ∧
        (spans (Source.bodyFrom 1 source)).flatMap Span.reports = [] := by
  rw [readProgram_eq, List.append_eq_nil_iff, Cursor.located, List.map_eq_nil_iff]
  rfl

/-! ### On another line -/

theorem Token.SameText.sameKinds : SameKinds Token.SameText := fun _ _ h => h.kind

def Node.render : Node → Bytes
  | .expr e => e.render
  | .stmt s => s.render

theorem LiteralAlike.eq {t u : Token} {v w : Value} (h : LiteralAlike t u v w)
    (hl : t.literal = u.literal) : v = w := by
  unfold LiteralAlike at h
  split at h
  · rw [h.1, h.2, hl]
  · exact h

theorem Node.Alike.render_eq {n n' : Node} (h : n.Alike Token.SameText n') :
    n.render = n'.render := by
  induction n using Node.child_induction generalizing n' with
  | h n ih =>
    have hc : n.children.map Node.render = n'.children.map Node.render :=
      map_eq_of_forall₂ h.children fun child hm child' => ih child hm
    cases h with
    | expr h =>
      simp only [Node.children, List.map_map] at hc
      cases h with
      | literal ht hv =>
        have hvalue := hv.eq ht.literal
        simp [Node.render, Expr.render, hvalue]
      | assign hn _ => simp_all [Expr.children, Node.render, Expr.render, hn.lexeme]
      | binary _ ho _ | logical _ ho _ | unary ho _ =>
        simp_all [Expr.children, Node.render, Expr.render, ho.lexeme]
      | grouping => simp_all [Expr.children, Node.render, Expr.render]
      | reference ht => simp [Node.render, Expr.render, ht.lexeme]
      | call =>
        simp_all [Expr.children, Node.render, Expr.render, Expr.renderAll_eq_map, Function.comp_def]
    | stmt h =>
      simp only [Node.children] at hc
      cases h with
      | block => simp_all [Node.render, Stmt.render, Stmt.renderAll_eq_map, Function.comp_def]
      | expression | print | loop => simp_all [Node.render, Stmt.render]
      | conditional _ _ _ he => cases he <;> simp_all [Node.render, Stmt.render]
      | define hn hi => cases hi <;> simp_all [Node.render, Stmt.render, hn.lexeme]
      | function hn hp _ =>
        have hnames : _ = _ := map_eq_of_forall₂ hp fun _ _ _ h => Token.SameText.lexeme h
        simp_all [Node.render, Stmt.render, Stmt.renderAll_eq_map, Function.comp_def, hn.lexeme]
      | leave hk hv => cases hv <;> simp_all [Node.render, Stmt.render, hk.lexeme]

/-- On another line, a source is read as statements of the same texts, and if nothing was reported,
nothing is. -/
theorem spans_bodyFrom (line line' : Nat) (source : Bytes) :
    ((spans (Source.bodyFrom line source)).filterMap Span.statement).map Stmt.render =
        ((spans (Source.bodyFrom line' source)).filterMap Span.statement).map Stmt.render ∧
      ((spans (Source.bodyFrom line source)).flatMap Span.reports = [] →
        (spans (Source.bodyFrom line' source)).flatMap Span.reports = []) := by
  have h := program_alike Token.SameText.sameKinds _ _ (Source.bodyFrom_sameText line line' source)
  rw [program_eq_spans, program_eq_spans] at h
  cases h with
  | done hs hr _ =>
    constructor
    · exact map_eq_of_forall₂ hs fun s _ s' h => (Node.Alike.stmt h).render_eq
    · intro hnil
      rw [hnil] at hr
      exact List.forall₂_nil_left_iff.mp hr

/-! ### After a line feed -/

theorem lacks_else_of_clean {ts : List Token} (h : (spans ts).flatMap Span.reports = []) :
    Lacks (· == .elseKw) ts := by
  have hp := program_eq_spans ts
  rw [h] at hp
  obtain ⟨d, rfl, -, -⟩ := Grammar.program_sound hp (by simp [Grammar.Clean])
  exact Grammar.StmtTree.declarations_lacks d (lacks_nil _)

/-- Two sources of which nothing is reported, with a line feed between them: nothing is reported,
and the statements have the texts of those of the first, followed by those of the second. -/
theorem readProgram_append_newline {a b : Bytes} (ha : (readProgram a).diagnostics = [])
    (hb : (readProgram b).diagnostics = []) :
    let whole := readProgram (a ++ Bytes.newline :: b)
    whole.diagnostics = [] ∧
      whole.stmts.map Stmt.render =
        (readProgram a).stmts.map Stmt.render ++ (readProgram b).stmts.map Stmt.render := by
  intro whole
  rw [diagnostics_readProgram_eq_nil_iff] at ha hb
  obtain ⟨hbody, hscan⟩ := Source.scanFrom_append_newline ha.1 b
  let next := 1 + Bytes.newlines a + 1
  obtain ⟨htexts, hreports⟩ := spans_bodyFrom 1 next b
  have hclean := hreports hb.2
  have hkept : ∀ s ∈ spans (Source.bodyFrom 1 a), s.statement.isSome = true := by
    intro s hs
    refine (isRead_of_mem_spans hs).isSome_of_clean fun r hr => ?_
    rw [List.flatMap_eq_nil_iff.mp ha.2 s hs] at hr
    cases hr
  have hspans : spans (Source.bodyFrom 1 (a ++ Bytes.newline :: b)) =
      spans (Source.bodyFrom 1 a) ++ spans (Source.bodyFrom next b) := by
    rw [hbody, spans_append_of_kept hkept (lacks_else_of_clean hclean)]
  constructor
  · refine diagnostics_readProgram_eq_nil_iff.mpr ⟨?_, ?_⟩
    · rw [hscan]
      exact Source.diagnostics_scanFrom_eq_nil hb.1 _
    · rw [hspans, List.flatMap_append, ha.2, hclean]
      rfl
  · simp only [whole, stmts_readProgram, hspans, List.filterMap_append, List.map_append, htexts]

/-- Sources of which nothing is reported, each on lines of its own. -/
theorem readProgram_join {sources : List Bytes}
    (h : ∀ source ∈ sources, (readProgram source).diagnostics = []) :
    let whole := readProgram (Bytes.join [Bytes.newline] sources)
    whole.diagnostics = [] ∧
      whole.stmts.map Stmt.render =
        sources.flatMap fun source => (readProgram source).stmts.map Stmt.render := by
  induction sources with
  | nil => exact ⟨by decide, by decide⟩
  | cons source sources ih =>
    obtain ⟨hsource, hmore⟩ := List.forall_mem_cons.mp h
    cases sources with
    | nil => simpa [Bytes.join] using hsource
    | cons next sources =>
      obtain ⟨hclean, htexts⟩ := ih hmore
      have hwhole := readProgram_append_newline hsource hclean
      simpa [Bytes.join, htexts] using hwhole

end ScriptFront
