import ScriptFront.Proofs.Command.LineMode
import ScriptFront.Proofs.Scan.Spaced
import ScriptFront.Proofs.Text.Lines
import ScriptFront.Proofs.Tree.Unambiguous

/-! # Output line by line

A sink takes the longest run of leading lines that it has room for, and nothing after them.
Statements of a source are written one per line, whatever their strings hold. Tokens are not: the
value of a string is written as it is, so that a token has as many line feeds as its lexeme.
-/

namespace ScriptFront

open Bytes (newline OnePerLine)

/-! ### Sinks with a capacity -/

namespace Sink

variable {s : Sink}

theorem accepts_append (s : Sink) (a b : Bytes) :
    s.accepts (a ++ b) = { s with written := s.written ++ a }.accepts b := by
  simp [accepts, Nat.add_assoc]

theorem accepts_of_append {a b : Bytes} (h : s.accepts (a ++ b) = true) : s.accepts a = true := by
  unfold accepts at h ⊢
  cases hc : s.capacity with
  | none => rfl
  | some limit =>
    simp only [hc, Option.all_some, decide_eq_true_eq, List.length_append] at h ⊢
    omega

/-- The sink takes the first `k` of the lines, and no longer run of leading lines fits. -/
structure Takes (s : Sink) (items : List Bytes) (k : Nat) : Prop where
  le_length : k ≤ items.length
  accepts_iff : ∀ j < items.length, (s.accepts (Bytes.lines (items.take (j + 1))) = true ↔ j < k)

theorem takes_nil (s : Sink) : s.Takes [] 0 := ⟨le_rfl, by simp⟩

theorem takes_zero {item : Bytes} {items : List Bytes}
    (h : ¬ s.accepts (item ++ [newline]) = true) : s.Takes (item :: items) 0 where
  le_length := Nat.zero_le _
  accepts_iff j _ := by
    refine iff_of_false (fun ha => h ?_) (Nat.not_lt_zero j)
    rw [List.take_succ_cons, Bytes.lines, List.flatMap_cons] at ha
    exact accepts_of_append ha

theorem takes_succ {item : Bytes} {items : List Bytes} {k : Nat}
    (h : s.accepts (item ++ [newline]) = true)
    (hk : { s with written := s.written ++ (item ++ [newline]) }.Takes items k) :
    s.Takes (item :: items) (k + 1) where
  le_length := Nat.succ_le_succ hk.le_length
  accepts_iff j hj := by
    rw [List.take_succ_cons, Bytes.lines, List.flatMap_cons]
    cases j with
    | zero => simpa using h
    | succ j =>
      rw [accepts_append, Nat.succ_lt_succ_iff]
      exact hk.accepts_iff j (Nat.lt_of_succ_lt_succ hj)

/-- Lines are written up to the first that is refused; the error is that of the sink. -/
theorem writeLines_eq (s : Sink) (items : List Bytes) :
    ∃ k, s.Takes items k ∧
      s.writeLines items =
        (if k = items.length then none else some s.refusal,
          { s with written := s.written ++ Bytes.lines (items.take k) }) := by
  induction items generalizing s with
  | nil => exact ⟨0, s.takes_nil, by simp [writeLines, Bytes.lines]⟩
  | cons item items ih =>
    by_cases h : s.accepts (item ++ [newline]) = true
    · obtain ⟨k, hk, hwrite⟩ := ih { s with written := s.written ++ (item ++ [newline]) }
      refine ⟨k + 1, takes_succ h hk, ?_⟩
      rw [writeLines, write, if_pos h]
      simp [hwrite, Bytes.lines]
    · refine ⟨0, takes_zero h, ?_⟩
      rw [writeLines, write, if_neg h]
      simp [Bytes.lines]

end Sink

/-! ### The text of a statement is on one line -/

theorem newline_notMem_parenthesized {head : Bytes} {parts : List Bytes} (hh : newline ∉ head)
    (hp : ∀ part ∈ parts, newline ∉ part) : newline ∉ parenthesized head parts := by
  have hopen : newline ≠ byte '(' := by decide
  have hclose : newline ≠ byte ')' := by decide
  have hblank : newline ∉ text " " := by decide
  have hjoin : newline ∉ Bytes.join (text " ") ((head :: parts).filter (!·.isEmpty)) := by
    rw [Bytes.mem_join_iff hblank]
    rintro ⟨part, hpart, hmem⟩
    rcases List.mem_cons.mp (List.mem_of_mem_filter hpart) with rfl | hpart
    · exact hh hmem
    · exact hp part hpart hmem
  simp [parenthesized, hopen, hclose, hjoin]

theorem Node.newline_notMem_render_of_children {n : Node} (hn : n.IsLegible)
    (ht : ∀ t ∈ n.tokens, IsWord t.lexeme → newline ∉ t.lexeme)
    (hc : ∀ child ∈ n.children, newline ∉ child.render) : newline ∉ n.render := by
  rcases n with e | s
  · cases e with
    | literal token value =>
      have hv := Value.IsRead.newline_notMem_literal hn
      exact newline_notMem_parenthesized (by decide) (by simpa using hv)
    | call callee paren args =>
      refine newline_notMem_parenthesized (by decide) ?_
      simp_all [children, Expr.children, render, Expr.renderAll_eq_map]
    | _ =>
      refine newline_notMem_parenthesized (by decide) ?_
      simp_all [children, Expr.children, render, tokens, Expr.tokens, IsLegible]
  · cases s with
    | block brace body =>
      refine newline_notMem_parenthesized (by decide) ?_
      simp_all [children, render, Stmt.renderAll_eq_map]
    | function name params body =>
      obtain ⟨hname, hparams⟩ := List.forall_mem_cons.mp ht
      have hlist : newline ∉ parenthesized [] (params.map Token.lexeme) :=
        newline_notMem_parenthesized (by simp)
          (List.forall_mem_map.mpr fun p hp => hparams p hp (hn.2 p hp))
      refine newline_notMem_parenthesized (by decide) ?_
      simp_all [children, render, Stmt.renderAll_eq_map, IsLegible]
    | conditional keyword condition thenBranch elseBranch =>
      cases elseBranch <;> refine newline_notMem_parenthesized (by decide) ?_ <;>
        simp_all [children, render]
    | define name initial =>
      refine newline_notMem_parenthesized (by decide) ?_
      cases initial <;> simp_all [children, render, tokens, Stmt.tokens, IsLegible]
    | leave keyword value =>
      refine newline_notMem_parenthesized ?_ ?_
      · rcases hn with h | h <;> rw [h] <;> decide
      · cases value <;> simp_all [children, render]
    | _ =>
      refine newline_notMem_parenthesized (by decide) ?_
      simp_all [children, render]

theorem Node.newline_notMem_render {n : Node} (hn : n.Everywhere IsLegible)
    (ht : n.Everywhere fun m => ∀ t ∈ m.tokens, IsWord t.lexeme → newline ∉ t.lexeme) :
    newline ∉ n.render := by
  induction n using child_induction with
  | h n ih =>
    obtain ⟨hroot, hchildren⟩ := everywhere_iff.mp hn
    obtain ⟨hroot', hchildren'⟩ := everywhere_iff.mp ht
    exact newline_notMem_render_of_children hroot hroot' fun child hm =>
      ih child hm (hchildren child hm) (hchildren' child hm)

/-! ### Tokens of a source -/

namespace Token

variable {t : Token}

/-- A token that was cut out of a source is on one line, or it is a string; then its value is what
stands between the quotes. -/
theorem IsCut.newline_notMem_or (h : t.IsCut) :
    (newline ∉ t.lexeme ∧ newline ∉ t.literal.bare) ∨
      ∃ inner, t.kind = .string ∧ t.lexeme = byte '"' :: inner ++ [byte '"'] ∧
        t.literal = .text inner := by
  obtain ⟨⟨kind, bytes⟩, hm, hs⟩ := h
  have hnull : newline ∉ Value.null.bare := by decide
  generalize t.line = line at hs
  cases kind with
  | symbol | word =>
    obtain rfl := Option.some.inj hs
    exact .inl ⟨hm.newline_notMem (by simp) (by simp), hnull⟩
  | number =>
    obtain rfl := Option.some.inj hs
    have hvalue := (isScanned_number hm line).literal.newline_notMem_literal
    exact .inl ⟨hm.newline_notMem (by simp) (by simp), hvalue⟩
  | string =>
    obtain rfl := Option.some.inj hs
    cases hm with
    | @string inner _ => exact .inr ⟨inner, rfl, rfl, by simp⟩
  | blank | comment | openString | stray => cases hs

theorem IsCut.newline_notMem_of_isWord (h : t.IsCut) (hw : IsWord t.lexeme) :
    newline ∉ t.lexeme := by
  rcases h.newline_notMem_or with ⟨hno, -⟩ | ⟨inner, -, hl, -⟩
  · exact hno
  · rw [hl] at hw
    exact absurd (hw.isPlain_of_mem _ List.mem_cons_self) (by decide)

theorem newline_notMem_name (k : Kind) : newline ∉ k.name := by
  have hnames : ∀ e ∈ Kind.table, newline ∉ text e.2 := by decide
  unfold Kind.name
  split
  · simp only [List.mem_append, not_or]
    exact ⟨⟨by decide, Bytes.newline_notMem_integer _⟩, by decide⟩
  · cases hl : Kind.table.lookup k with
    | none => simp
    | some name =>
      obtain ⟨before, after, ht, -⟩ := List.lookup_eq_some_iff.mp hl
      exact hnames (k, name) (by rw [ht]; simp)

theorem newlines_render_eq (t : Token) :
    Bytes.newlines t.render = Bytes.newlines t.literal.bare := by
  have hkind := Bytes.newlines_eq_zero_iff.mpr (newline_notMem_name t.kind)
  have hlexeme := Bytes.newlines_eq_zero_iff.mpr (newline_notMem_quoted t.lexeme)
  have hline := Bytes.newlines_eq_zero_iff.mpr (Bytes.newline_notMem_integer t.line)
  have hopen : Bytes.newlines [byte '\x7b'] = 0 := by decide
  have hclose : Bytes.newlines [byte '\x7d'] = 0 := by decide
  have hgap : Bytes.newlines (text ", ") = 0 := by decide
  have htext : t.render = [byte '\x7b'] ++ (t.kind.name ++ text ", " ++ (quoted t.lexeme ++ text ", "
      ++ (Bytes.integer t.line ++ text ", " ++ t.literal.bare))) ++ [byte '\x7d'] := rfl
  simp only [htext, Source.newlines_append, hkind, hlexeme, hline, hopen, hclose, hgap]
  omega

/-- A token is written with as many line feeds as its lexeme has. -/
theorem IsCut.newlines_render (h : t.IsCut) :
    Bytes.newlines t.render = Bytes.newlines t.lexeme := by
  rw [newlines_render_eq]
  rcases h.newline_notMem_or with ⟨hlexeme, hvalue⟩ | ⟨inner, -, hlexeme, hvalue⟩
  · rw [Bytes.newlines_eq_zero_iff.mpr hlexeme, Bytes.newlines_eq_zero_iff.mpr hvalue]
  · have hquote : Bytes.newlines [byte '"'] = 0 := by decide
    have htext : t.lexeme = [byte '"'] ++ inner ++ [byte '"'] := hlexeme
    rw [hvalue, htext, Source.newlines_append, Source.newlines_append, hquote]
    exact (Nat.zero_add _).symm

end Token

theorem newlines_render_of_mem_scan {source : Bytes} {t : Token} (h : t ∈ (scan source).tokens) :
    Bytes.newlines t.render = Bytes.newlines t.lexeme := by
  rw [Source.tokens_scan] at h
  rcases List.mem_append.mp h with h | h
  · exact (Source.isCut_of_mem_bodyFrom 1 source t h).newlines_render
  · rw [List.mem_singleton.mp h, Token.newlines_render_eq]
    rfl

theorem kind_eq_string_of_newline_mem {source : Bytes} {t : Token} (h : t ∈ (scan source).tokens)
    (hn : newline ∈ t.lexeme) : t.kind = .string := by
  rw [Source.tokens_scan] at h
  rcases List.mem_append.mp h with h | h
  · rcases (Source.isCut_of_mem_bodyFrom 1 source t h).newline_notMem_or with ⟨hno, -⟩ | ⟨_, hk, -⟩
    · exact absurd hn hno
    · exact hk
  · rw [List.mem_singleton.mp h] at hn
    cases hn

/-- Tokens are written one per line exactly if no string goes over several lines. In any case there
is one line feed for each token, and one for each that stands in a string. -/
theorem writeTokens_onePerLine_iff (source : Bytes) :
    let tokens := (scan source).tokens
    let out := Bytes.lines (tokens.map Token.render)
    (∀ refusal before : Bytes, Format.sexpr.writeTokens tokens { refusal, written := before } =
        (none, { refusal, written := before ++ out })) ∧
      Bytes.newlines out = tokens.length + (tokens.map fun t => Bytes.newlines t.lexeme).sum ∧
      (OnePerLine (tokens.map Token.render) out ↔
        ∀ t ∈ tokens, t.kind = .string → newline ∉ t.lexeme) := by
  intro tokens out
  refine ⟨fun refusal before => Sink.writeLines_of_unbounded rfl _, ?_, ?_⟩
  · have hcounts : (tokens.map Token.render).map Bytes.newlines =
        tokens.map fun t => Bytes.newlines t.lexeme := by
      rw [List.map_map]
      exact List.map_congr_left fun t ht => newlines_render_of_mem_scan ht
    rw [Bytes.newlines_lines, hcounts, List.length_map]
  · rw [Bytes.onePerLine_lines_iff, List.forall_mem_map]
    have hiff (t : Token) (ht : t ∈ tokens) : newline ∉ t.render ↔ newline ∉ t.lexeme := by
      rw [← Bytes.newlines_eq_zero_iff, newlines_render_of_mem_scan ht, Bytes.newlines_eq_zero_iff]
    constructor
    · intro h t ht _
      exact (hiff t ht).mp (h t ht)
    · intro h t ht
      refine (hiff t ht).mpr fun hn => ?_
      exact h t ht (kind_eq_string_of_newline_mem ht hn) hn

/-- A string over two lines makes three lines of two tokens, of which the first is not the text of
the first token. -/
theorem not_onePerLine_stringOverLines :
    let tokens := (scan (text "\"a\nb\"")).tokens
    let out := (Format.sexpr.writeTokens tokens {}).2.written
    tokens.length = 2 ∧ Bytes.newlines out = 3 ∧
      (Bytes.split newline out)[0]? ≠ tokens[0]?.map Token.render ∧
      ¬ OnePerLine (tokens.map Token.render) out := by
  intro tokens out
  have hlength : tokens.length = 2 := by decide
  have hcount : Bytes.newlines out = 3 := by decide
  refine ⟨hlength, hcount, by decide, fun h => ?_⟩
  have hlines : Bytes.newlines out = _ := h.1
  rw [hcount, List.length_map, hlength] at hlines
  cases hlines

/-! ### Statements of a source -/

theorem newline_notMem_render_of_mem_readProgram {source : Bytes} {s : Stmt}
    (h : s ∈ (readProgram source).stmts) : newline ∉ s.render := by
  have hlegible := legible_of_mem_readProgram h
  rw [stmts_readProgram] at h
  obtain ⟨span, hspan, hs⟩ := List.mem_filterMap.mp h
  have htokens := (isRead_of_mem_spans hspan).tokens_mem hs
  refine Node.newline_notMem_render hlegible fun n hn t ht hw => ?_
  have hmem : t ∈ Source.bodyFrom 1 source := mem_of_mem_spans hspan (htokens n hn t ht)
  exact (Source.isCut_of_mem_bodyFrom 1 source t hmem).newline_notMem_of_isWord hw

/-- Statements are written one per line. A sink without a capacity takes them all, and their texts
are the lines of what is written, none of which has a line feed in it. A sink with a capacity takes
`k` whole lines, where `k` is the greatest number for which they fit, and nothing of the statements
after them; its error is the result unless it took all lines. -/
theorem writeProgram_onePerLine (source : Bytes) :
    let stmts := (readProgram source).stmts
    let texts := stmts.map Stmt.render
    (∀ item ∈ texts, newline ∉ item) ∧
      (∀ refusal before : Bytes, ∃ out,
        Format.sexpr.writeProgram stmts { refusal, written := before } =
          (none, { refusal, written := before ++ out }) ∧ OnePerLine texts out) ∧
      ∀ (limit : Nat) (refusal before : Bytes), ∃ k ≤ texts.length,
        Format.sexpr.writeProgram stmts { capacity := some limit, refusal, written := before } =
          (if k = texts.length then none else some refusal,
            { capacity := some limit, refusal,
              written := before ++ Bytes.lines (texts.take k) }) ∧
        ∀ j < texts.length,
          ((before ++ Bytes.lines (texts.take (j + 1))).length ≤ limit ↔ j < k) := by
  intro stmts texts
  have hlines : ∀ item ∈ texts, newline ∉ item :=
    List.forall_mem_map.mpr fun s hs => newline_notMem_render_of_mem_readProgram hs
  refine ⟨hlines, fun refusal before => ?_, fun limit refusal before => ?_⟩
  · exact ⟨Bytes.lines texts, Sink.writeLines_of_unbounded rfl texts,
      Bytes.onePerLine_lines_iff.mpr hlines⟩
  · let sink : Sink := { capacity := some limit, refusal, written := before }
    obtain ⟨k, hk, hwrite⟩ := sink.writeLines_eq texts
    refine ⟨k, hk.le_length, hwrite, fun j hj => ?_⟩
    rw [← hk.accepts_iff j hj]
    simp [sink, Sink.accepts]

end ScriptFront
