import ScriptFront.Proofs.Scan.Lines
import ScriptFront.Proofs.Value

/-! # The words of a source

What the tokens of a source are written as. All but parentheses and strings are words, a keyword is
always written in one way, and the value of a token is one that literals can have.
-/

namespace ScriptFront

structure Token.IsScanned (t : Token) : Prop where
  word : t.kind ∉ [.leftParen, .rightParen, .string] → IsWord t.lexeme
  returnKw : t.kind = .returnKw → t.lexeme = text "return"
  breakKw : t.kind = .breakKw → t.lexeme = text "break"
  literal : t.literal.IsRead

theorem Token.isScanned_of_ne {t : Token}
    (hw : t.kind ∉ [.leftParen, .rightParen, .string] → IsWord t.lexeme)
    (hk : t.kind ≠ .returnKw ∧ t.kind ≠ .breakKw) (hl : t.literal.IsRead) : t.IsScanned :=
  ⟨hw, fun h => absurd h hk.1, fun h => absurd h hk.2, hl⟩

theorem Kind.exists_of_ofWord {word : Bytes} {k : Kind} (h : ofWord word = k)
    (hk : k ≠ .identifier) : ∃ name, (name, k) ∈ keywords ∧ word = text name := by
  unfold ofWord at h
  cases hf : keywords.find? fun entry => text entry.1 == word with
  | none =>
    rw [hf] at h
    exact absurd h.symm hk
  | some e =>
    rw [hf] at h
    have hword : text e.1 = word := by simpa using List.find?_some hf
    obtain rfl : e.2 = k := h
    exact ⟨e.1, List.mem_of_find?_eq_some hf, hword.symm⟩

theorem isScanned_symbol {name : String} {k : Kind} (h : k.spelling? = some name) (line : Int) :
    Token.IsScanned ⟨k, text name, line, .null⟩ := by
  have hwords : Kind.symbols.all fun e =>
      [Kind.leftParen, .rightParen, .string].contains e.2 || decide (IsWord (text e.1)) := by decide
  have hkinds : Kind.symbols.all fun e => e.2 != .returnKw && e.2 != .breakKw := by decide
  have hsymbol := Kind.mem_symbols_iff.mpr h
  have hword := List.all_eq_true.mp hwords _ hsymbol
  have hkind := List.all_eq_true.mp hkinds _ hsymbol
  simp only [Bool.or_eq_true, List.contains_eq_mem, decide_eq_true_eq] at hword
  simp only [Bool.and_eq_true, bne_iff_ne] at hkind
  exact Token.isScanned_of_ne hword.resolve_left hkind .null

theorem isScanned_word {bytes : Bytes} (h : SegmentClass.word.Matches bytes) (line : Int) :
    Token.IsScanned ⟨Kind.ofWord bytes, bytes, line, .null⟩ := by
  refine ⟨fun _ => ?_, fun hk => ?_, fun hk => ?_, .null⟩
  · cases h with
    | @word b more hb hm =>
      have hparts : ∀ x ∈ b :: more, Segment.isWordPart x := by
        refine List.forall_mem_cons.mpr ⟨?_, fun x hx => ?_⟩
        · exact Segment.isWordPart_iff.mpr (.inl hb)
        · exact Segment.isWordPart_iff.mpr (hm x hx)
      refine ⟨List.cons_ne_nil b more, List.all_eq_true.mpr fun x hx => ?_⟩
      exact isPlain_of (hparts x hx) (by decide)
  · have hnames : ∀ e ∈ Kind.keywords, e.2 = .returnKw → e.1 = "return" := by decide
    obtain ⟨name, hname, hword⟩ := Kind.exists_of_ofWord hk (by simp)
    exact hword.trans (congrArg text (hnames _ hname rfl))
  · have hnames : ∀ e ∈ Kind.keywords, e.2 = .breakKw → e.1 = "break" := by decide
    obtain ⟨name, hname, hword⟩ := Kind.exists_of_ofWord hk (by simp)
    exact hword.trans (congrArg text (hnames _ hname rfl))

theorem isMark_of_number {bytes : Bytes} (h : SegmentClass.number.Matches bytes) :
    ∀ y ∈ bytes, Numeral.IsMark y := by
  cases h with
  | whole _ hd => exact fun y hy => .inl (hd y hy)
  | decimal _ hd _ hf =>
    refine List.forall_mem_append.mpr ⟨fun y hy => .inl (hd y hy), ?_⟩
    exact List.forall_mem_cons.mpr ⟨.inr (.inl rfl), fun y hy => .inl (hf y hy)⟩

theorem isScanned_number {bytes : Bytes} (h : SegmentClass.number.Matches bytes) (line : Int) :
    Token.IsScanned ⟨.number, bytes, line, Segment.numberValue bytes⟩ := by
  obtain ⟨digits, x, hx⟩ := Numeral.exists_number?_of_matches h
  obtain ⟨m, e, hn, hvalue⟩ := Binary64.exists_ofDecimal_eq false digits x
  have hnumber : Segment.numberValue bytes = .number (.bounded false m e) := by
    simp [Segment.numberValue, hx, hvalue]
  refine Token.isScanned_of_ne (fun _ => ?_) (by simp) (hnumber ▸ .number hn)
  refine ⟨Segment.matches_ne_nil h, List.all_eq_true.mpr fun y hy => ?_⟩
  exact (isMark_of_number h y hy).isPlain

theorem Segment.isScanned_of_token? {s : Segment} {source : Bytes} {line : Int} {t : Token}
    (hs : s.Leads source) (ht : s.token? line = some t) : t.IsScanned := by
  obtain ⟨kind, bytes⟩ := s
  cases kind with
  | symbol k =>
    have hm : (SegmentClass.symbol k).Matches bytes := hs.matched rfl
    obtain rfl := Option.some.inj ht
    cases hm with
    | symbol h => exact isScanned_symbol h line
  | word =>
    obtain rfl := Option.some.inj ht
    exact isScanned_word (hs.matched rfl) line
  | number =>
    obtain rfl := Option.some.inj ht
    exact isScanned_number (hs.matched rfl) line
  | string =>
    obtain rfl := Option.some.inj ht
    exact Token.isScanned_of_ne (fun hk => absurd (by simp) hk) (by simp) (.text _)
  | blank | comment | openString | stray => cases ht

theorem Source.isScanned_bodyFrom (line : Nat) (source : Bytes) :
    ∀ t ∈ bodyFrom line source, t.IsScanned := by
  induction source using segment_induction generalizing line with
  | nil => simp [bodyFrom, segments, segmentsFrom, Segment.located]
  | segment s rest hs ih =>
    intro t ht
    rw [bodyFrom_of_leads hs] at ht
    rcases List.mem_append.mp ht with ht | ht
    · exact Segment.isScanned_of_token? hs (Option.mem_toList.mp ht)
    · exact ih _ t ht

/-- A token of a kind that neither parentheses nor strings have is a word. -/
theorem Token.IsScanned.word_of {t : Token} (h : t.IsScanned) {p : Kind → Bool}
    (hp : p t.kind = true)
    (hno : [Kind.leftParen, .rightParen, .string].all (fun k => !p k) = true) :
    IsWord t.lexeme := by
  refine h.word fun hk => ?_
  have hnot := List.all_eq_true.mp hno t.kind hk
  rw [hp] at hnot
  cases hnot

end ScriptFront
