import ScriptFront.Proofs.Scan.LineByLine

/-! # Lexemes with blanks between them

Every lexeme that was cut out of a source is cut off again as a whole where a blank or nothing
follows it. So the lexemes of a source, written in their order with blanks between them, are scanned
as the same tokens, whatever was rejected between them.
-/

namespace ScriptFront

open Segment

namespace Source

/-- A text of words, each with the blanks that follow it. -/
def spaced (lead : Bytes) (words : List (Bytes × Bytes)) : Bytes :=
  lead ++ words.flatMap fun (word, gap) => word ++ gap

/-- There are only blanks around the words, and some between every two of them. -/
structure IsSpacing (lead : Bytes) (words : List (Bytes × Bytes)) : Prop where
  lead : ∀ b ∈ lead, isBlank b
  gaps : ∀ w ∈ words, ∀ b ∈ w.2, isBlank b
  apart : ∀ w ∈ words.dropLast, w.2 ≠ []

theorem scanFrom_blanks {gap : Bytes} (h : ∀ b ∈ gap, isBlank b) (line : Nat) (rest : Bytes) :
    scanFrom line (gap ++ rest) = scanFrom (line + Bytes.newlines gap) rest := by
  induction gap generalizing line with
  | nil => rfl
  | cons b gap ih =>
    obtain ⟨hb, hgap⟩ := List.forall_mem_cons.mp h
    have hcount : Bytes.newlines (b :: gap) = Bytes.newlines [b] + Bytes.newlines gap :=
      newlines_append [b] gap
    rw [List.cons_append, scanFrom_blank hb, ih hgap, hcount, Nat.add_assoc]

end Source

/-- The token was made of a stretch of bytes of its class. -/
def Token.IsCut (t : Token) : Prop :=
  ∃ s : Segment, s.kind.Matches s.bytes ∧ s.token? t.line = some t

namespace Segment

variable {s : Segment} {line : Int} {t : Token}

theorem lexeme_of_token? (h : s.token? line = some t) : t.lexeme = s.bytes := by
  obtain ⟨kind, bytes⟩ := s
  cases kind with
  | symbol | word | number | string =>
    obtain rfl := Option.some.inj h
    rfl
  | blank | comment | openString | stray => cases h

theorem isInhabited_of_token? (h : s.token? line = some t) :
    s.kind.isInhabited ∧ s.kind ≠ .comment := by
  obtain ⟨kind, bytes⟩ := s
  cases kind with
  | symbol | word | number | string => simp [SegmentClass.isInhabited]
  | blank | comment | openString | stray => cases h

theorem token?_of_token? (h : s.token? line = some t) (line' : Int) :
    s.token? line' = some { t with line := line' } ∧ s.diagnostic? line' = none := by
  obtain ⟨kind, bytes⟩ := s
  cases kind with
  | symbol | word | number | string =>
    obtain rfl := Option.some.inj h
    exact ⟨rfl, rfl⟩
  | blank | comment | openString | stray => cases h

/-- A stretch of bytes that belongs to a class is cut off whole before a blank. -/
theorem leads_of_matches (h : s.kind.Matches s.bytes) (hk : s.kind ≠ .comment) {rest : Bytes}
    (hr : ∀ b ∈ rest.head?, isBlank b) : s.Leads (s.bytes ++ rest) := by
  have halone := IsLongest.of_matches h
  cases rest with
  | nil =>
    rw [List.append_nil]
    exact .longest halone
  | cons b rest => exact .longest (halone.append_blank (hr b rfl) (fun hc => absurd hc hk) rest)

end Segment

namespace Source

theorem isCut_of_mem_bodyFrom (line : Nat) (source : Bytes) :
    ∀ t ∈ bodyFrom line source, t.IsCut := by
  induction source using segment_induction generalizing line with
  | nil => simp [bodyFrom, segments, segmentsFrom, located]
  | segment s rest hs ih =>
    intro t ht
    rw [bodyFrom_of_leads hs] at ht
    rcases List.mem_append.mp ht with ht | ht
    · have hs' := Option.mem_toList.mp ht
      exact ⟨s, hs.matched (isInhabited_of_token? hs').1, line_of_token? hs' ▸ hs'⟩
    · exact ih _ t ht

/-- Lexemes with blanks after them are scanned one after the other. The induction is on the words;
the blanks after the first are skipped before the next one. -/
theorem scanFrom_spaced {ts : List Token} (hts : ∀ t ∈ ts, t.IsCut) {words : List (Bytes × Bytes)}
    (hw : words.map Prod.fst = ts.map Token.lexeme) {lead : Bytes} (hs : IsSpacing lead words)
    (line : Nat) :
    ∃ tokens, scanFrom line (spaced lead words) =
        ⟨tokens ++ [Token.ending (line + Bytes.newlines (spaced lead words) : Nat)], []⟩ ∧
      List.Forall₂ Token.SameText ts tokens := by
  induction words generalizing ts lead line with
  | nil =>
    obtain rfl : ts = [] := List.map_eq_nil_iff.mp hw.symm
    refine ⟨[], ?_, .nil⟩
    rw [spaced, scanFrom_blanks hs.lead, newlines_append, ← Nat.add_assoc]
    rfl
  | cons w words ih =>
    obtain ⟨word, gap⟩ := w
    obtain ⟨t, ts, rfl, hword, hwords⟩ := List.map_eq_cons_iff.mp hw.symm
    obtain ⟨ht, hts⟩ := List.forall_mem_cons.mp hts
    obtain ⟨hgap, hgaps⟩ := List.forall_mem_cons.mp hs.gaps
    obtain ⟨s, hm, hs'⟩ := ht
    obtain rfl : word = s.bytes := by
      rw [← lexeme_of_token? hs']
      exact hword.symm
    have hmore : IsSpacing gap words := by
      refine ⟨hgap, hgaps, fun w hw => hs.apart w ?_⟩
      cases words with
      | nil => cases hw
      | cons w' words => exact List.mem_cons_of_mem _ hw
    -- What follows the word is empty or begins with a blank.
    have hnext : ∀ b ∈ (spaced gap words).head?, isBlank b := by
      cases gap with
      | cons b gap => simpa [spaced] using (List.forall_mem_cons.mp hgap).1
      | nil =>
        cases words with
        | nil => simp [spaced]
        | cons w' words => exact absurd rfl (hs.apart _ List.mem_cons_self)
    have hleads := leads_of_matches hm (isInhabited_of_token? hs').2 hnext
    have htext : spaced lead ((s.bytes, gap) :: words) = lead ++ (s.bytes ++ spaced gap words) := by
      simp [spaced]
    let next := line + Bytes.newlines lead + Bytes.newlines s.bytes
    obtain ⟨tokens, hscan, hsame⟩ := ih hts hwords.symm hmore next
    obtain ⟨htoken, hreport⟩ := token?_of_token? hs' next
    refine ⟨{ t with line := next } :: tokens, ?_, .cons ⟨rfl, rfl, rfl⟩ hsame⟩
    rw [htext, scanFrom_blanks hs.lead, scanFrom_of_leads hleads]
    simp only [next, newlines_append, ← Nat.add_assoc] at htoken hreport hscan ⊢
    rw [htoken, hreport, hscan]
    rfl

end Source

/-- The lexemes of a source, in their order and with blanks between them, are scanned without any
report, and as tokens of the same kinds, lexemes and values. -/
theorem scan_spaced {source lead : Bytes} {words : List (Bytes × Bytes)}
    (hw : words.map Prod.fst = (scan source).tokens.dropLast.map Token.lexeme)
    (hs : Source.IsSpacing lead words) :
    let again := scan (Source.spaced lead words)
    again.diagnostics = [] ∧ ∃ tokens line, again.tokens = tokens ++ [Token.ending line] ∧
      List.Forall₂ Token.SameText (scan source).tokens.dropLast tokens := by
  intro again
  have hbody : (scan source).tokens.dropLast = Source.bodyFrom 1 source := List.dropLast_concat
  rw [hbody] at hw ⊢
  obtain ⟨tokens, hscan, hsame⟩ :=
    Source.scanFrom_spaced (Source.isCut_of_mem_bodyFrom 1 source) hw hs 1
  exact ⟨congrArg Scan.diagnostics hscan, tokens, _, congrArg Scan.tokens hscan, hsame⟩

/-- Of `1.5.x-1=&"a\n//"` the single `&` is left out, and what remains is written on several
lines. -/
theorem scan_spaced_rejected :
    let source := text "1.5.x-1=&\"a\n//\""
    let words := [(text "1.5", text " "), (text ".", text "\n"), (text "x-1", text " \t"),
      (text "=", text "\r\n"), (text "\"a\n//\"", [])]
    let again := scan (Source.spaced (text "\n") words)
    (scan source).diagnostics.length = 1 ∧ again.diagnostics = [] ∧
      ∃ tokens line, again.tokens = tokens ++ [Token.ending line] ∧
        List.Forall₂ Token.SameText (scan source).tokens.dropLast tokens := by
  intro source words again
  have hw : words.map Prod.fst = (scan source).tokens.dropLast.map Token.lexeme := by decide
  have hlead : (text "\n").all Segment.isBlank := by decide
  have hgaps : ∀ w ∈ words, w.2.all Segment.isBlank := by decide
  have hs : Source.IsSpacing (text "\n") words :=
    ⟨List.all_eq_true.mp hlead, fun w hw => List.all_eq_true.mp (hgaps w hw), by decide⟩
  exact ⟨by decide, scan_spaced hw hs⟩

end ScriptFront
