import ScriptFront.Proofs.Scan.Boundary
import ScriptFront.Proofs.Scan.Lines

/-! # Scanning line by line

Where a source begins on a later line, its tokens and reports are on lines that are later by as
much. Two sources with a line feed between them are scanned as each of them alone, whatever is
reported of the first, unless it leaves a string open. A comment may stand before the line feed: it
is cut off alone, or an earlier one goes on with it.
-/

namespace ScriptFront

open Segment

/-! ### On a later line -/

def Token.later (n : Nat) (t : Token) : Token := { t with line := t.line + n }

def Diagnostic.later (n : Nat) (d : Diagnostic) : Diagnostic := { d with line := d.line + n }

theorem Segment.token?_add (s : Segment) (line n : Nat) :
    s.token? (line + n : Nat) = (s.token? line).map (Token.later n) := by
  obtain ⟨kind, bytes⟩ := s
  cases kind <;> rfl

theorem Segment.diagnostic?_add (s : Segment) (line n : Nat) :
    s.diagnostic? (line + n : Nat) = (s.diagnostic? line).map (Diagnostic.later n) := by
  obtain ⟨kind, bytes⟩ := s
  cases kind <;> rfl

namespace Source

theorem scanFrom_add (line n : Nat) (source : Bytes) :
    scanFrom (line + n) source =
      ⟨(scanFrom line source).tokens.map (Token.later n),
        (scanFrom line source).diagnostics.map (Diagnostic.later n)⟩ := by
  induction source using segment_induction generalizing line with
  | nil =>
    simp [scanFrom, segments, segmentsFrom, located, lineAfter, Token.later, Token.ending]
  | segment s rest hs ih =>
    have hline : line + n + Bytes.newlines s.bytes = line + Bytes.newlines s.bytes + n := by omega
    rw [scanFrom_of_leads hs, scanFrom_of_leads hs, hline]
    simp only [ih, token?_add, diagnostic?_add, Option.toList_map, List.map_append]

/-! ### The end of a line -/

/-- What may stand before the end of a line and make no token: nothing, or a space and a comment. -/
inductive LineEnd : Bytes → Prop where
  | bare : LineEnd []
  | comment {mark line : Bytes} (hm : mark = text "//" ∨ mark = text "/*")
      (hl : Bytes.newline ∉ line) : LineEnd (byte ' ' :: mark ++ line)

theorem blank_leads {c : UInt8} (hc : isBlank c) (rest : Bytes) :
    (Segment.mk .blank [c]).Leads ([c] ++ rest) := by
  have hl := first_leads c rest
  rwa [first_of_blank hc] at hl

theorem scanFrom_blank {c : UInt8} (hc : isBlank c) (line : Nat) (rest : Bytes) :
    scanFrom line (c :: rest) = scanFrom (line + Bytes.newlines [c]) rest :=
  scanFrom_of_leads (s := ⟨.blank, [c]⟩) (blank_leads hc rest) line

theorem scanFrom_newline (line : Nat) (rest : Bytes) :
    scanFrom line (Bytes.newline :: rest) = scanFrom (line + 1) rest :=
  scanFrom_blank (by decide) line rest

theorem scanFrom_comment {comment : Bytes} (h : SegmentClass.comment.Matches comment) (line : Nat)
    (rest : Bytes) :
    scanFrom line (comment ++ Bytes.newline :: rest) = scanFrom (line + 1) rest := by
  let s : Segment := ⟨.comment, comment⟩
  have hs : s.Leads (s.bytes ++ Bytes.newline :: rest) :=
    .longest ((IsLongest.of_matches (s := s) h).append_blank (by decide) (fun _ _ => rfl) rest)
  have hzero : Bytes.newlines comment = 0 :=
    List.count_eq_zero.mpr (h.newline_notMem (by simp) (by simp))
  have hscan := scanFrom_of_leads hs line
  rw [show s.bytes = comment from rfl, hzero] at hscan
  exact hscan.trans (scanFrom_newline line rest)

theorem scanFrom_lineEnd {t : Bytes} (ht : LineEnd t) (line : Nat) (rest : Bytes) :
    scanFrom line (t ++ Bytes.newline :: rest) = scanFrom (line + 1) rest := by
  cases ht with
  | bare => exact scanFrom_newline line rest
  | @comment mark text hm hl =>
    have hspace := scanFrom_blank (c := byte ' ') (by decide) line
      (mark ++ text ++ Bytes.newline :: rest)
    exact hspace.trans (scanFrom_comment (.comment hm hl) line rest)

theorem comment_append_lineEnd {comment t : Bytes} (h : SegmentClass.comment.Matches comment)
    (ht : LineEnd t) : SegmentClass.comment.Matches (comment ++ t) := by
  have hline : Bytes.newline ∉ t := by
    cases ht with
    | bare => simp
    | @comment mark text hm hl =>
      have hmark : Bytes.newline ∉ byte ' ' :: mark := by rcases hm with rfl | rfl <;> decide
      exact fun hmem => (List.mem_append.mp hmem).elim hmark hl
  cases h with
  | @comment mark text hm hl =>
    rw [List.append_assoc]
    exact .comment hm fun hmem => (List.mem_append.mp hmem).elim hl hline

theorem exists_blank_lineEnd {t : Bytes} (ht : LineEnd t) (rest : Bytes) :
    ∃ c more, t ++ Bytes.newline :: rest = c :: more ∧ isBlank c := by
  cases ht with
  | bare => exact ⟨_, _, rfl, by decide⟩
  | comment hm hl => exact ⟨_, _, rfl, by decide⟩

/-! ### Sources one after the other -/

/-- Unless the first one leaves a string open, two sources on lines of their own give the tokens and
the reports that each of them gives on its lines. -/
theorem scanFrom_append_line {line : Nat} {a t : Bytes}
    (ha : ∀ d ∈ (scanFrom line a).diagnostics, d.problem ≠ .unterminatedString) (ht : LineEnd t)
    (b : Bytes) :
    let next := scanFrom (line + Bytes.newlines a + 1) b
    scanFrom line (a ++ (t ++ Bytes.newline :: b)) =
      ⟨bodyFrom line a ++ next.tokens, (scanFrom line a).diagnostics ++ next.diagnostics⟩ := by
  induction a using segment_induction generalizing line with
  | nil => exact scanFrom_lineEnd ht line b
  | segment s rest hs ih =>
    intro next
    rw [diagnostics_of_leads hs] at ha ⊢
    obtain ⟨hfirst, hrest⟩ := List.forall_mem_append.mp ha
    by_cases hend : s.kind = .comment ∧ rest = []
    · -- The comment takes in what stands before the end of the line.
      obtain ⟨kind, bytes⟩ := s
      obtain ⟨rfl, rfl⟩ := hend
      have hm : SegmentClass.comment.Matches bytes := hs.matched rfl
      have hzero : Bytes.newlines bytes = 0 :=
        List.count_eq_zero.mpr (hm.newline_notMem (by simp) (by simp))
      have hscan := scanFrom_comment (comment_append_lineEnd hm ht) line b
      rw [bodyFrom_of_leads hs]
      simp only [next, List.append_nil, hzero, Nat.add_zero]
      rw [← List.append_assoc, hscan]
      rfl
    · obtain ⟨c, more, htail, hc⟩ := exists_blank_lineEnd ht b
      have hopen : s.kind ≠ .openString := by
        intro hk
        simp [diagnostic?, hk, Diagnostic.atLine] at hfirst
      have hlong : s.Leads (s.bytes ++ (rest ++ (t ++ Bytes.newline :: b))) := by
        rw [← List.append_assoc, htail]
        refine hs.append_blank hopen hc (fun hk hb => ?_) more
        exact absurd ⟨hk, List.self_eq_append_right.mp hb⟩ hend
      rw [List.append_assoc, scanFrom_of_leads hlong, bodyFrom_of_leads hs]
      simp only [next, ih hrest, newlines_append, List.append_assoc, Nat.add_assoc]

theorem scanFrom_append_newline {line : Nat} {a : Bytes} (h : (scanFrom line a).diagnostics = [])
    (b : Bytes) :
    bodyFrom line (a ++ Bytes.newline :: b) =
        bodyFrom line a ++ bodyFrom (line + Bytes.newlines a + 1) b ∧
      (scanFrom line (a ++ Bytes.newline :: b)).diagnostics =
        (scanFrom (line + Bytes.newlines a + 1) b).diagnostics := by
  have ha : ∀ d ∈ (scanFrom line a).diagnostics, d.problem ≠ .unterminatedString := by simp [h]
  have hscan := scanFrom_append_line ha .bare b
  rw [List.nil_append] at hscan
  have htokens := congrArg Scan.tokens hscan
  constructor
  · have hline : line + Bytes.newlines (a ++ Bytes.newline :: b) =
        line + Bytes.newlines a + 1 + Bytes.newlines b := by
      rw [newlines_append, Bytes.newlines, Bytes.newlines, Bytes.newlines, List.count_cons_self]
      omega
    rw [tokens_scanFrom, tokens_scanFrom, hline, ← List.append_assoc] at htokens
    exact List.append_cancel_right htokens
  · rw [hscan, h]
    rfl

theorem diagnostics_scanFrom_eq_nil {line : Nat} {source : Bytes}
    (h : (scanFrom line source).diagnostics = []) (line' : Nat) :
    (scanFrom line' source).diagnostics = [] := by
  induction source using segment_induction generalizing line line' with
  | nil => rfl
  | segment s rest hs ih =>
    rw [diagnostics_of_leads hs, List.append_eq_nil_iff, Option.toList_eq_nil_iff] at h
    rw [diagnostics_of_leads hs, List.append_eq_nil_iff, Option.toList_eq_nil_iff]
    refine ⟨?_, ih h.2 _⟩
    have hnone := h.1
    obtain ⟨kind, bytes⟩ := s
    cases kind with
    | openString | stray => cases hnone
    | symbol | word | number | string | blank | comment => rfl

end Source

/-- Scanning goes on after the end of a line as at the beginning of a source. Unless a string was
left open before it, the tokens and the reports are those of the first part, followed by those of
the second on lines that are later by the lines of the first. -/
theorem scan_append_line {a t : Bytes}
    (ha : ∀ d ∈ (scan a).diagnostics, d.problem ≠ .unterminatedString) (ht : Source.LineEnd t)
    (b : Bytes) :
    let whole := scan (a ++ t ++ Bytes.newline :: b)
    let lines := 1 + Bytes.newlines a
    whole.tokens = (scan a).tokens.dropLast ++ (scan b).tokens.map (Token.later lines) ∧
      whole.diagnostics =
        (scan a).diagnostics ++ (scan b).diagnostics.map (Diagnostic.later lines) := by
  intro whole lines
  have hwhole := Source.scanFrom_append_line ha ht b
  have hline : 1 + Bytes.newlines a + 1 = 1 + lines := by omega
  rw [← List.append_assoc, hline, Source.scanFrom_add] at hwhole
  have hbody : (scan a).tokens.dropLast = Source.bodyFrom 1 a := List.dropLast_concat
  rw [hbody]
  exact ⟨congrArg Scan.tokens hwhole, congrArg Scan.diagnostics hwhole⟩

/-- A point without a digit, a single `&` and a broken encoding are as they were, although a comment
with a quote in it follows; the string after the comment goes over two lines. -/
theorem scan_append_line_brokenEncoding :
    let a := text "1.\n&" ++ [0xE2, 0x82]
    let t := byte ' ' :: text "/*" ++ text " \""
    let b := text "\"y\nz\" $"
    let whole := scan (a ++ t ++ Bytes.newline :: b)
    (scan a).diagnostics.map Diagnostic.line = [2, 2, 2] ∧
      (scan b).diagnostics.map Diagnostic.line = [2] ∧
      whole.tokens = (scan a).tokens.dropLast ++ (scan b).tokens.map (Token.later 2) ∧
      whole.diagnostics =
        (scan a).diagnostics ++ (scan b).diagnostics.map (Diagnostic.later 2) := by
  intro a t b whole
  have ha : ∀ d ∈ (scan a).diagnostics, d.problem ≠ .unterminatedString := by decide
  have ht : Source.LineEnd t := .comment (.inr rfl) (by decide)
  exact ⟨by decide, by decide, scan_append_line ha ht b⟩

end ScriptFront
