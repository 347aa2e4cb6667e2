import ScriptFront.Proofs.Scan.Breaks
import ScriptFront.Proofs.Scan.Number

/-! # Scanning by the longest match

The segments of a source are those that the rule of the longest match cuts off one after the
other, and scanning makes of them the tokens and the reports that their classes stand for.
-/

namespace ScriptFront

/-- The token or the report that a segment gives when it ends on `line`. -/
inductive Segment.Gives (line : Int) : Segment → Option Token → Option Diagnostic → Prop where
  | blank (bytes : Bytes) : Gives line ⟨.blank, bytes⟩ none none
  | comment (bytes : Bytes) : Gives line ⟨.comment, bytes⟩ none none
  | symbol (k : Kind) (bytes : Bytes) :
      Gives line ⟨.symbol k, bytes⟩ (some ⟨k, bytes, line, .null⟩) none
  | word (bytes : Bytes) :
      Gives line ⟨.word, bytes⟩ (some ⟨Kind.ofWord bytes, bytes, line, .null⟩) none
  | number {bytes : Bytes} {x : Binary64} (hx : Numeral.read? bytes = some x) :
      Gives line ⟨.number, bytes⟩ (some ⟨.number, bytes, line, .number x⟩) none
  | string (inner : Bytes) : Gives line ⟨.string, byte '"' :: inner ++ [byte '"']⟩
      (some ⟨.string, byte '"' :: inner ++ [byte '"'], line, .text inner⟩) none
  | openString (bytes : Bytes) :
      Gives line ⟨.openString, bytes⟩ none (some (.atLine line .unterminatedString))
  | stray (unit : Rune) (bytes : Bytes) :
      Gives line ⟨.stray unit, bytes⟩ none (some (.atLine line (.unexpectedCharacter unit)))

/-- Scanning by the longest match from a line on: the segments a source is cut into, and what
they give. -/
inductive Scans : Nat → Bytes → List Segment → Scan → Prop where
  | ending (line : Nat) : Scans line [] [] ⟨[Token.ending line], []⟩
  | segment {line : Nat} {s : Segment} {rest : Bytes} {t : Option Token} {d : Option Diagnostic}
      {more : List Segment} {scan : Scan} (hs : s.Leads (s.bytes ++ rest))
      (hg : s.Gives (line + Bytes.newlines s.bytes : Nat) t d)
      (hrest : Scans (line + Bytes.newlines s.bytes) rest more scan) :
      Scans line (s.bytes ++ rest) (s :: more)
        ⟨t.toList ++ scan.tokens, d.toList ++ scan.diagnostics⟩

namespace Segment

variable {s : Segment} {source : Bytes} {line : Int} {t : Option Token} {d : Option Diagnostic}

theorem Gives.eq (h : s.Gives line t d) (hs : s.Leads source) :
    t = s.token? line ∧ d = s.diagnostic? line := by
  cases h with
  | number hx =>
    obtain ⟨y, hy, hv⟩ := Numeral.exists_read?_of_matches (hs.matched rfl)
    obtain rfl : y = _ := Option.some.inj (hy.symm.trans hx)
    simp [token?, diagnostic?, hv]
  | string inner => simp [token?, diagnostic?]
  | blank | comment | symbol | word | openString | stray => exact ⟨rfl, rfl⟩

theorem gives_of_leads (hs : s.Leads source) (line : Int) :
    s.Gives line (s.token? line) (s.diagnostic? line) := by
  obtain ⟨kind, bytes⟩ := s
  cases kind with
  | blank => exact .blank bytes
  | comment => exact .comment bytes
  | symbol k => exact .symbol k bytes
  | word => exact .word bytes
  | number =>
    obtain ⟨x, hx, hv⟩ := Numeral.exists_read?_of_matches (hs.matched rfl)
    simp only [token?, hv]
    exact .number hx
  | string =>
    have hm : SegmentClass.string.Matches bytes := hs.matched rfl
    cases hm with
    | @string inner hi =>
      have hinner : ((byte '"' :: inner ++ [byte '"']).drop 1).dropLast = inner := by simp
      simp only [token?, hinner]
      exact .string inner
  | openString => exact .openString bytes
  | stray unit => exact .stray unit bytes

theorem kind_ne_eof {t : Token} (hs : s.Leads source) (ht : s.token? line = some t) :
    t.kind ≠ .eof := by
  obtain ⟨kind, bytes⟩ := s
  cases kind with
  | symbol k =>
    have hm : (SegmentClass.symbol k).Matches bytes := hs.matched rfl
    obtain rfl := Option.some.inj ht
    cases hm with
    | symbol h =>
      rintro rfl
      cases h
  | word =>
    have hall : ∀ e ∈ Kind.keywords, e.2 ≠ .eof := by decide
    obtain rfl := Option.some.inj ht
    change Kind.ofWord bytes ≠ .eof
    unfold Kind.ofWord
    cases hf : Kind.keywords.find? (fun entry => text entry.1 == bytes) with
    | none => simp
    | some e => exact hall e (List.mem_of_find?_eq_some hf)
  | number | string =>
    obtain rfl := Option.some.inj ht
    simp
  | blank | comment | openString | stray => cases ht

end Segment

namespace Source

theorem segmentsFrom_eq_segments_drop (skip : Nat) (source : Bytes) :
    segmentsFrom skip source = segments (source.drop skip) := by
  induction source generalizing skip with
  | nil => simp [segments, segmentsFrom]
  | cons b rest ih =>
    cases skip with
    | zero => rfl
    | succ skip => exact ih skip

/-- A source is cut into its first segment and the segments of the rest. -/
theorem segments_of_leads {s : Segment} {rest : Bytes} (h : s.Leads (s.bytes ++ rest)) :
    segments (s.bytes ++ rest) = s :: segments rest := by
  obtain ⟨b, more, hb⟩ := List.exists_cons_of_ne_nil h.bytes_ne_nil
  have hfirst : s = Segment.first b (more ++ rest) := by
    rw [hb] at h
    exact h.eq_first
  have hskip : (more ++ rest).drop (s.bytes.length - 1) = rest := by simp [hb]
  calc segments (s.bytes ++ rest)
      = segmentsFrom 0 (b :: (more ++ rest)) := by rw [hb]; rfl
    _ = s :: segmentsFrom (s.bytes.length - 1) (more ++ rest) := by rw [segmentsFrom, ← hfirst]
    _ = s :: segments rest := by rw [segmentsFrom_eq_segments_drop, hskip]

/-- What the first segment of a source adds to the scan of the rest. -/
theorem scanFrom_of_leads {s : Segment} {rest : Bytes} (h : s.Leads (s.bytes ++ rest)) (line : Nat) :
    scanFrom line (s.bytes ++ rest) =
      let next := line + Bytes.newlines s.bytes
      ⟨(s.token? next).toList ++ (scanFrom next rest).tokens,
        (s.diagnostic? next).toList ++ (scanFrom next rest).diagnostics⟩ := by
  simp only [scanFrom, segments_of_leads h, Segment.located, Segment.lineAfter, List.foldl_cons,
    ← h.newlines_eq_breaks, List.filterMap_cons]
  cases s.token? (line + Bytes.newlines s.bytes : Nat) <;>
    cases s.diagnostic? (line + Bytes.newlines s.bytes : Nat) <;> rfl

theorem exists_leads (b : UInt8) (rest : Bytes) :
    ∃ (s : Segment) (more : Bytes), b :: rest = s.bytes ++ more ∧ s.Leads (s.bytes ++ more) := by
  obtain ⟨more, hmore⟩ := Segment.first_isPrefix b rest
  exact ⟨Segment.first b rest, more, hmore.symm, hmore ▸ Segment.first_leads b rest⟩

/-- One may reason about a source segment by segment. -/
theorem segment_induction {motive : Bytes → Prop} (nil : motive [])
    (segment : ∀ (s : Segment) (rest : Bytes), s.Leads (s.bytes ++ rest) → motive rest →
      motive (s.bytes ++ rest)) (source : Bytes) : motive source := by
  induction hn : source.length using Nat.strong_induction_on generalizing source with
  | _ n ih =>
    cases source with
    | nil => exact nil
    | cons b rest =>
      obtain ⟨s, more, hs, hl⟩ := exists_leads b rest
      have hlength : more.length < n := by
        have hpos := List.length_pos_iff.mpr hl.bytes_ne_nil
        rw [← hn, hs, List.length_append]
        omega
      rw [hs]
      exact segment s more hl (ih _ hlength more rfl)

/-- The lines that are gone through are those of the source. -/
theorem lineAfter_segments (line : Nat) (source : Bytes) :
    Segment.lineAfter line (segments source) = line + Bytes.newlines source := by
  induction source using segment_induction generalizing line with
  | nil => rfl
  | segment s rest hs ih =>
    rw [segments_of_leads hs, newlines_append, ← Nat.add_assoc, hs.newlines_eq_breaks]
    exact ih (line + s.breaks)

theorem bytes_ne_nil_of_mem (source : Bytes) : ∀ s ∈ segments source, s.bytes ≠ [] := by
  induction source using segment_induction with
  | nil => simp [segments, segmentsFrom]
  | segment s rest hs ih =>
    rw [segments_of_leads hs]
    exact List.forall_mem_cons.mpr ⟨hs.bytes_ne_nil, ih⟩

/-- The input ends once, after the tokens of its segments. -/
theorem exists_tokens_scanFrom (line : Nat) (source : Bytes) :
    ∃ tokens, (scanFrom line source).tokens =
        tokens ++ [Token.ending (line + Bytes.newlines source : Nat)] ∧
      ∀ t ∈ tokens, t.kind ≠ .eof := by
  induction source using segment_induction generalizing line with
  | nil => exact ⟨[], rfl, by simp⟩
  | segment s rest hs ih =>
    obtain ⟨tokens, ht, hk⟩ := ih (line + Bytes.newlines s.bytes)
    refine ⟨(s.token? (line + Bytes.newlines s.bytes : Nat)).toList ++ tokens, ?_, fun t hmem => ?_⟩
    · simp only [scanFrom_of_leads hs, ht, newlines_append, Nat.add_assoc, List.append_assoc]
    · rcases List.mem_append.mp hmem with hmem | hmem
      · exact Segment.kind_ne_eof hs (Option.mem_toList.mp hmem)
      · exact hk t hmem

end Source

namespace Scans

theorem scanFrom (line : Nat) (source : Bytes) :
    Scans line source (Source.segments source) (Source.scanFrom line source) := by
  induction source using Source.segment_induction generalizing line with
  | nil => exact .ending line
  | segment s rest hs ih =>
    rw [Source.segments_of_leads hs, Source.scanFrom_of_leads hs]
    exact .segment hs (Segment.gives_of_leads hs _) (ih _)

theorem eq_scanFrom {line : Nat} {source : Bytes} {segments : List Segment} {result : Scan}
    (h : Scans line source segments result) :
    segments = Source.segments source ∧ result = Source.scanFrom line source := by
  induction h with
  | ending line => exact ⟨rfl, rfl⟩
  | segment hs hg _ ih =>
    obtain ⟨rfl, rfl⟩ := ih
    obtain ⟨rfl, rfl⟩ := hg.eq hs
    rw [Source.segments_of_leads hs, Source.scanFrom_of_leads hs]
    exact ⟨rfl, rfl⟩

end Scans

/-- Scanning is tokenization by the longest match: of every source it gives the tokens and the
reports of the segments that this rule cuts off, and of no others. The segments are not empty and
make up the source, and the input ends once. -/
theorem scan_eq_longestMatch (source : Bytes) :
    (∀ (segments : List Segment) (result : Scan), Scans 1 source segments result ↔
      segments = Source.segments source ∧ result = scan source) ∧
    (Source.segments source).flatMap Segment.bytes = source ∧
    (∀ s ∈ Source.segments source, s.bytes ≠ []) ∧
    ∃ tokens, (scan source).tokens =
        tokens ++ [Token.ending (1 + Bytes.newlines source : Nat)] ∧
      ∀ t ∈ tokens, t.kind ≠ .eof := by
  have hscans (segments : List Segment) (result : Scan) : Scans 1 source segments result ↔
      segments = Source.segments source ∧ result = scan source := by
    constructor
    · intro h
      exact h.eq_scanFrom
    · rintro ⟨rfl, rfl⟩
      exact Scans.scanFrom 1 source
  exact ⟨hscans, Source.segments_flatMap_bytes source, Source.bytes_ne_nil_of_mem source,
    Source.exists_tokens_scanFrom 1 source⟩

-- A point without a digit after it is not part of a number, and a single `&` is no symbol.
example : (Source.segments (text "1.-a-1&")).map Segment.kind =
    [.number, .symbol .dot, .symbol .minus, .word, .stray (.char '&')] := by decide

end ScriptFront
