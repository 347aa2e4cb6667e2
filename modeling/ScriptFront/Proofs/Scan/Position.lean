import ScriptFront.Proofs.Scan.Boundary
import ScriptFront.Proofs.Scan.Lines

/-! # Lines are exact

The line of a token or a report is one more than the number of line feeds before the end of the
segment it was made of.
-/

namespace ScriptFront

open Segment

/-- A string that is left open goes to the end of the source. -/
theorem Segment.Leads.bytes_of_openString {s : Segment} {source : Bytes} (h : s.Leads source)
    (hk : s.kind = .openString) : s.bytes = source := by
  cases h with
  | longest h =>
    have hm := h.matched
    rw [hk] at hm
    cases hm
  | openString => rfl
  | character | loneByte => cases hk

/-! ### Places in a source -/

/-- A segment and the offset just after it. -/
structure Piece where
  segment : Segment
  stop : Nat

namespace Source

def piecesFrom (start : Nat) : List Segment → List Piece
  | [] => []
  | s :: more => ⟨s, start + s.bytes.length⟩ :: piecesFrom (start + s.bytes.length) more

def pieces (source : Bytes) : List Piece := piecesFrom 0 (segments source)

/-- The line of the place at an offset. -/
def lineAt (source : Bytes) (offset : Nat) : Nat := 1 + Bytes.newlines (source.take offset)

theorem lineAt_mono (source : Bytes) {m n : Nat} (h : m ≤ n) :
    lineAt source m ≤ lineAt source n := by
  have hcount := (List.take_sublist_take_left (l := source) h).count_le Bytes.newline
  exact Nat.add_le_add_left hcount 1

theorem lineAt_length (source : Bytes) :
    lineAt source source.length = 1 + Bytes.newlines source := by
  rw [lineAt, List.take_length]

end Source

/-- The piece is a part of the source that ends at its offset. -/
structure Piece.StandsIn (source : Bytes) (p : Piece) : Prop where
  stop_le : p.stop ≤ source.length
  ends : p.segment.bytes <:+ source.take p.stop
  openString : p.segment.kind = .openString → p.stop = source.length
  breaks : Bytes.newlines p.segment.bytes = p.segment.breaks

namespace Source

theorem take_append_append (before bytes rest : Bytes) :
    (before ++ (bytes ++ rest)).take (before.length + bytes.length) = before ++ bytes := by
  rw [← List.append_assoc, ← List.length_append, List.take_left]

/-- Moving the first segment of `rest` to what stands before it keeps all later offsets. -/
theorem standsIn_piecesFrom (before rest : Bytes) :
    ∀ p ∈ piecesFrom before.length (segments rest), p.StandsIn (before ++ rest) := by
  induction rest using segment_induction generalizing before with
  | nil => simp [segments, segmentsFrom, piecesFrom]
  | segment s rest hs ih =>
    have hmore := ih (before ++ s.bytes)
    rw [List.length_append, List.append_assoc] at hmore
    rw [segments_of_leads hs, piecesFrom]
    refine List.forall_mem_cons.mpr ⟨⟨?_, ?_, fun hk => ?_, hs.newlines_eq_breaks⟩, hmore⟩
    · simp
    · rw [take_append_append]
      exact List.suffix_append before s.bytes
    · have hlength := congrArg List.length (hs.bytes_of_openString hk)
      rw [List.length_append, ← hlength]

theorem map_segment_piecesFrom (start : Nat) (segments : List Segment) :
    (piecesFrom start segments).map Piece.segment = segments := by
  induction segments generalizing start with
  | nil => rfl
  | cons s segments ih => rw [piecesFrom, List.map_cons, ih]

/-- The pieces make up the source. -/
theorem flatMap_bytes_pieces (source : Bytes) :
    (pieces source).flatMap (·.segment.bytes) = source := by
  rw [← List.flatMap_map Piece.segment, pieces, map_segment_piecesFrom, segments_flatMap_bytes]

theorem located_eq_map_piecesFrom (before rest : Bytes) :
    located (1 + Bytes.newlines before) (segments rest) =
      (piecesFrom before.length (segments rest)).map fun p =>
        (lineAt (before ++ rest) p.stop, p.segment) := by
  induction rest using segment_induction generalizing before with
  | nil => rfl
  | segment s rest hs ih =>
    have hmore := ih (before ++ s.bytes)
    rw [List.length_append, List.append_assoc, newlines_append, ← Nat.add_assoc] at hmore
    have hline : lineAt (before ++ (s.bytes ++ rest)) (before.length + s.bytes.length) =
        1 + Bytes.newlines before + Bytes.newlines s.bytes := by
      rw [lineAt, take_append_append, newlines_append, Nat.add_assoc]
    rw [segments_of_leads hs, located, ← hs.newlines_eq_breaks, piecesFrom, List.map_cons, ← hmore,
      hline]

theorem pairwise_stop_piecesFrom (start : Nat) (segments : List Segment) :
    (∀ p ∈ piecesFrom start segments, start ≤ p.stop) ∧
      (piecesFrom start segments).Pairwise fun p q => p.stop ≤ q.stop := by
  induction segments generalizing start with
  | nil => simp [piecesFrom]
  | cons s segments ih =>
    obtain ⟨hbound, hpairs⟩ := ih (start + s.bytes.length)
    refine ⟨List.forall_mem_cons.mpr ⟨Nat.le_add_right _ _, fun p hp => ?_⟩, .cons hbound hpairs⟩
    exact (Nat.le_add_right _ _).trans (hbound p hp)

theorem located_eq_map_pieces (source : Bytes) :
    located 1 (segments source) =
      (pieces source).map fun p => (lineAt source p.stop, p.segment) :=
  located_eq_map_piecesFrom [] source

theorem tokens_eq_filterMap (source : Bytes) :
    (scan source).tokens =
      ((pieces source).filterMap fun p => p.segment.token? (lineAt source p.stop)) ++
        [Token.ending (lineAt source source.length)] := by
  rw [tokens_scan, bodyFrom, lineAt_length, located_eq_map_pieces, List.filterMap_map]
  rfl

theorem diagnostics_eq_filterMap (source : Bytes) :
    (scan source).diagnostics =
      (pieces source).filterMap fun p => p.segment.diagnostic? (lineAt source p.stop) := by
  simp only [scan, scanFrom, located_eq_map_pieces, List.filterMap_map]
  rfl

end Source

/-! ### Tokens and reports -/

/-- The token was made of the piece and is on the line where the piece ends. -/
structure Token.EndsWith (source : Bytes) (t : Token) (p : Piece) : Prop where
  made : p.segment.token? t.line = some t
  line_eq : t.line = Source.lineAt source p.stop

structure Diagnostic.EndsWith (source : Bytes) (d : Diagnostic) (p : Piece) : Prop where
  made : p.segment.diagnostic? d.line = some d
  line_eq : d.line = Source.lineAt source p.stop

def Segment.makesToken (s : Segment) : Bool := (s.token? 0).isSome

def Segment.makesReport (s : Segment) : Bool := (s.diagnostic? 0).isSome

theorem Segment.isSome_token? (s : Segment) (line : Int) :
    (s.token? line).isSome = s.makesToken := by
  obtain ⟨kind, bytes⟩ := s
  cases kind <;> rfl

theorem Segment.isSome_diagnostic? (s : Segment) (line : Int) :
    (s.diagnostic? line).isSome = s.makesReport := by
  obtain ⟨kind, bytes⟩ := s
  cases kind <;> rfl

theorem Segment.line_of_diagnostic? {s : Segment} {line : Int} {d : Diagnostic}
    (h : s.diagnostic? line = some d) : d.line = line := by
  obtain ⟨kind, bytes⟩ := s
  cases kind with
  | openString | stray =>
    obtain rfl := Option.some.inj h
    rfl
  | symbol | word | number | string | blank | comment => cases h

theorem forall₂_filterMap_filter {α β : Type} {R : β → α → Prop} {f : α → Option β} {p : α → Bool}
    (hp : ∀ a, (f a).isSome = p a) (hR : ∀ a b, f a = some b → R b a) (l : List α) :
    List.Forall₂ R (l.filterMap f) (l.filter p) := by
  induction l with
  | nil => exact .nil
  | cons a l ih =>
    cases hf : f a with
    | none =>
      have ha : ¬p a = true := by simp [← hp, hf]
      rwa [List.filterMap_cons_none hf, List.filter_cons_of_neg ha]
    | some b =>
      have ha : p a = true := by simp [← hp, hf]
      rw [List.filterMap_cons_some hf, List.filter_cons_of_pos ha]
      exact .cons (hR a b hf) ih

theorem Source.pairwise_line_tokens (source : Bytes) :
    (scan source).tokens.Pairwise fun t u => t.line ≤ u.line := by
  rw [tokens_scan]
  refine List.pairwise_append.mpr
    ⟨pairwise_line_bodyFrom 1 source, List.pairwise_singleton _ _, fun t ht u hu => ?_⟩
  rw [List.mem_singleton.mp hu]
  exact (line_bounds_bodyFrom 1 source t ht).2

theorem Source.pairwise_line_diagnostics (source : Bytes) :
    (scan source).diagnostics.Pairwise fun d e => d.line ≤ e.line := by
  rw [diagnostics_eq_filterMap]
  refine List.pairwise_filterMap.mpr ((pairwise_stop_piecesFrom 0 _).2.imp ?_)
  intro p q hle d hd e he
  rw [Segment.line_of_diagnostic? hd, Segment.line_of_diagnostic? he]
  exact Int.ofNat_le.mpr (lineAt_mono source hle)

/-- Lines are exact. The source is made up of pieces. Every token but the last and every report is
made of one of them and is on the line of the offset where that piece ends, which for a string that
is left open is the end of the source. The last token is on the last line. So neither the lines of
the tokens nor those of the reports decrease. -/
theorem scan_lines_exact (source : Bytes) :
    let pieces := Source.pieces source
    pieces.flatMap (·.segment.bytes) = source ∧ (∀ p ∈ pieces, p.StandsIn source) ∧
      List.Forall₂ (Token.EndsWith source) (scan source).tokens.dropLast
        (pieces.filter (·.segment.makesToken)) ∧
      List.Forall₂ (Diagnostic.EndsWith source) (scan source).diagnostics
        (pieces.filter (·.segment.makesReport)) ∧
      (scan source).tokens.getLast? = some (Token.ending (1 + Bytes.newlines source : Nat)) ∧
      ((scan source).tokens.Pairwise fun t u => t.line ≤ u.line) ∧
      (scan source).diagnostics.Pairwise fun d e => d.line ≤ e.line := by
  intro pieces
  have hlast : (scan source).tokens.getLast? =
      some (Token.ending (1 + Bytes.newlines source : Nat)) := by
    rw [Source.tokens_scan, List.getLast?_concat]
  refine ⟨Source.flatMap_bytes_pieces source, Source.standsIn_piecesFrom [] source, ?_, ?_, hlast,
    Source.pairwise_line_tokens source, Source.pairwise_line_diagnostics source⟩
  · rw [Source.tokens_eq_filterMap, List.dropLast_concat]
    refine forall₂_filterMap_filter (fun p => p.segment.isSome_token? _) (fun p t ht => ?_) pieces
    have hline := Segment.line_of_token? ht
    exact ⟨hline ▸ ht, hline⟩
  · rw [Source.diagnostics_eq_filterMap]
    refine forall₂_filterMap_filter (fun p => p.segment.isSome_diagnostic? _) ?_ pieces
    intro p d hd
    have hline := Segment.line_of_diagnostic? hd
    exact ⟨hline ▸ hd, hline⟩

/-- A comment, a string over two lines, and two bytes of a broken encoding before a line feed. -/
example :
    let scanned := scan (text "a // \"\n\"b\nc\"" ++ [0xE2, 0x82, 0x0A])
    scanned.tokens.map Token.line = [1, 3, 4] ∧
      scanned.diagnostics.map Diagnostic.line = [3, 3] := by
  decide

end ScriptFront
