import Mathlib.Data.List.Forall2
import ScriptFront.Proofs.Parse.Input
import ScriptFront.Proofs.Scan.Tokens

/-! # Scanning and lines

A token is on a line of the source, and the tokens of a source are on lines that do not decrease.
Where a source begins on another line, nothing but the lines of its tokens is different.
-/

namespace ScriptFront

theorem Segment.line_of_token? {s : Segment} {line : Int} {t : Token}
    (h : s.token? line = some t) : t.line = line := by
  obtain ⟨kind, bytes⟩ := s
  cases kind with
  | symbol | word | number | string =>
    obtain rfl := Option.some.inj h
    rfl
  | blank | comment | openString | stray => cases h

namespace Source

/-- The tokens before the end of a source that begins on `line`. -/
def bodyFrom (line : Nat) (source : Bytes) : List Token :=
  (Segment.located line (segments source)).filterMap fun (line, s) => s.token? line

theorem tokens_scanFrom (line : Nat) (source : Bytes) :
    (scanFrom line source).tokens =
      bodyFrom line source ++ [Token.ending (line + Bytes.newlines source : Nat)] := by
  rw [scanFrom, lineAfter_segments]
  rfl

theorem tokens_scan (source : Bytes) :
    (scan source).tokens =
      bodyFrom 1 source ++ [Token.ending (1 + Bytes.newlines source : Nat)] :=
  tokens_scanFrom 1 source

theorem bodyFrom_of_leads {s : Segment} {rest : Bytes} (h : s.Leads (s.bytes ++ rest))
    (line : Nat) :
    bodyFrom line (s.bytes ++ rest) =
      (s.token? (line + Bytes.newlines s.bytes : Nat)).toList ++
        bodyFrom (line + Bytes.newlines s.bytes) rest := by
  simp only [bodyFrom, segments_of_leads h, Segment.located, ← h.newlines_eq_breaks,
    List.filterMap_cons]
  cases s.token? (line + Bytes.newlines s.bytes : Nat) <;> rfl

theorem diagnostics_of_leads {s : Segment} {rest : Bytes} (h : s.Leads (s.bytes ++ rest))
    (line : Nat) :
    (scanFrom line (s.bytes ++ rest)).diagnostics =
      (s.diagnostic? (line + Bytes.newlines s.bytes : Nat)).toList ++
        (scanFrom (line + Bytes.newlines s.bytes) rest).diagnostics := by
  rw [scanFrom_of_leads h]

theorem withoutEnd_bodyFrom (line : Nat) (source : Bytes) : WithoutEnd (bodyFrom line source) := by
  obtain ⟨tokens, ht, hk⟩ := exists_tokens_scanFrom line source
  rw [tokens_scanFrom] at ht
  rwa [List.append_cancel_right ht]

/-! ### Lines do not decrease -/

theorem line_bounds_bodyFrom (line : Nat) (source : Bytes) :
    ∀ t ∈ bodyFrom line source,
      (line : Int) ≤ t.line ∧ t.line ≤ (line + Bytes.newlines source : Nat) := by
  induction source using segment_induction generalizing line with
  | nil => simp [bodyFrom, segments, segmentsFrom, Segment.located]
  | segment s rest hs ih =>
    intro t ht
    rw [bodyFrom_of_leads hs] at ht
    rw [newlines_append]
    rcases List.mem_append.mp ht with ht | ht
    · have hline := Segment.line_of_token? (Option.mem_toList.mp ht)
      omega
    · have hrest := ih (line + Bytes.newlines s.bytes) t ht
      omega

theorem pairwise_line_bodyFrom (line : Nat) (source : Bytes) :
    (bodyFrom line source).Pairwise fun t u => t.line ≤ u.line := by
  induction source using segment_induction generalizing line with
  | nil => exact .nil
  | segment s rest hs ih =>
    rw [bodyFrom_of_leads hs]
    refine List.pairwise_append.mpr ⟨?_, ih _, fun t ht u hu => ?_⟩
    · cases s.token? (line + Bytes.newlines s.bytes : Nat) <;> simp
    · have hline := Segment.line_of_token? (Option.mem_toList.mp ht)
      have hrest := (line_bounds_bodyFrom _ rest u hu).1
      omega

end Source

/-! ### On another line -/

structure Token.SameText (t u : Token) : Prop where
  kind : t.kind = u.kind
  lexeme : t.lexeme = u.lexeme
  literal : t.literal = u.literal

theorem Segment.token?_sameText (s : Segment) (line line' : Int) :
    List.Forall₂ Token.SameText (s.token? line).toList (s.token? line').toList := by
  obtain ⟨kind, bytes⟩ := s
  cases kind with
  | symbol | word | number | string => exact .cons ⟨rfl, rfl, rfl⟩ .nil
  | blank | comment | openString | stray => exact .nil

theorem Source.bodyFrom_sameText (line line' : Nat) (source : Bytes) :
    List.Forall₂ Token.SameText (bodyFrom line source) (bodyFrom line' source) := by
  induction source using segment_induction generalizing line line' with
  | nil => exact .nil
  | segment s rest hs ih =>
    rw [bodyFrom_of_leads hs, bodyFrom_of_leads hs]
    exact List.rel_append (s.token?_sameText _ _) (ih _ _)

end ScriptFront
