import ScriptFront.Proofs.Scan.Longest
import ScriptFront.Token.Scan

/-! # Line feeds in segments

A line feed is met in two places: as a blank, and among the units of a text after a quote. No other
segment has one in it, for a comment ends before it, and neither a character nor a byte of a broken
encoding takes it in. So the line feeds that are met are those among the bytes of the segment.
-/

namespace ScriptFront

open Segment

namespace Source

theorem newlines_append (a b : Bytes) :
    Bytes.newlines (a ++ b) = Bytes.newlines a + Bytes.newlines b :=
  List.count_append

end Source

namespace Utf8

theorem newlines_encode (c : Char) :
    Bytes.newlines (String.utf8EncodeChar c) = if c = '\n' then 1 else 0 := by
  split
  · rename_i hc
    subst hc
    decide
  · rename_i hc
    refine List.count_eq_zero.mpr fun hmem => hc ?_
    have hencode : String.utf8EncodeChar c = [Bytes.newline] := encode_eq_singleton hmem (by decide)
    have hfirst : first Bytes.newline [] = .char c :=
      first_eq_char_iff.mpr (hencode ▸ List.prefix_refl _)
    exact (Rune.char.inj hfirst).symm

theorem newlines_take_width (b : UInt8) (rest : Bytes) :
    Bytes.newlines ((b :: rest).take (first b rest).width) =
      if first b rest = .char '\n' then 1 else 0 := by
  cases hu : first b rest with
  | char c => simp [take_width hu, newlines_encode]
  | stray x =>
    obtain ⟨rfl, hno⟩ := first_eq_stray_iff.mp hu
    have hx : x ≠ Bytes.newline := by
      rintro rfl
      exact hno '\n' (List.cons_prefix_cons.mpr ⟨rfl, List.nil_prefix⟩)
    simp [Rune.width, Bytes.newlines, hx]

theorem count_newline_runesFrom (skip : Nat) (b : Bytes) :
    (runesFrom skip b).count (.char '\n') = Bytes.newlines (b.drop skip) := by
  induction b generalizing skip with
  | nil => simp [runesFrom, Bytes.newlines]
  | cons x rest ih =>
    cases skip with
    | succ skip => exact ih skip
    | zero =>
      have hpos := (first x rest).width_pos
      have hdrop : (x :: rest).drop (first x rest).width =
          rest.drop ((first x rest).width - 1) := by
        rw [← Nat.succ_pred_eq_of_pos hpos]
        rfl
      have hsplit : Bytes.newlines (x :: rest) =
          Bytes.newlines ((x :: rest).take (first x rest).width) +
            Bytes.newlines ((x :: rest).drop (first x rest).width) := by
        rw [← Source.newlines_append, List.take_append_drop]
      rw [List.drop_zero, hsplit, newlines_take_width, hdrop, runesFrom, List.count_cons, ih]
      simp [Nat.add_comm]

theorem count_newline_runes (b : Bytes) :
    (runes b).count (.char '\n') = Bytes.newlines b := by
  rw [runes, count_newline_runesFrom, List.drop_zero]

end Utf8

/-! ### Where line feeds are met -/

namespace SegmentClass.Matches

variable {k : SegmentClass} {p : Bytes}

theorem isBlank_eq_false (h : k.Matches p) (hk : k ∉ [.blank, .comment, .string]) :
    ∀ b ∈ p, isBlank b = false := by
  have hdigits {digits : Bytes} (hd : ∀ d ∈ digits, isDigit d) : ∀ b ∈ digits, isBlank b = false :=
    fun b hb => not_isBlank (.inr (hd b hb))
  cases h with
  | blank | comment | string => simp at hk
  | @symbol s k h =>
    have hall : Kind.symbols.all fun e => (text e.1).all fun b => !isBlank b := by decide
    simpa using List.all_eq_true.mp hall (s, k) (Kind.mem_symbols_iff.mpr h)
  | @word b more hb hm =>
    refine List.forall_mem_cons.mpr ⟨not_isBlank (.inl hb), fun x hx => ?_⟩
    rcases hm x hx with hx | hx | rfl
    · exact not_isBlank (.inl hx)
    · exact not_isBlank (.inr hx)
    · decide
  | whole _ hd => exact hdigits hd
  | decimal _ hd _ hf =>
    exact List.forall_mem_append.mpr
      ⟨hdigits hd, List.forall_mem_cons.mpr ⟨by decide, hdigits hf⟩⟩

/-- Only a blank or a string has a line feed in it. -/
theorem newline_notMem (h : k.Matches p) (hb : k ≠ .blank) (hs : k ≠ .string) :
    Bytes.newline ∉ p := by
  intro hmem
  by_cases hc : k = .comment
  · subst hc
    cases h with
    | @comment mark line hm hl =>
      have hmark : Bytes.newline ∉ mark := by rcases hm with rfl | rfl <;> decide
      rcases List.mem_append.mp hmem with hmem | hmem
      · exact hmark hmem
      · exact hl hmem
  · have hblank := h.isBlank_eq_false (by simp [hb, hc, hs]) Bytes.newline hmem
    exact absurd hblank (by decide)

end SegmentClass.Matches

theorem Source.Unmatched.not_newline {source : Bytes} (h : Source.Unmatched source) :
    ¬[Bytes.newline] <+: source :=
  h .blank [Bytes.newline] (.blank (by decide))

/-- No line feed is passed over. -/
theorem Segment.Leads.newlines_eq_breaks {s : Segment} {source : Bytes} (h : s.Leads source) :
    Bytes.newlines s.bytes = s.breaks := by
  cases h with
  | longest h =>
    have hm := h.matched
    obtain ⟨kind, bytes⟩ := s
    cases kind with
    | blank | string | openString => exact (Utf8.count_newline_runes bytes).symm
    | comment | symbol | word | number | stray =>
      exact List.count_eq_zero.mpr (hm.newline_notMem (by simp) (by simp))
  | openString => exact (Utf8.count_newline_runes source).symm
  | @character c hn hq hc =>
    have hne : c ≠ '\n' := by
      rintro rfl
      exact hn.not_newline hc
    exact (Utf8.newlines_encode c).trans (if_neg hne)
  | @loneByte b hn hb hc =>
    have hne : b ≠ Bytes.newline := by
      rintro rfl
      obtain ⟨more, rfl⟩ := List.head?_eq_some_iff.mp hb
      exact hn.not_newline (List.prefix_append [_] more)
    exact List.count_eq_zero.mpr fun hmem => hne (List.mem_singleton.mp hmem).symm

end ScriptFront
