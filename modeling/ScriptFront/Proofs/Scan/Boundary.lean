import ScriptFront.Proofs.Scan.Tokens

/-! # Segments before a blank

What a source is cut into does not change when a blank and more bytes follow it, except at its end:
a comment goes on to the end of its line, and a string that was left open goes on to its second
quote. No other class has a blank in it, and no character is encoded with one.
-/

namespace ScriptFront

open Segment

namespace SegmentClass.Matches

variable {k : SegmentClass} {p : Bytes}

theorem quote_mem {more : Bytes} (h : k.Matches (byte '"' :: more)) : byte '"' ∈ more := by
  generalize hp : byte '"' :: more = p at h
  cases h with
  | @string inner hi =>
    obtain ⟨-, rfl⟩ := List.cons.inj hp
    simp
  | @blank b hb =>
    obtain ⟨rfl, -⟩ := List.cons.inj hp
    exact absurd hb (by decide)
  | @comment mark line hm hl =>
    rcases hm with rfl | rfl
    · exact absurd (List.cons.inj hp).1 (by decide)
    · exact absurd (List.cons.inj hp).1 (by decide)
  | @symbol s k h =>
    have hprefix : text s <+: byte '"' :: more := hp ▸ List.prefix_refl _
    exact absurd rfl (Segment.symbol_head (Kind.mem_symbols_iff.mpr h) hprefix).2.2.2
  | word hb =>
    obtain ⟨rfl, -⟩ := List.cons.inj hp
    exact absurd hb (by decide)
  | whole hne hd =>
    subst hp
    exact absurd (hd _ List.mem_cons_self) (by decide)
  | @decimal digits fraction hne hd =>
    cases digits with
    | nil => exact absurd rfl hne
    | cons d digits =>
      obtain ⟨rfl, -⟩ := List.cons.inj hp
      exact absurd (hd _ List.mem_cons_self) (by decide)

/-- A comment that goes on beyond a blank is one up to there, for its mark has no blank in it. -/
theorem comment_before_blank {source : Bytes} {c : UInt8} (h : SegmentClass.comment.Matches p)
    (hp : source ++ [c] <+: p) (hne : source ≠ []) (hc : isBlank c) :
    c ≠ Bytes.newline ∧ SegmentClass.comment.Matches source := by
  have hnewline : Bytes.newline ∉ source ++ [c] := fun hmem =>
    h.newline_notMem (by simp) (by simp) (hp.subset hmem)
  have hline : Bytes.newline ∉ source := fun hmem => hnewline (List.mem_append_left _ hmem)
  refine ⟨fun hn => hnewline (by simp [hn]), ?_⟩
  cases h with
  | @comment mark line hm hl =>
    have hmark : mark.length = 2 ∧ mark.all (!isBlank ·) := by
      rcases hm with rfl | rfl <;> decide
    have hbegins : mark <+: source ++ [c] := by
      refine List.prefix_of_prefix_length_le (List.prefix_append mark line) hp ?_
      have hpos := List.length_pos_iff.mpr hne
      rw [hmark.1, List.length_append, List.length_singleton]
      omega
    rcases List.prefix_concat_iff.mp hbegins with rfl | hbegins
    · have hblank := List.all_eq_true.mp hmark.2 c (by simp)
      rw [hc] at hblank
      cases hblank
    · obtain ⟨more, rfl⟩ := hbegins
      exact .comment hm fun hmem => hline (List.mem_append_right _ hmem)

/-- What goes on beyond a blank is a string or a comment that began before it. -/
theorem beyond_blank {source : Bytes} {c : UInt8} (h : k.Matches p) (hp : source ++ [c] <+: p)
    (hne : source ≠ []) (hc : isBlank c) :
    (∃ inner, source = byte '"' :: inner ∧ byte '"' ∉ inner) ∨
      (c ≠ Bytes.newline ∧ SegmentClass.comment.Matches source) := by
  have hmem : c ∈ p := hp.subset (by simp)
  by_cases hb : k = .blank
  · subst hb
    cases h with
    | blank =>
      have hlength := hp.length_le
      have hpos := List.length_pos_iff.mpr hne
      simp only [List.length_append, List.length_cons, List.length_nil] at hlength
      omega
  by_cases hs : k = .string
  · subst hs
    cases h with
    | @string inner hi =>
      -- The second quote is the last byte, and the blank before it is not.
      obtain ⟨b, tail, rfl⟩ := List.exists_cons_of_ne_nil hne
      obtain ⟨rfl, htail⟩ := List.cons_prefix_cons.mp hp
      refine .inl ⟨tail, rfl, fun hq => hi ?_⟩
      rcases List.prefix_concat_iff.mp htail with htail | htail
      · obtain ⟨-, hlast⟩ := List.append_inj' htail rfl
        rw [List.singleton_inj.mp hlast] at hc
        exact absurd hc (by decide)
      · exact htail.subset (List.mem_append_left _ hq)
  by_cases hcomment : k = .comment
  · subst hcomment
    exact .inr (h.comment_before_blank hp hne hc)
  · have hblank := h.isBlank_eq_false (by simp [hb, hs, hcomment]) c hmem
    rw [hc] at hblank
    cases hblank

end SegmentClass.Matches

theorem prefix_or_beyond {p source more : Bytes} {c : UInt8} (hp : p <+: source ++ c :: more) :
    p <+: source ∨ source ++ [c] <+: p := by
  by_cases hl : p.length ≤ source.length
  · exact .inl (List.prefix_of_prefix_length_le hp (List.prefix_append _ _) hl)
  · have hstart : source ++ [c] <+: source ++ c :: more :=
      (List.prefix_append_right_inj _).mpr (List.cons_prefix_cons.mpr ⟨rfl, List.nil_prefix⟩)
    refine .inr (List.prefix_of_prefix_length_le hstart hp ?_)
    rw [List.length_append, List.length_singleton]
    omega

theorem Source.Unmatched.append_blank {source : Bytes} {c : UInt8} (h : Source.Unmatched source)
    (hne : source ≠ []) (hq : source.head? ≠ some (byte '"')) (hc : isBlank c) (more : Bytes) :
    Source.Unmatched (source ++ c :: more) := by
  intro k p hm hp
  rcases prefix_or_beyond hp with hp | hp
  · exact h k p hm hp
  · rcases hm.beyond_blank hp hne hc with ⟨inner, rfl, -⟩ | ⟨-, hcomment⟩
    · exact hq rfl
    · exact h _ _ hcomment (List.prefix_refl source)

namespace Segment

variable {s : Segment} {source : Bytes} {c : UInt8}

theorem IsLongest.append_blank (h : s.IsLongest source) (hc : isBlank c)
    (hs : s.kind = .comment → s.bytes = source → c = Bytes.newline) (more : Bytes) :
    s.IsLongest (source ++ c :: more) where
  matched := h.matched
  begins := h.begins.trans (List.prefix_append _ _)
  longest := by
    intro k p hm hp
    obtain ⟨b, tail, hbytes⟩ := List.exists_cons_of_ne_nil (matches_ne_nil h.matched)
    have hne : source ≠ [] := fun he =>
      matches_ne_nil h.matched (List.prefix_nil.mp (he ▸ h.begins))
    rcases prefix_or_beyond hp with hp | hp
    · exact h.longest k p hm hp
    exfalso
    rcases hm.beyond_blank hp hne hc with ⟨inner, rfl, hi⟩ | ⟨hn, hcomment⟩
    · -- The segment begins with the same quote, so it has the second one.
      have hmatched := h.matched
      have hbegins := h.begins
      rw [hbytes] at hmatched hbegins
      obtain ⟨rfl, htail⟩ := List.cons_prefix_cons.mp hbegins
      exact hi (htail.subset hmatched.quote_mem)
    · -- The segment is as long as the comment, so it is that comment.
      have hbytes' : s.bytes = source := h.begins.eq_of_length_le
        (h.longest _ _ hcomment (List.prefix_refl source))
      obtain ⟨b, rest, rfl⟩ := List.exists_cons_of_ne_nil hne
      have hfirst : s = first b rest := Leads.eq_first (.longest h)
      have hkind := (first_reaches hcomment (List.prefix_refl _)).kind_eq (hfirst ▸ hbytes'.symm)
      exact hn (hs (hfirst ▸ hkind.symm) hbytes')

theorem IsLongest.of_matches (h : s.kind.Matches s.bytes) : s.IsLongest s.bytes where
  matched := h
  begins := List.prefix_refl _
  longest := fun _ _ _ hp => hp.length_le

/-- A segment is cut off again when a blank follows the source, unless it is a string that was left
open, or a comment that reached the end of the source and now goes on. -/
theorem Leads.append_blank (h : s.Leads source) (ho : s.kind ≠ .openString) (hc : isBlank c)
    (hs : s.kind = .comment → s.bytes = source → c = Bytes.newline) (more : Bytes) :
    s.Leads (source ++ c :: more) := by
  cases h with
  | longest h => exact .longest (h.append_blank hc hs more)
  | openString => exact absurd rfl ho
  | @character u hn hq hu =>
    have hne : source ≠ [] := fun he => encode_ne_nil u (List.prefix_nil.mp (he ▸ hu))
    refine .character (hn.append_blank hne hq hc more) ?_ (hu.trans (List.prefix_append _ _))
    obtain ⟨b, rest, rfl⟩ := List.exists_cons_of_ne_nil hne
    exact hq
  | @loneByte b hn hb hu =>
    have hne : source ≠ [] := by
      rintro rfl
      cases hb
    have hq : source.head? ≠ some (byte '"') := by
      rw [hb]
      rintro ⟨⟩
      obtain ⟨more, rfl⟩ := List.head?_eq_some_iff.mp hb
      exact hu '"' (List.cons_prefix_cons.mpr ⟨rfl, List.nil_prefix⟩)
    refine .loneByte (hn.append_blank hne hq hc more) ?_ fun u hp => ?_
    · rw [List.head?_append, hb]
      rfl
    · rcases prefix_or_beyond hp with hp | hp
      · exact hu u hp
      · have hascii : c.toNat < 0x80 := by
          have hall : (text " \t\r\n").all fun x => x.toNat < 0x80 := by decide
          simpa using List.all_eq_true.mp hall c (isBlank_iff.mp hc)
        have hencode := Utf8.encode_eq_singleton (hp.subset (by simp)) hascii
        have hlength := hp.length_le
        have hpos := List.length_pos_iff.mpr hne
        simp only [hencode, List.length_append, List.length_cons, List.length_nil] at hlength
        omega

end Segment

end ScriptFront
