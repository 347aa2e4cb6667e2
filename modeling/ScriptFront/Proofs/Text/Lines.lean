import ScriptFront.Proofs.Scan.Position
import ScriptFront.Proofs.Value

/-! # Texts on lines

Items that are written each with a line feed after it stand on lines of their own if and only if no
item has a line feed in it. What is quoted has none, whatever bytes it stands for, and neither has a
number.
-/

namespace ScriptFront

namespace Bytes

/-! ### Lines -/

/-- The output has as many line feeds as there are items, and its lines are the items. -/
def OnePerLine (items : List Bytes) (out : Bytes) : Prop :=
  newlines out = items.length ∧
    ∀ (i : Nat) (item : Bytes), items[i]? = some item → (split newline out)[i]? = some item

theorem split_append_newline {item : Bytes} (h : newline ∉ item) (rest : Bytes) :
    split newline (item ++ newline :: rest) = item :: split newline rest := by
  induction item with
  | nil => simp [split]
  | cons b item ih =>
    have hb : newline ≠ b := List.ne_of_not_mem_cons h
    rw [List.cons_append, split, if_neg hb.symm, ih (List.not_mem_of_not_mem_cons h)]

theorem lines_cons (item : Bytes) (items : List Bytes) :
    lines (item :: items) = item ++ newline :: lines items := by
  simp [lines]

/-- Items without line feeds are the lines of the text; nothing follows the last line feed. -/
theorem split_lines {items : List Bytes} (h : ∀ item ∈ items, newline ∉ item) :
    split newline (lines items) = items ++ [[]] := by
  induction items with
  | nil => rfl
  | cons item items ih =>
    obtain ⟨hitem, hitems⟩ := List.forall_mem_cons.mp h
    rw [lines_cons, split_append_newline hitem, ih hitems, List.cons_append]

theorem newlines_lines (items : List Bytes) :
    newlines (lines items) = items.length + (items.map newlines).sum := by
  induction items with
  | nil => rfl
  | cons item items ih =>
    have hnewline : newlines (newline :: lines items) = newlines (lines items) + 1 :=
      List.count_cons_self
    rw [lines_cons, Source.newlines_append, hnewline, ih, List.length_cons, List.map_cons,
      List.sum_cons]
    omega

theorem newlines_eq_zero_iff {b : Bytes} : newlines b = 0 ↔ newline ∉ b := List.count_eq_zero

/-- Each item stands on a line of its own exactly if none of them has a line feed in it. -/
theorem onePerLine_lines_iff {items : List Bytes} :
    OnePerLine items (lines items) ↔ ∀ item ∈ items, newline ∉ item := by
  constructor
  · rintro ⟨hcount, -⟩ item hitem
    rw [newlines_lines] at hcount
    have hsum : (items.map newlines).sum = 0 := by omega
    exact newlines_eq_zero_iff.mp (List.sum_eq_zero_iff.mp hsum _ (List.mem_map_of_mem hitem))
  · intro h
    have hzero : (items.map newlines).sum = 0 :=
      List.sum_eq_zero_iff.mpr (List.forall_mem_map.mpr fun b hb => newlines_eq_zero_iff.mpr (h b hb))
    refine ⟨by rw [newlines_lines, hzero, Nat.add_zero], fun i item hi => ?_⟩
    rw [split_lines h, List.getElem?_append_left (List.getElem?_eq_some_iff.mp hi).1, hi]

/-! ### Joined parts and digits -/

theorem mem_join_iff {gap : Bytes} {x : UInt8} (h : x ∉ gap) (parts : List Bytes) :
    x ∈ join gap parts ↔ ∃ part ∈ parts, x ∈ part := by
  induction parts with
  | nil => simp [join]
  | cons part parts ih =>
    cases parts with
    | nil => simp [join]
    | cons next parts => simp [join, h, ih]

theorem newline_notMem_digits {base : Nat} (hb : 1 < base) (hb' : base ≤ 16) (n : Nat) :
    newline ∉ digits base n := by
  have hdigits : ∀ d < 16, byte (Nat.digitChar d) ≠ newline := by decide
  have hne : ∀ x ∈ digits base n, x ≠ newline :=
    Numeral.forall_mem_digits hb (fun d hd => hdigits d (by omega)) n
  exact fun hmem => hne newline hmem rfl

theorem newline_notMem_hex (width n : Nat) : newline ∉ hex width n := by
  have hzero : newline ∉ List.replicate (width - (digits 16 n).length) (byte '0') := fun hmem =>
    absurd (List.eq_of_mem_replicate hmem) (by decide)
  exact List.not_mem_append hzero (newline_notMem_digits (by decide) le_rfl n)

theorem newline_notMem_integer (n : Int) : newline ∉ integer n := by
  have hdecimal : newline ∉ decimal n.natAbs := newline_notMem_digits (by decide) (by decide) _
  unfold integer
  split
  · exact List.not_mem_cons_of_ne_of_not_mem (by decide) hdecimal
  · exact hdecimal

end Bytes

open Bytes (newline)

/-! ### Quoted texts -/

namespace Quoted

theorem newline_notMem_escaped {mark : Char} (hm : byte mark ≠ newline) (width n : Nat) :
    newline ∉ escaped mark width n := by
  apply List.not_mem_cons_of_ne_of_not_mem (by decide)
  exact List.not_mem_cons_of_ne_of_not_mem hm.symm (Bytes.newline_notMem_hex width n)

theorem byte_ne_newline_of_letter? {c l : Char} (h : letter? c = some l) : byte l ≠ newline := by
  obtain ⟨hc, -⟩ := ofLetter_of_letter? h
  intro hl
  -- A line feed is no letter: it would stand for a character that has none.
  rw [hl] at hc
  have hnone : letter? (ofLetter newline) = none := by decide
  rw [hc, h] at hnone
  cases hnone

theorem newline_notMem_ofChar (c : Char) : newline ∉ ofChar c := by
  unfold ofChar
  split
  · rename_i l h
    simpa using ⟨(by decide : newline ≠ byte '\\'), (byte_ne_newline_of_letter? h).symm⟩
  rename_i h
  split
  · -- A line feed has a letter, so that it is not written as it is.
    have hc : c ≠ '\n' := by
      rintro rfl
      cases h
    exact Bytes.newlines_eq_zero_iff.mp ((Utf8.newlines_encode c).trans (if_neg hc))
  split
  · exact newline_notMem_escaped (by decide) _ _
  split
  · exact newline_notMem_escaped (by decide) _ _
  · exact newline_notMem_escaped (by decide) _ _

theorem newline_notMem_ofRune (r : Rune) : newline ∉ ofRune r := by
  cases r with
  | char c => exact newline_notMem_ofChar c
  | stray b => exact newline_notMem_escaped (by decide) _ _

end Quoted

theorem newline_notMem_quoted (b : Bytes) : newline ∉ quoted b := by
  have hquote : newline ≠ byte '"' := by decide
  simpa [quoted, hquote] using fun r _ => Quoted.newline_notMem_ofRune r

/-! ### Values -/

theorem Numeral.IsMark.ne_newline {b : UInt8} (h : IsMark b) : b ≠ newline := by
  rcases h with h | rfl | rfl | rfl | rfl
  · exact ne_of_isDigit h (by decide)
  all_goals decide

theorem NumberLayout.newline_notMem_plain {m : Nat} {e : Int} (h : Binary64.IsNormal m e) :
    newline ∉ plain.write (.bounded false m e) := by
  unfold Binary64.bounded
  split
  · decide
  · rename_i he
    obtain ⟨-, hmarks⟩ := Numeral.number?_write h (not_lt.mp he) plain false
    exact fun hmem => (hmarks newline hmem).ne_newline rfl

theorem Value.IsRead.newline_notMem_literal {v : Value} (h : v.IsRead) : newline ∉ v.literal := by
  cases h with
  | null => decide
  | bool b => cases b <;> decide
  | number h => exact NumberLayout.newline_notMem_plain h
  | text s => exact newline_notMem_quoted s

end ScriptFront
