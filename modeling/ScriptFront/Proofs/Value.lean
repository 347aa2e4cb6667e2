import ScriptFront.Proofs.Number.Layout
import ScriptFront.Proofs.Text.Sexp

/-! # The text of a value

A literal of a script is written as a word or as a quoted text, and the text tells which value it
is. The first byte tells of which sort the value is, and values of one sort have different texts.
-/

namespace ScriptFront

/-! ### Numbers -/

theorem Numeral.IsMark.isPlain {b : UInt8} (h : Numeral.IsMark b) : isPlain b = true := by
  rcases h with h | rfl | rfl | rfl | rfl
  · exact isPlain_of h (by decide)
  all_goals decide

namespace NumberLayout

open Binary64

theorem number?_plain_bounded {m : Nat} {e : Int} (h : IsNormal m e) :
    Numeral.number? (plain.write (bounded false m e)) =
      if greatestExponent < e then none else some (bounded false m e) := by
  unfold bounded
  split
  · rfl
  · rename_i he
    exact (Numeral.number?_write h (not_lt.mp he) plain false).1

theorem plain_bounded_inj {m m' : Nat} {e e' : Int} (h : IsNormal m e) (h' : IsNormal m' e')
    (heq : plain.write (bounded false m e) = plain.write (bounded false m' e')) :
    bounded false m e = bounded false m' e' := by
  have hread := number?_plain_bounded h
  rw [heq, number?_plain_bounded h'] at hread
  unfold bounded at hread ⊢
  split <;> split <;> simp_all

theorem plain_bounded_spec {m : Nat} {e : Int} (h : IsNormal m e) :
    IsWord (plain.write (bounded false m e)) ∧
      ∃ b more, plain.write (bounded false m e) = b :: more ∧ Numeral.IsMark b := by
  unfold bounded
  split
  · exact ⟨by decide, byte '+', text "Inf", by decide, by simp [Numeral.IsMark]⟩
  · rename_i he
    obtain ⟨hread, hmarks⟩ := Numeral.number?_write h (not_lt.mp he) plain false
    have hne : plain.write (.finite false m e) ≠ [] := by
      intro hnil
      rw [hnil] at hread
      cases hread
    refine ⟨⟨hne, List.all_eq_true.mpr fun y hy => (hmarks y hy).isPlain⟩, ?_⟩
    obtain ⟨b, more, hb⟩ := List.exists_cons_of_ne_nil hne
    exact ⟨b, more, hb, hmarks b (hb ▸ List.mem_cons_self)⟩

end NumberLayout

/-! ### Values -/

namespace Value

/-- The values that literals of a source have. A number has no sign; it may be infinite. -/
inductive IsRead : Value → Prop where
  | null : IsRead .null
  | bool (b : Bool) : IsRead (.bool b)
  | number {m : Nat} {e : Int} (h : Binary64.IsNormal m e) : IsRead (.number (.bounded false m e))
  | text (s : Bytes) : IsRead (.text s)

def sort : Value → Nat
  | .null => 0
  | .bool _ => 1
  | .number _ => 2
  | .text _ => 3
  | .int _ => 4

def sortOf (b : UInt8) : Nat :=
  if b = byte 'n' then 0
  else if b = byte 't' ∨ b = byte 'f' then 1
  else if b = byte '"' then 3
  else 2

theorem sortOf_of_isMark {b : UInt8} (h : Numeral.IsMark b) : sortOf b = 2 := by
  rcases h with h | rfl | rfl | rfl | rfl
  · have hne (x : UInt8) (hx : isDigit x = false) : b ≠ x := Numeral.ne_of_isDigit h hx
    simp [sortOf, hne (byte 'n') (by decide), hne (byte 't') (by decide),
      hne (byte 'f') (by decide), hne (byte '"') (by decide)]
  all_goals decide

variable {v v' : Value}

theorem IsRead.isAtom_literal (h : v.IsRead) : IsAtom v.literal := by
  cases h with
  | null => exact .word (by decide)
  | bool b =>
    have hwords : ∀ b, IsWord (ofBool b) := by decide
    exact .word (hwords b)
  | number h => exact .word (NumberLayout.plain_bounded_spec h).1
  | text s => exact .quoted s

theorem IsRead.sortOf_head (h : v.IsRead) :
    ∃ b more, v.literal = b :: more ∧ sortOf b = v.sort := by
  cases h with
  | null => exact ⟨byte 'n', _, rfl, rfl⟩
  | bool b =>
    cases b with
    | false => exact ⟨byte 'f', _, rfl, rfl⟩
    | true => exact ⟨byte 't', _, rfl, rfl⟩
  | number h =>
    obtain ⟨-, b, more, hb, hmark⟩ := NumberLayout.plain_bounded_spec h
    exact ⟨b, more, hb, sortOf_of_isMark hmark⟩
  | text s => exact ⟨byte '"', _, rfl, rfl⟩

/-- The text of a value tells which value it is. -/
theorem literal_inj (h : v.IsRead) (h' : v'.IsRead) : v.literal = v'.literal ↔ v = v' := by
  refine ⟨fun heq => ?_, congrArg literal⟩
  have hsort : v.sort = v'.sort := by
    obtain ⟨b, more, hb, hs⟩ := h.sortOf_head
    obtain ⟨b', more', hb', hs'⟩ := h'.sortOf_head
    rw [hb, hb'] at heq
    rw [← hs, ← hs', (List.cons.inj heq).1]
  cases h with
  | null =>
    cases h' with
    | null => rfl
    | _ => cases hsort
  | bool b =>
    cases h' with
    | bool b' =>
      have hwords : ∀ b b' : Bool, ofBool b = ofBool b' → b = b' := by decide
      rw [hwords b b' heq]
    | _ => cases hsort
  | number h =>
    cases h' with
    | number h' => rw [NumberLayout.plain_bounded_inj h h' heq]
    | _ => cases hsort
  | text s =>
    cases h' with
    | text s' =>
      have hquoted : quoted s ++ [] = quoted s' ++ [] := congrArg (· ++ []) heq
      rw [(quoted_append_inj hquoted).1]
    | _ => cases hsort

end Value

end ScriptFront
