import Mathlib.Tactic.Ring
import ScriptFront.Number.Numeral

/-! # Digits

The digits of a number are read as the number, with zeros before them, too.
-/

namespace ScriptFront

namespace Numeral

theorem value_append (base : Nat) (a b : Bytes) :
    value base (a ++ b) = value base a * base ^ b.length + value base b := by
  have hstart (n : Nat) : b.foldl (fun n d => base * n + digitValue d) n =
      n * base ^ b.length + b.foldl (fun n d => base * n + digitValue d) 0 := by
    induction b generalizing n with
    | nil => simp
    | cons d b ih =>
      rw [List.foldl_cons, List.foldl_cons, ih, ih (base * 0 + _), List.length_cons]
      ring
  rw [value, List.foldl_append, hstart]
  rfl

theorem value_replicate_zero (base n : Nat) : value base (List.replicate n (byte '0')) = 0 := by
  induction n with
  | zero => rfl
  | succ n ih =>
    rw [List.replicate_succ', value_append, ih, Nat.zero_mul]
    rfl

theorem value_zeroPadded (base width : Nat) (b : Bytes) :
    value base (Bytes.zeroPadded width b) = value base b := by
  rw [Bytes.zeroPadded, value_append, value_replicate_zero, Nat.zero_mul, Nat.zero_add]

theorem value_digitChar {base d : Nat} (h : d < 16) : value base [byte d.digitChar] = d := by
  have hall : ∀ d < 16, digitValue (byte (Nat.digitChar d)) = d := by decide
  simp [value, hall d h]

theorem value_digits {base : Nat} (hb : 1 < base) (hb' : base ≤ 16) (n : Nat) :
    value base (Bytes.digits base n) = n := by
  induction n using Nat.strong_induction_on with
  | _ n ih =>
    unfold Bytes.digits at *
    by_cases hn : n < base
    · rw [Nat.toDigits_of_lt_base hn]
      exact value_digitChar (by omega)
    · have hmod := Nat.mod_lt n (by omega : 0 < base)
      rw [Nat.toDigits_of_base_le hb (by omega), List.map_append, value_append,
        ih _ (Nat.div_lt_self (by omega) hb), List.map_singleton, value_digitChar (by omega),
        List.length_singleton, pow_one]
      exact Nat.div_add_mod' n base

theorem value_decimal (n : Nat) : value 10 (Bytes.decimal n) = n :=
  value_digits (by decide) (by decide) n

theorem isDigit_digitChar {d : Nat} (h : d < 10) : isDigit (byte d.digitChar) = true := by
  have hall : ∀ d < 10, isDigit (byte (Nat.digitChar d)) = true := by decide
  exact hall d h

theorem forall_mem_digits {base : Nat} {P : UInt8 → Prop} (hb : 1 < base)
    (hP : ∀ d < base, P (byte d.digitChar)) (n : Nat) : ∀ x ∈ Bytes.digits base n, P x := by
  induction n using Nat.strong_induction_on with
  | _ n ih =>
    unfold Bytes.digits at *
    by_cases hn : n < base
    · rw [Nat.toDigits_of_lt_base hn]
      simpa using hP n hn
    · have hmod := Nat.mod_lt n (by omega : 0 < base)
      rw [Nat.toDigits_of_base_le hb (by omega), List.map_append]
      simpa only [List.forall_mem_append, List.map_singleton, List.forall_mem_singleton] using
        ⟨ih _ (Nat.div_lt_self (by omega) hb), hP _ hmod⟩

theorem isDigit_of_mem_decimal (n : Nat) : ∀ d ∈ Bytes.decimal n, isDigit d = true :=
  forall_mem_digits (by decide) (fun _ hd => isDigit_digitChar hd) n

theorem decimal_ne_nil (n : Nat) : Bytes.decimal n ≠ [] := by
  simp [Bytes.decimal, Bytes.digits, Nat.toDigits_ne_nil]

end Numeral

namespace Bytes

theorem length_hex {width n : Nat} (hw : 0 < width) (hn : n < 16 ^ width) :
    (hex width n).length = width := by
  have hlength := (Nat.length_toDigits_le_iff (by decide) hw).mpr hn
  simp only [hex, zeroPadded, digits, List.length_append, List.length_replicate, List.length_map]
  omega

end Bytes

end ScriptFront
