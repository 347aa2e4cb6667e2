import Mathlib.Tactic.Common
import ScriptFront.Text.Utf8

/-! # The first unit of a text

The first unit of a byte string is the character whose encoding begins the string. There is at
most one such character; where there is none, the first byte is a unit of its own.
-/

namespace ScriptFront.Utf8

theorem ofNat_eq_iff {b : UInt8} {n : Nat} (h : n < 256) : UInt8.ofNat n = b ↔ b.toNat = n := by
  rw [← UInt8.toNat_inj, UInt8.toNat_ofNat', Nat.mod_eq_of_lt h, eq_comm]

theorem tail?_eq_some_iff {b : UInt8} {n : Nat} :
    tail? b = some n ↔ n < 64 ∧ b.toNat = n + 0x80 := by
  rw [tail?]
  grind

theorem scalar?_eq_some_iff {least n : Nat} {c : Char} :
    scalar? least n = some c ↔ least ≤ n ∧ c.val.toNat = n := by
  unfold scalar?
  by_cases h : least ≤ n ∧ n.isValidChar
  · have hv : (Char.ofNatAux n h.2).val.toNat = n := rfl
    rw [dif_pos h, Option.some.injEq]
    constructor
    · rintro rfl
      exact ⟨h.1, hv⟩
    · rintro ⟨-, hc⟩
      exact Char.ext (UInt32.toNat_inj.mp (hv.trans hc.symm))
  · rw [dif_neg h]
    refine ⟨nofun, ?_⟩
    rintro ⟨hl, rfl⟩
    exact absurd ⟨hl, c.valid⟩ h

theorem val_lt (c : Char) : c.val.toNat < 0x110000 := by
  have h := c.valid
  simp only [UInt32.isValidChar, Nat.isValidChar] at h
  omega

theorem sequence?_of_encode {b : UInt8} {rest : Bytes} {c : Char} (hb : 0x80 ≤ b.toNat)
    (h : String.utf8EncodeChar c <+: b :: rest) : sequence? b.toNat rest = some c := by
  have hc := val_lt c
  revert h
  fun_cases String.utf8EncodeChar c with
  | case1 v hv =>
    rw [List.cons_prefix_cons, ofNat_eq_iff (by omega)]
    omega
  | case2 v h1 hv =>
    rcases rest with _ | ⟨x, more⟩
    · simp
    simp (disch := omega) only [List.cons_prefix_cons, ofNat_eq_iff]
    rintro ⟨hb, hx, -⟩
    rw [sequence?, if_neg (by omega), if_pos (by omega)]
    simp only [bind, Option.bind_eq_some_iff, tail?_eq_some_iff, scalar?_eq_some_iff]
    exact ⟨v % 64, by omega, by omega, by omega⟩
  | case3 v h1 h2 hv =>
    rcases rest with _ | ⟨x, _ | ⟨y, more⟩⟩
    · simp
    · simp
    simp (disch := omega) only [List.cons_prefix_cons, ofNat_eq_iff]
    rintro ⟨hb, hx, hy, -⟩
    rw [sequence?, if_neg (by omega), if_neg (by omega), if_pos (by omega)]
    simp only [bind, Option.bind_eq_some_iff, tail?_eq_some_iff, scalar?_eq_some_iff]
    exact ⟨v / 64 % 64, by omega, v % 64, by omega, by omega, by omega⟩
  | case4 v h1 h2 h3 =>
    rcases rest with _ | ⟨x, _ | ⟨y, _ | ⟨z, more⟩⟩⟩
    · simp
    · simp
    · simp
    simp (disch := omega) only [List.cons_prefix_cons, ofNat_eq_iff]
    rintro ⟨hb, hx, hy, hz, -⟩
    rw [sequence?, if_neg (by omega), if_neg (by omega), if_neg (by omega), if_pos (by omega)]
    simp only [bind, Option.bind_eq_some_iff, tail?_eq_some_iff, scalar?_eq_some_iff]
    exact ⟨v / 4096 % 64, by omega, v / 64 % 64, by omega, v % 64, by omega, by omega, by omega⟩

theorem encode_of_sequence? {b : UInt8} {rest : Bytes} {c : Char}
    (h : sequence? b.toNat rest = some c) : String.utf8EncodeChar c <+: b :: rest := by
  have hc := val_lt c
  unfold sequence? at h
  split at h
  · cases h
  split at h
  · rcases rest with _ | ⟨x, more⟩
    · cases h
    simp only [bind, Option.bind_eq_some_iff, tail?_eq_some_iff, scalar?_eq_some_iff] at h
    obtain ⟨m, hx, hl, hv⟩ := h
    rw [String.utf8EncodeChar, if_neg (by omega), if_pos (by omega)]
    simp (disch := omega) only [List.cons_prefix_cons, ofNat_eq_iff]
    exact ⟨by omega, by omega, List.nil_prefix⟩
  split at h
  · rcases rest with _ | ⟨x, _ | ⟨y, more⟩⟩
    · cases h
    · cases h
    simp only [bind, Option.bind_eq_some_iff, tail?_eq_some_iff, scalar?_eq_some_iff] at h
    obtain ⟨m, hx, n, hy, hl, hv⟩ := h
    rw [String.utf8EncodeChar, if_neg (by omega), if_neg (by omega), if_pos (by omega)]
    simp (disch := omega) only [List.cons_prefix_cons, ofNat_eq_iff]
    exact ⟨by omega, by omega, by omega, List.nil_prefix⟩
  split at h
  · rcases rest with _ | ⟨x, _ | ⟨y, _ | ⟨z, more⟩⟩⟩
    · cases h
    · cases h
    · cases h
    simp only [bind, Option.bind_eq_some_iff, tail?_eq_some_iff, scalar?_eq_some_iff] at h
    obtain ⟨m, hx, n, hy, o, hz, hl, hv⟩ := h
    rw [String.utf8EncodeChar, if_neg (by omega), if_neg (by omega), if_neg (by omega)]
    simp (disch := omega) only [List.cons_prefix_cons, ofNat_eq_iff]
    exact ⟨by omega, by omega, by omega, by omega, List.nil_prefix⟩
  · cases h

theorem val_ofNat_of_ascii {n : Nat} (h : n < 0x80) : (Char.ofNat n).val.toNat = n := by
  have hn : n.isValidChar := .inl (by omega)
  unfold Char.ofNat
  rw [dif_pos hn]
  rfl

theorem encode_isPrefix_iff_of_ascii {b : UInt8} {rest : Bytes} {c : Char} (hb : b.toNat < 0x80) :
    String.utf8EncodeChar c <+: b :: rest ↔ c.val.toNat = b.toNat := by
  have hc := val_lt c
  fun_cases String.utf8EncodeChar c with
  | case1 v hv =>
    rw [List.cons_prefix_cons, ofNat_eq_iff (by omega), eq_comm]
    exact and_iff_left List.nil_prefix
  | case2 v | case3 v | case4 v =>
    rw [List.cons_prefix_cons, ofNat_eq_iff (by omega)]
    omega

theorem first_eq_char_iff {b : UInt8} {rest : Bytes} {c : Char} :
    first b rest = .char c ↔ String.utf8EncodeChar c <+: b :: rest := by
  unfold first
  split
  · rename_i hb
    have hv := val_ofNat_of_ascii hb
    rw [Rune.char.injEq, encode_isPrefix_iff_of_ascii hb, ← Char.val_inj, ← UInt32.toNat_inj, hv]
    exact eq_comm
  · rename_i hb
    have h : sequence? b.toNat rest = some c ↔ String.utf8EncodeChar c <+: b :: rest :=
      ⟨encode_of_sequence?, sequence?_of_encode (by omega)⟩
    rw [← h]
    split <;> simp [*]

theorem first_eq_stray_iff {b x : UInt8} {rest : Bytes} :
    first b rest = .stray x ↔ x = b ∧ ∀ c, ¬String.utf8EncodeChar c <+: b :: rest := by
  simp only [← first_eq_char_iff]
  unfold first
  split
  · simp
  split <;> simp [eq_comm]

/-- A byte below 0x80 is no part of a longer sequence. -/
theorem encode_eq_singleton {c : Char} {x : UInt8} (hx : x ∈ String.utf8EncodeChar c)
    (h : x.toNat < 0x80) : String.utf8EncodeChar c = [x] := by
  revert hx
  fun_cases String.utf8EncodeChar c with
  | case1 v hv =>
    intro hx
    rw [List.mem_singleton.mp hx]
  | case2 v | case3 v | case4 v =>
    simp (disch := omega) only [List.mem_cons, List.not_mem_nil, or_false, @eq_comm _ x,
      ofNat_eq_iff]
    omega

theorem take_width {b : UInt8} {rest : Bytes} {c : Char} (h : first b rest = .char c) :
    (b :: rest).take (Rune.char c).width = String.utf8EncodeChar c := by
  have hp := List.prefix_iff_eq_take.mp (first_eq_char_iff.mp h)
  rw [String.length_utf8EncodeChar] at hp
  exact hp.symm

end ScriptFront.Utf8
