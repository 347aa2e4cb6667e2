import ScriptFront.Proofs.Number.Digits
import ScriptFront.Proofs.Scan.Longest
import ScriptFront.Text.Quoted

/-! # Quoted texts are unambiguous

A quoted text tells where it ends, whatever follows it, and which bytes it stands for. Each unit of
a text is written so that it can be read back from the beginning of what follows the quote.
-/

namespace ScriptFront

/-! ### Units and bytes -/

def Rune.bytes : Rune → Bytes
  | .char c => String.utf8EncodeChar c
  | .stray b => [b]

namespace Utf8

theorem first_bytes_append (b : UInt8) (rest : Bytes) :
    (first b rest).bytes ++ rest.drop ((first b rest).width - 1) = b :: rest := by
  have hdrop : rest.drop ((first b rest).width - 1) = (b :: rest).drop (first b rest).width := by
    obtain ⟨n, hn⟩ := Nat.exists_eq_succ_of_ne_zero (first b rest).width_pos.ne'
    rw [hn]
    rfl
  have htake : (first b rest).bytes = (b :: rest).take (first b rest).width := by
    cases hf : first b rest with
    | char c => exact (take_width hf).symm
    | stray x =>
      obtain ⟨rfl, -⟩ := first_eq_stray_iff.mp hf
      rfl
  rw [hdrop, htake, List.take_append_drop]

theorem runesFrom_flatMap_bytes (skip : Nat) (b : Bytes) :
    (runesFrom skip b).flatMap Rune.bytes = b.drop skip := by
  induction b generalizing skip with
  | nil => simp [runesFrom]
  | cons x rest ih =>
    cases skip with
    | succ skip => simpa [runesFrom] using ih skip
    | zero =>
      rw [runesFrom, List.flatMap_cons, ih]
      exact first_bytes_append x rest

theorem runes_flatMap_bytes (b : Bytes) : (runes b).flatMap Rune.bytes = b :=
  runesFrom_flatMap_bytes 0 b

end Utf8

/-- A byte that counts alone is none of ASCII. -/
def Rune.IsUnit : Rune → Prop
  | .char _ => True
  | .stray b => 0x80 ≤ b.toNat

theorem Utf8.isUnit_of_mem_runesFrom (skip : Nat) (b : Bytes) :
    ∀ r ∈ runesFrom skip b, r.IsUnit := by
  induction b generalizing skip with
  | nil => simp [runesFrom]
  | cons x rest ih =>
    cases skip with
    | succ skip => exact ih skip
    | zero =>
      refine List.forall_mem_cons.mpr ⟨?_, ih _⟩
      unfold first
      split
      · trivial
      · rename_i hx
        split
        · trivial
        · exact Nat.le_of_not_lt hx

/-! ### Units read back -/

namespace Quoted

/-- The control or mark that a letter after a backslash stands for. -/
def ofLetter (b : UInt8) : Char :=
  let controls : List (Char × Char) := [('a', '\x07'), ('b', '\x08'), ('f', '\x0c'), ('n', '\n'),
    ('r', '\r'), ('t', '\t'), ('v', '\x0b'), ('\\', '\\'), ('"', '"')]
  ((controls.find? (byte ·.1 == b)).map Prod.snd).getD '?'

/-- The unit at the start of what was written between quotes. -/
def firstUnit : Bytes → Rune
  | [] => .stray 0
  | b :: rest =>
    if b = byte '\\' then
      match rest with
      | [] => .stray 0
      | mark :: more =>
        if mark = byte 'x' then
          let n := Numeral.value 16 (more.take 2)
          if n < 0x80 then .char (Char.ofNat n) else .stray (UInt8.ofNat n)
        else if mark = byte 'u' then .char (Char.ofNat (Numeral.value 16 (more.take 4)))
        else if mark = byte 'U' then .char (Char.ofNat (Numeral.value 16 (more.take 8)))
        else .char (ofLetter mark)
    else Utf8.first b rest

theorem ofLetter_of_letter? {c l : Char} (h : letter? c = some l) :
    ofLetter (byte l) = c ∧ byte l ∉ [byte 'x', byte 'u', byte 'U'] := by
  have hc : Char.ofNat c.toNat = c := Char.ofNat_toNat c
  unfold letter? at h
  split at h <;> first
    | (obtain rfl := Option.some.inj h
       rename_i hn
       rw [← hc, hn]
       decide)
    | cases h

theorem value_take_hex {width n : Nat} (hw : 0 < width) (hn : n < 16 ^ width) (more : Bytes) :
    Numeral.value 16 ((Bytes.hex width n ++ more).take width) = n := by
  rw [List.take_left' (Bytes.length_hex hw hn), Bytes.hex, Numeral.value_zeroPadded,
    Numeral.value_digits (by decide) le_rfl]

theorem firstUnit_escaped_x {n : Nat} (hn : n < 0x100) (more : Bytes) :
    firstUnit (escaped 'x' 2 n ++ more) =
      if n < 0x80 then .char (Char.ofNat n) else .stray (UInt8.ofNat n) := by
  have hvalue := value_take_hex (show 0 < 2 by decide) hn more
  simp only [escaped, List.cons_append, firstUnit, ↓reduceIte, hvalue]

theorem firstUnit_escaped {mark : Char} {width n : Nat}
    (hm : mark = 'u' ∧ width = 4 ∨ mark = 'U' ∧ width = 8) (hn : n < 16 ^ width) (more : Bytes) :
    firstUnit (escaped mark width n ++ more) = .char (Char.ofNat n) := by
  have hvalue := value_take_hex (by omega) hn more
  have hux : byte 'u' ≠ byte 'x' := by decide
  have hUx : byte 'U' ≠ byte 'x' := by decide
  have hUu : byte 'U' ≠ byte 'u' := by decide
  rcases hm with ⟨rfl, rfl⟩ | ⟨rfl, rfl⟩
  · simp only [escaped, List.cons_append, firstUnit, ↓reduceIte, hux, hvalue]
  · simp only [escaped, List.cons_append, firstUnit, ↓reduceIte, hUx, hUu, hvalue]

theorem firstUnit_letter {c l : Char} (h : letter? c = some l) (more : Bytes) :
    firstUnit (byte '\\' :: byte l :: more) = .char c := by
  obtain ⟨hc, hl⟩ := ofLetter_of_letter? h
  simp only [List.mem_cons, List.not_mem_nil, or_false, not_or] at hl
  simp only [firstUnit, ↓reduceIte, hl, hc]

theorem ne_of_encode {c : Char} (h : letter? c = none) {b : UInt8} {rest : Bytes}
    (hp : String.utf8EncodeChar c <+: b :: rest) : b ≠ byte '\\' := by
  rintro rfl
  have hval : c.toNat = 0x5C := (Utf8.encode_isPrefix_iff_of_ascii (by decide)).mp hp
  rw [letter?, hval] at h
  cases h

theorem firstUnit_encode {c : Char} (h : letter? c = none) (more : Bytes) :
    firstUnit (String.utf8EncodeChar c ++ more) = .char c := by
  cases hb : String.utf8EncodeChar c ++ more with
  | nil => exact absurd (List.append_eq_nil_iff.mp hb).1 (Segment.encode_ne_nil c)
  | cons b rest =>
    have hp : String.utf8EncodeChar c <+: b :: rest := hb ▸ List.prefix_append _ _
    simp only [firstUnit, ne_of_encode h hp, ↓reduceIte]
    exact Utf8.first_eq_char_iff.mpr hp

/-- What is written for a unit is read as the unit. -/
theorem firstUnit_ofRune {r : Rune} (hr : r.IsUnit) (more : Bytes) :
    firstUnit (ofRune r ++ more) = r := by
  cases r with
  | stray b =>
    have hb : 0x80 ≤ b.toNat := hr
    rw [ofRune, firstUnit_escaped_x b.toNat_lt, if_neg (by omega), UInt8.ofNat_toNat]
  | char c =>
    have hc : Char.ofNat c.toNat = c := Char.ofNat_toNat c
    have hlt : c.toNat < 0x110000 := Utf8.val_lt c
    change firstUnit (ofChar c ++ more) = .char c
    unfold ofChar
    split
    · rename_i l h
      exact firstUnit_letter h more
    rename_i h
    split
    · exact firstUnit_encode h more
    split
    · rename_i hn
      rw [firstUnit_escaped_x (by omega), if_pos hn, hc]
    split
    · rename_i hn
      rw [firstUnit_escaped (.inl ⟨rfl, rfl⟩) hn, hc]
    · rw [firstUnit_escaped (.inr ⟨rfl, rfl⟩) (by omega), hc]

theorem ofRune_append_ne {r : Rune} (hr : r.IsUnit) (more rest : Bytes) :
    ofRune r ++ more ≠ byte '"' :: rest := by
  intro h
  have hquote : firstUnit (byte '"' :: rest) = .char '"' := rfl
  have hunit := firstUnit_ofRune hr more
  rw [h, hquote] at hunit
  subst hunit
  exact absurd (List.cons.inj h).1 (by decide)

theorem flatMap_ofRune_inj {rs rs' : List Rune} (hrs : ∀ r ∈ rs, r.IsUnit)
    (hrs' : ∀ r ∈ rs', r.IsUnit) {rest rest' : Bytes}
    (h : rs.flatMap ofRune ++ byte '"' :: rest = rs'.flatMap ofRune ++ byte '"' :: rest') :
    rs = rs' ∧ rest = rest' := by
  induction rs generalizing rs' with
  | nil =>
    cases rs' with
    | nil => exact ⟨rfl, (List.cons.inj h).2⟩
    | cons r' rs' =>
      rw [List.flatMap_cons, List.append_assoc] at h
      exact absurd h.symm (ofRune_append_ne (hrs' r' List.mem_cons_self) _ _)
  | cons r rs ih =>
    obtain ⟨hr, hmore⟩ := List.forall_mem_cons.mp hrs
    cases rs' with
    | nil =>
      rw [List.flatMap_cons, List.append_assoc] at h
      exact absurd h (ofRune_append_ne hr _ _)
    | cons r' rs' =>
      obtain ⟨hr', hmore'⟩ := List.forall_mem_cons.mp hrs'
      rw [List.flatMap_cons, List.append_assoc, List.flatMap_cons, List.append_assoc] at h
      obtain rfl : r = r' := by
        rw [← firstUnit_ofRune hr, h, firstUnit_ofRune hr']
      obtain ⟨rfl, hrest⟩ := ih hmore hmore' (List.append_cancel_left h)
      exact ⟨rfl, hrest⟩

end Quoted

/-- A quoted text is told from every other one, whatever follows them. -/
theorem quoted_append_inj {b b' rest rest' : Bytes} (h : quoted b ++ rest = quoted b' ++ rest') :
    b = b' ∧ rest = rest' := by
  simp only [quoted, List.cons_append, List.append_assoc, List.cons.injEq, true_and] at h
  have hunits (b : Bytes) : ∀ r ∈ Utf8.runes b, r.IsUnit := Utf8.isUnit_of_mem_runesFrom 0 b
  obtain ⟨hrunes, hrest⟩ := Quoted.flatMap_ofRune_inj (hunits b) (hunits b') h
  refine ⟨?_, hrest⟩
  rw [← Utf8.runes_flatMap_bytes b, hrunes, Utf8.runes_flatMap_bytes]

end ScriptFront
