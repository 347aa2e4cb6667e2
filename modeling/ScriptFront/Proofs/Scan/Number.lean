import ScriptFront.Proofs.Scan.Longest
import ScriptFront.Token.Scan

/-! # Numbers of a source

A numeral is made of digits, and may have a sign, a fraction and an exponent. Digits with at most
one point among them are a numeral, so a number of a source always has a value, and it is the value
that the numeral stands for.
-/

namespace ScriptFront.Numeral

theorem toNat_of_isDigit {b : UInt8} (h : isDigit b) : 48 ≤ b.toNat ∧ b.toNat ≤ 57 := by
  rw [isDigit, Bool.and_eq_true, decide_eq_true_eq, decide_eq_true_eq] at h
  exact ⟨UInt8.le_iff_toNat_le.mp h.1, UInt8.le_iff_toNat_le.mp h.2⟩

theorem ne_of_isDigit {b x : UInt8} (h : isDigit b) (hx : isDigit x = false) : b ≠ x := by
  rintro rfl
  rw [h] at hx
  cases hx

theorem lower_of_isDigit {b : UInt8} (h : isDigit b) : lower b = b := by
  have hA : ¬byte 'A' ≤ b := by
    intro hA
    have hA' : 65 ≤ b.toNat := UInt8.le_iff_toNat_le.mp hA
    have := toNat_of_isDigit h
    omega
  simp [lower, hA]

theorem signed_of_isDigit {d : UInt8} {more : Bytes} (h : isDigit d) :
    signed (d :: more) = (false, d :: more) := by
  have hminus : d ≠ byte '-' := ne_of_isDigit h (by decide)
  have hplus : d ≠ byte '+' := ne_of_isDigit h (by decide)
  simp [signed, hminus, hplus]

/-- What a numeral is made of, in a source and in the text of a number. -/
def IsMark (b : UInt8) : Prop :=
  isDigit b ∨ b = byte '.' ∨ b = byte 'e' ∨ b = byte '+' ∨ b = byte '-'

theorem based_of_isMark {b : Bytes} (h : ∀ x ∈ b, IsMark x) : based b = (10, b) := by
  fun_cases based b with
  | case1 z x d rest hx =>
    exfalso
    rcases h x (by simp) with hd | rfl | rfl | rfl | rfl
    · have hlower : x = byte 'x' := (lower_of_isDigit hd).symm.trans hx.2
      exact ne_of_isDigit hd (by decide) hlower
    all_goals exact absurd hx.2 (by decide)
  | case2 | case3 => rfl

theorem separatesFrom_of_isMark {b : Bytes} (h : ∀ x ∈ b, IsMark x) {before : Before}
    (hb : before ≠ .underscore) : separatesFrom isDigit before b = true := by
  induction b generalizing before with
  | nil => cases before <;> first | rfl | exact absurd rfl hb
  | cons x b ih =>
    obtain ⟨hx, h⟩ := List.forall_mem_cons.mp h
    have hmark : (x == byte '_') = false := by
      rcases hx with hx | rfl | rfl | rfl | rfl
      · exact beq_false_of_ne (ne_of_isDigit hx (by decide))
      all_goals decide
    cases before with
    | underscore => exact absurd rfl hb
    | digit | other =>
      simp only [separatesFrom, hmark]
      split <;> exact ih h (by simp)

theorem takeWhile_part {digits : Bytes} (hd : ∀ d ∈ digits, isDigit d) (tail : Bytes) :
    (digits ++ tail).takeWhile (fun b => isDigit b || b == byte '_') =
      digits ++ tail.takeWhile (fun b => isDigit b || b == byte '_') :=
  List.takeWhile_append_of_pos fun d h => by simp [hd d h]

theorem dropWhile_part {digits : Bytes} (hd : ∀ d ∈ digits, isDigit d) (tail : Bytes) :
    (digits ++ tail).dropWhile (fun b => isDigit b || b == byte '_') =
      tail.dropWhile (fun b => isDigit b || b == byte '_') :=
  List.dropWhile_append_of_pos fun d h => by simp [hd d h]

/-- An exponent as a number is written with: nothing, or a mark and a numeral. -/
def IsExponent (b : Bytes) (x : Int) : Prop :=
  b = [] ∧ x = 0 ∨
    ∃ rest, b = byte 'e' :: rest ∧ exponent? rest = some x ∧ ∀ y ∈ rest, IsMark y

theorem span_part {digits tail : Bytes} (hd : ∀ d ∈ digits, isDigit d)
    (ht : ∀ b ∈ tail.head?, b = byte '.' ∨ b = byte 'e') :
    (digits ++ tail).takeWhile (fun b => isDigit b || b == byte '_') = digits ∧
      (digits ++ tail).dropWhile (fun b => isDigit b || b == byte '_') = tail := by
  rw [takeWhile_part hd, dropWhile_part hd]
  cases tail with
  | nil => simp
  | cons b tail =>
    have hb : (isDigit b || b == byte '_') = false := by
      rcases ht b rfl with rfl | rfl <;> decide
    rw [List.takeWhile_cons_of_neg (by simp [hb]), List.dropWhile_cons_of_neg (by simp [hb])]
    simp

theorem IsExponent.head {b : Bytes} {x : Int} (h : IsExponent b x) :
    ∀ y ∈ b.head?, y = byte 'e' := by
  rcases h with ⟨rfl, -⟩ | ⟨rest, rfl, -⟩ <;> simp

theorem IsExponent.marks {b : Bytes} {x : Int} (h : IsExponent b x) : ∀ y ∈ b, IsMark y := by
  rcases h with ⟨rfl, -⟩ | ⟨rest, rfl, -, hrest⟩
  · simp
  · exact List.forall_mem_cons.mpr ⟨.inr (.inr (.inl rfl)), hrest⟩

section Parts

variable {digits point fraction exponent : Bytes} {x : Int}

theorem isMark_of_parts (hd : ∀ d ∈ digits, isDigit d) (hf : ∀ d ∈ fraction, isDigit d)
    (hp : point = [] ∧ fraction = [] ∨ point = byte '.' :: fraction) (hx : IsExponent exponent x) :
    ∀ y ∈ digits ++ (point ++ exponent), IsMark y := by
  have hpoint : ∀ y ∈ point, IsMark y := by
    rcases hp with ⟨rfl, -⟩ | rfl
    · simp
    · exact List.forall_mem_cons.mpr ⟨.inr (.inl rfl), fun y hy => .inl (hf y hy)⟩
  intro y hy
  rcases List.mem_append.mp hy with hy | hy
  · exact .inl (hd y hy)
  · exact (List.mem_append.mp hy).elim (hpoint y) (hx.marks y)

/-- A numeral with a sign, a fraction and an exponent. -/
theorem number?_of_parts (negative : Bool) (hne : digits ≠ []) (hd : ∀ d ∈ digits, isDigit d)
    (hf : ∀ d ∈ fraction, isDigit d)
    (hp : point = [] ∧ fraction = [] ∨ point = byte '.' :: fraction) (hx : IsExponent exponent x) :
    number? ((if negative then [byte '-'] else []) ++ (digits ++ (point ++ exponent))) =
      some (.ofDecimal negative (value 10 (digits ++ fraction)) (x - fraction.length)) := by
  have hmarks := isMark_of_parts hd hf hp hx
  have hsigned : signed ((if negative then [byte '-'] else []) ++ (digits ++ (point ++ exponent))) =
      (negative, digits ++ (point ++ exponent)) := by
    obtain ⟨d, more, rfl⟩ := List.exists_cons_of_ne_nil hne
    cases negative with
    | false => exact signed_of_isDigit (hd d (by simp))
    | true => rfl
  have hbased := based_of_isMark hmarks
  have hseparate := separatesFrom_of_isMark hmarks (show Before.other ≠ .underscore by simp)
  have hwhole : digits.filter isDigit = digits := List.filter_eq_self.mpr hd
  have hfraction : fraction.filter isDigit = fraction := List.filter_eq_self.mpr hf
  have hstop : ∀ b ∈ (point ++ exponent).head?, b = byte '.' ∨ b = byte 'e' := by
    rcases hp with ⟨rfl, -⟩ | rfl
    · exact fun b hb => .inr (hx.head b hb)
    · simp
  obtain ⟨htake, hdrop⟩ := span_part hd hstop
  obtain ⟨htake', hdrop'⟩ := span_part hf fun b hb => .inr (hx.head b hb)
  have hdigits : (digits ++ fraction).isEmpty = false := by simp [hne]
  have hdot : byte 'e' ≠ byte '.' := by decide
  have hmark : lower (byte 'e') = byte 'e' := by decide
  simp only [number?, hsigned, hbased, ↓reduceIte, Nat.reduceEqDiff, htake, hdrop, hwhole,
    hseparate, Bool.not_true, Bool.false_eq_true]
  rcases hp with ⟨rfl, rfl⟩ | rfl <;> rcases hx with ⟨rfl, rfl⟩ | ⟨rest, rfl, hrest, -⟩
  · simp only [List.nil_append, hdigits, Bool.false_eq_true, ↓reduceIte]
    rfl
  · simp only [List.nil_append, hdot, ↓reduceIte, hdigits, Bool.false_eq_true, hmark, hrest]
    rfl
  · simp only [List.cons_append, htake', hdrop', hfraction, ↓reduceIte, hdigits, Bool.false_eq_true]
    rfl
  · simp only [List.cons_append, htake', hdrop', hfraction, ↓reduceIte, hdigits, Bool.false_eq_true,
      hmark, hrest]
    rfl

end Parts

theorem read?_of_isDigit {d : UInt8} {more : Bytes} (h : isDigit d) :
    read? (d :: more) = number? (d :: more) := by
  have hi : d ≠ byte 'i' := ne_of_isDigit h (by decide)
  have hn : d ≠ byte 'n' := ne_of_isDigit h (by decide)
  have hinf : text "inf" = byte 'i' :: text "nf" := by decide
  have hinfinity : text "infinity" = byte 'i' :: text "nfinity" := by decide
  have hnan : text "nan" = byte 'n' :: text "an" := by decide
  have hword : word? (d :: more) = none := by
    simp [word?, signed_of_isDigit h, lower_of_isDigit h, hinf, hinfinity, hnan, hi, hn]
  simp [read?, hword]

theorem exists_number?_of_matches {p : Bytes} (h : SegmentClass.number.Matches p) :
    ∃ digits x, number? p = some (.ofDecimal false digits x) := by
  cases h with
  | whole hne hd =>
    have h := number?_of_parts false hne hd (List.forall_mem_nil _)
      (.inl ⟨rfl, rfl⟩) (.inl ⟨rfl, rfl⟩)
    simp only [Bool.false_eq_true, ↓reduceIte, List.nil_append, List.append_nil] at h
    exact ⟨_, _, h⟩
  | decimal hne hd _ hf =>
    have h := number?_of_parts false hne hd hf (.inr rfl) (.inl ⟨rfl, rfl⟩)
    simp only [Bool.false_eq_true, ↓reduceIte, List.nil_append, List.append_nil] at h
    exact ⟨_, _, h⟩

theorem exists_read?_of_matches {p : Bytes} (h : SegmentClass.number.Matches p) :
    ∃ x, read? p = some x ∧ Segment.numberValue p = .number x := by
  obtain ⟨digits, x, hx⟩ := exists_number?_of_matches h
  have hread : read? p = number? p := by
    obtain ⟨d, more, rfl, hd⟩ := Segment.number_head h
    exact read?_of_isDigit hd
  exact ⟨_, hread.trans hx, by simp [Segment.numberValue, hx]⟩

end ScriptFront.Numeral
