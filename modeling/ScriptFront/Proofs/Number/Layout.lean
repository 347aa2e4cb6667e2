import ScriptFront.Number.Layout
import ScriptFront.Proofs.Number.Digits
import ScriptFront.Proofs.Number.Shortest
import ScriptFront.Proofs.Scan.Number

/-! # The text of a number reads back

However the digits of a number are laid out, the text is a numeral of the value that the digits
have, so reading it gives the number back.
-/

namespace ScriptFront

namespace Numeral

theorem digitsValue_eq_value {ds : Bytes} (h : ∀ d ∈ ds, isDigit d = true) :
    digitsValue ds = value 10 ds := by
  unfold digitsValue value
  refine List.foldl_ext _ _ _ fun n d hd => ?_
  rw [digitValue, if_pos (h d hd)]

theorem isExponent_of_digits {ds : Bytes} (hne : ds ≠ []) (hd : ∀ d ∈ ds, isDigit d) {x : Int}
    (hx : value 10 ds = x.natAbs) :
    IsExponent (byte 'e' :: (if x < 0 then byte '-' else byte '+') :: ds) x := by
  have hdigits : ds.all (fun b => isDigit b || b == byte '_') = true :=
    List.all_eq_true.mpr fun d h => by simp [hd d h]
  have hfilter : ds.filter isDigit = ds := List.filter_eq_self.mpr hd
  have hvalue : digitsValue ds = x.natAbs := (digitsValue_eq_value hd).trans hx
  obtain ⟨d, more, rfl⟩ := List.exists_cons_of_ne_nil hne
  have hfirst : isDigit d = true := hd d (by simp)
  refine .inr ⟨_, rfl, ?_, ?_⟩
  · by_cases h : x < 0
    · have hsigned : signed (byte '-' :: d :: more) = (true, d :: more) := rfl
      simp only [exponent?, h, ↓reduceIte, hsigned, hfirst, hdigits, hfilter, hvalue, Bool.and_self]
      simp only [Option.some.injEq]
      omega
    · have hsigned : signed (byte '+' :: d :: more) = (false, d :: more) := rfl
      simp only [exponent?, h, ↓reduceIte, hsigned, hfirst, hdigits, hfilter, hvalue, Bool.and_self]
      simp only [Option.some.injEq, Bool.false_eq_true, ↓reduceIte]
      omega
  · refine List.forall_mem_cons.mpr ⟨?_, fun y hy => .inl (hd y hy)⟩
    unfold IsMark
    split <;> simp

end Numeral

/-! ### Layouts -/

namespace NumberLayout

open Numeral

/-- The text of an unsigned number, with a sign before it, is read as a decimal of the value `x`. -/
def Denotes (b : Bytes) (x : ℚ) : Prop :=
  (∀ y ∈ b, IsMark y) ∧
    ∃ (digits : Nat) (e : Int), (digits : ℚ) * 10 ^ e = x ∧ -400 ≤ e ∧
      ∀ negative : Bool, number? ((if negative then [byte '-'] else []) ++ b) =
        some (.ofDecimal negative digits e)

theorem denotes_of_parts (digits point fraction : Bytes) {b exponent : Bytes} {x : Int} {y : ℚ}
    (hb : b = digits ++ (point ++ exponent)) (hne : digits ≠ [])
    (hd : ∀ d ∈ digits ++ fraction, isDigit d)
    (hp : point = [] ∧ fraction = [] ∨ point = byte '.' :: fraction) (hx : IsExponent exponent x)
    (hy : y = value 10 (digits ++ fraction) * 10 ^ (x - fraction.length))
    (hlow : -400 ≤ x - fraction.length) : Denotes b y := by
  rw [List.forall_mem_append] at hd
  subst hb
  exact ⟨isMark_of_parts hd.1 hd.2 hp hx, _, _, hy.symm, hlow,
    fun negative => number?_of_parts negative hne hd.1 hd.2 hp hx⟩

theorem isDigit_of_mem_replicate (n : Nat) :
    ∀ d ∈ List.replicate n (byte '0'), isDigit d = true := by
  intro d hd
  rw [List.eq_of_mem_replicate hd]
  decide

variable {ds : Bytes}

theorem denotes_positional (hne : ds ≠ []) (hd : ∀ d ∈ ds, isDigit d) {point : Int}
    (hp : -400 ≤ point - ds.length) :
    Denotes (positional ds point) (value 10 ds * 10 ^ (point - ds.length)) := by
  have hnone : IsExponent [] 0 := .inl ⟨rfl, rfl⟩
  unfold positional
  split
  · rename_i hsmall
    have htext : text "0." = [byte '0', byte '.'] := by decide
    let zeros := List.replicate (-point).toNat (byte '0')
    have hlength : (0 : Int) - (zeros ++ ds).length = point - ds.length := by
      simp only [zeros, List.length_append, List.length_replicate]
      omega
    have hvalue : value 10 ([byte '0'] ++ (zeros ++ ds)) = value 10 ds := by
      have hzeros := value_replicate_zero 10 ((-point).toNat + 1)
      rw [List.replicate_succ] at hzeros
      rw [← List.append_assoc, value_append]
      simp only [zeros, List.singleton_append, hzeros, Nat.zero_mul, Nat.zero_add]
    refine denotes_of_parts [byte '0'] _ (zeros ++ ds) ?_ (by simp) ?_ (.inr rfl) hnone ?_ ?_
    · simp [htext, zeros]
    · simp only [List.forall_mem_append]
      exact ⟨by simp; decide, isDigit_of_mem_replicate _, hd⟩
    · rw [hvalue, hlength]
    · rwa [hlength]
  split
  · rename_i hpos hlong
    let zeros := List.replicate (point.toNat - ds.length) (byte '0')
    have hvalue : value 10 (ds ++ zeros ++ []) = value 10 ds * 10 ^ (point.toNat - ds.length) := by
      rw [List.append_nil, value_append, value_replicate_zero, List.length_replicate, Nat.add_zero]
    refine denotes_of_parts (ds ++ zeros) [] [] (by simp [zeros]) ?_ ?_ (.inl ⟨rfl, rfl⟩) hnone ?_
      (by simp)
    · exact List.append_ne_nil_of_left_ne_nil hne _
    · simp only [List.forall_mem_append]
      exact ⟨⟨hd, isDigit_of_mem_replicate _⟩, by simp⟩
    · have hexp : point - ds.length = ((point.toNat - ds.length : Nat) : Int) := by omega
      rw [hvalue, hexp]
      push_cast
      simp
  · rename_i hpos hshort
    have hlength : (0 : Int) - (ds.drop point.toNat).length = point - ds.length := by
      rw [List.length_drop]
      omega
    refine denotes_of_parts (ds.take point.toNat) _ (ds.drop point.toNat) (by simp) ?_ ?_ (.inr rfl)
      hnone ?_ ?_
    · simp only [ne_eq, List.take_eq_nil_iff, hne, or_false]
      omega
    · rwa [List.take_append_drop]
    · rw [List.take_append_drop, hlength]
    · rwa [hlength]

theorem denotes_scientific (hne : ds ≠ []) (hd : ∀ d ∈ ds, isDigit d) (width : Nat) {e : Int}
    (he : -400 ≤ e + 1 - ds.length) :
    Denotes (scientific width ds e) (value 10 ds * 10 ^ (e + 1 - ds.length)) := by
  let digits := Bytes.zeroPadded width (Bytes.decimal e.natAbs)
  have hdigits : ∀ d ∈ digits, isDigit d := by
    simp only [digits, Bytes.zeroPadded, List.forall_mem_append]
    exact ⟨isDigit_of_mem_replicate _, isDigit_of_mem_decimal _⟩
  have hexponent : IsExponent (byte 'e' :: (if e < 0 then byte '-' else byte '+') :: digits) e := by
    refine isExponent_of_digits ?_ hdigits ?_
    · exact List.append_ne_nil_of_right_ne_nil _ (decimal_ne_nil _)
    · exact (value_zeroPadded 10 width _).trans (value_decimal _)
  have hlength : (e : Int) - (ds.drop 1).length = e + 1 - ds.length := by
    have hpos := List.length_pos_iff.mpr hne
    rw [List.length_drop]
    omega
  refine denotes_of_parts (ds.take 1)
    (if (ds.drop 1).isEmpty then [] else byte '.' :: ds.drop 1) (ds.drop 1) ?_ ?_
    (by rwa [List.take_append_drop]) ?_ hexponent ?_ ?_
  · simp [scientific, digits]
  · simp [hne]
  · split
    · rename_i h
      exact .inl ⟨rfl, List.isEmpty_iff.mp h⟩
    · exact .inr rfl
  · rw [List.take_append_drop, hlength]
  · rwa [hlength]

theorem exists_decimal_eq (n : Nat) :
    ∃ zeros, Bytes.decimal n = significant n ++ List.replicate zeros (byte '0') := by
  let dropped := (Bytes.decimal n).reverse.takeWhile (· == byte '0')
  have hall : dropped.reverse = List.replicate dropped.length (byte '0') := by
    refine List.eq_replicate_iff.mpr ⟨List.length_reverse, fun d hd => ?_⟩
    have hzero := List.mem_takeWhile_imp (List.mem_reverse.mp hd)
    simpa using hzero
  refine ⟨dropped.length, ?_⟩
  rw [significant, ← hall, ← List.reverse_append, List.takeWhile_append_dropWhile,
    List.reverse_reverse]

theorem denotes_decimal (l : NumberLayout) {d : Shortest.Decimal} (hd : 0 < d.digits)
    (he : -400 ≤ d.exponent) : Denotes (l.decimal d) d.toRat := by
  obtain ⟨zeros, hzeros⟩ := exists_decimal_eq d.digits
  have hvalue : d.digits = value 10 (significant d.digits) * 10 ^ zeros := by
    have h := value_decimal d.digits
    rw [hzeros, value_append, value_replicate_zero, List.length_replicate, Nat.add_zero] at h
    exact h.symm
  have hlength : (Bytes.decimal d.digits).length = (significant d.digits).length + zeros := by
    rw [hzeros, List.length_append, List.length_replicate]
  have hdigits : ∀ x ∈ significant d.digits, isDigit x := fun x hx =>
    isDigit_of_mem_decimal _ x (hzeros ▸ List.mem_append_left _ hx)
  generalize hds : significant d.digits = ds at *
  have hne : ds ≠ [] := by
    rintro rfl
    rw [hvalue] at hd
    simp [value] at hd
  have hrat : d.toRat = value 10 ds * 10 ^ (d.exponent + zeros) := by
    rw [Shortest.Decimal.toRat, hvalue, zpow_add₀ (by norm_num), zpow_natCast]
    push_cast
    ring
  have hpoint : d.exponent + zeros =
      d.exponent + (ds.length + zeros : Nat) - 1 + 1 - ds.length := by
    push_cast
    omega
  rw [decimal, hds, hlength, hrat, hpoint]
  split
  · exact denotes_positional hne hdigits (by omega)
  · exact denotes_scientific hne hdigits _ (by omega)

end NumberLayout

/-! ### Reading back -/

namespace Binary64

theorem ofDecimal_of_roundsTo {digits m : Nat} {e x : Int} (hm : 0 < m) (hn : IsNormal m e)
    (he : e ≤ greatestExponent) (hx : -400 ≤ x) (h : RoundsTo (digits * 10 ^ x) m e)
    (negative : Bool) : ofDecimal negative digits x = .finite negative m e := by
  have hdigits : 0 < digits := Shortest.Decimal.digits_pos (d := ⟨digits, x⟩) hm h
  have hx' : x ≤ 400 := by
    by_contra hlarge
    have hm53 : (m : ℚ) + 1 ≤ 2 ^ (53 : Int) := by exact_mod_cast hn.lt_bound
    have hupper : upperEnd m e ≤ 2 ^ (1024 : Int) := by
      calc upperEnd m e ≤ 2 ^ (53 : Int) * 2 ^ (971 : Int) := by
            unfold upperEnd
            gcongr
            · linarith
            · exact one_le_two
            · exact he
        _ = 2 ^ (1024 : Int) := by rw [← zpow_add₀ two_ne_zero]; rfl
    have hten : (10 : ℚ) ^ (401 : Int) ≤ digits * 10 ^ x := by
      calc (10 : ℚ) ^ (401 : Int) ≤ 10 ^ x := zpow_le_zpow_right₀ (by norm_num) (by omega)
        _ ≤ digits * 10 ^ x := le_mul_of_one_le_left (by positivity) (by exact_mod_cast hdigits)
    have hpowers : (2 : ℚ) ^ (1024 : Int) ≤ 10 ^ (400 : Int) :=
      Shortest.zpow_le_zpow_of_pow_le (p := 3) (q := 1) one_le_two (by norm_num) (by decide)
        (by norm_num) (by decide) (by decide)
    have hlt : (10 : ℚ) ^ (400 : Int) < 10 ^ (401 : Int) :=
      zpow_lt_zpow_right₀ (by norm_num) (by decide)
    exact absurd (hten.trans (h.upper.trans (hupper.trans hpowers))) (not_le.mpr hlt)
  have hcut : max (min x 400) (-(400 + (Nat.log2 digits + 1 : Int))) = x := by omega
  have hten := power_pos (show 0 < 10 by decide) x
  rw [ofDecimal]
  dsimp only
  rw [hcut]
  refine ofRatio_of_roundsTo (Nat.mul_pos hdigits hten.1) hten.2 hn he ?_ negative
  have hcast := cast_power 10 x
  push_cast at hcast ⊢
  rwa [mul_div_assoc, hcast]

end Binary64

/-- The text of a number is a numeral that is read as the number. -/
theorem Numeral.number?_write {m : Nat} {e : Int} (hn : Binary64.IsNormal m e)
    (he : e ≤ Binary64.greatestExponent) (l : NumberLayout) (negative : Bool) :
    number? (l.write (.finite negative m e)) = some (.finite negative m e) ∧
      ∀ y ∈ l.write (.finite negative m e), IsMark y := by
  have hsign : ∀ y ∈ (if negative then [byte '-'] else []), IsMark y := by
    cases negative <;> simp [IsMark]
  by_cases hm : m = 0
  · subst hm
    obtain rfl : e = Binary64.leastExponent := hn.full.resolve_left (by decide)
    have hdigit : ∀ d ∈ [byte '0'], isDigit d := by simp; decide
    have hread := number?_of_parts negative (by simp) hdigit (List.forall_mem_nil _)
      (.inl ⟨rfl, rfl⟩) (.inl ⟨rfl, rfl⟩)
    refine ⟨hread, ?_⟩
    exact List.forall_mem_append.mpr ⟨hsign, by simp [IsMark]; decide⟩
  · have hpos : 0 < m := Nat.pos_of_ne_zero hm
    obtain ⟨hround, hlow⟩ := Shortest.ofBinary_spec hpos hn he
    obtain ⟨hmarks, digits, x, hvalue, hx, hread⟩ :=
      l.denotes_decimal (Shortest.Decimal.digits_pos hpos hround) (by omega)
    rw [← hvalue] at hround
    rw [NumberLayout.write, if_neg hm, hread,
      Binary64.ofDecimal_of_roundsTo hpos hn he hx hround]
    exact ⟨rfl, List.forall_mem_append.mpr ⟨hsign, hmarks⟩⟩

end ScriptFront
