import ScriptFront.Number.Shortest
import ScriptFront.Proofs.Number.Rounding

/-! # The shortest decimal reads back

The decimal that is chosen for a number is in the interval of the number. Seventeen digits are
always enough: at that many, decimals are closer to each other than the interval is wide.
-/

namespace ScriptFront.Shortest

open Binary64

def Decimal.toRat (d : Decimal) : ℚ := d.digits * 10 ^ d.exponent

/-! ### Points of the scaled interval -/

theorem mul_power_le_iff {b c : Nat} (hb : 0 < b) (hc : 0 < c) (x y : Nat) (p q : Int) :
    x * ((power b p).1 * (power c q).2) ≤ y * ((power c q).1 * (power b p).2) ↔
      (x : ℚ) * b ^ p ≤ y * c ^ q := by
  have hbp : (0 : ℚ) < (power b p).2 := by exact_mod_cast (power_pos hb p).2
  have hcq : (0 : ℚ) < (power c q).2 := by exact_mod_cast (power_pos hc q).2
  rw [← cast_power b p, ← cast_power c q, ← mul_div_assoc, ← mul_div_assoc, div_le_div_iff₀ hbp hcq,
    mul_assoc, mul_assoc]
  exact_mod_cast Iff.rfl

namespace Interval

theorem contains_iff {i : Interval} {x : Nat} :
    i.contains x = true ↔
      i.low ≤ x ∧ x ≤ i.high ∧ (i.closed = false → x ≠ i.low ∧ x ≠ i.high) := by
  unfold contains
  cases i.closed with
  | true => simp
  | false =>
    simp only [Bool.and_eq_true, decide_eq_true_eq, Bool.false_eq_true, ↓reduceIte, forall_const]
    omega

theorem contains_of_nearest? {i : Interval} {step q : Nat} (h : i.nearest? step = some q) :
    i.contains (q * step) = true := by
  dsimp only [nearest?] at h
  split at h
  · cases h
  · rename_i hbelow _
    obtain rfl := Option.some.inj h
    exact hbelow
  · rename_i habove
    obtain rfl := Option.some.inj h
    exact habove
  · rename_i hbelow habove
    split at h <;> obtain rfl := Option.some.inj h
    · exact hbelow
    · exact habove

theorem isSome_nearest? {i : Interval} {step : Nat}
    (h : i.contains (i.mid / step * step) = true ∨
      i.contains ((i.mid / step + 1) * step) = true) : (i.nearest? step).isSome = true := by
  dsimp only [nearest?]
  split
  · simp_all
  · rfl
  · rfl
  · split <;> rfl

theorem zpow_eq_four_mul (e : Int) : (2 : ℚ) ^ e = 4 * 2 ^ (e - 2) := by
  rw [zpow_sub₀ two_ne_zero]
  norm_num
  ring

theorem cast_low {m : Nat} (hm : 0 < m) (e : Int) :
    ((ofBinary m e).low : ℚ) * 2 ^ (e - 2) = lowerEnd m e := by
  rw [ofBinary, lowerEnd, zpow_eq_four_mul e]
  split
  · push_cast [Nat.cast_sub (by omega : 1 ≤ 4 * m)]
    ring
  · push_cast [Nat.cast_sub (by omega : 2 ≤ 4 * m)]
    ring

theorem cast_mid (m : Nat) (e : Int) : ((ofBinary m e).mid : ℚ) * 2 ^ (e - 2) = m * 2 ^ e := by
  rw [ofBinary, zpow_eq_four_mul e]
  push_cast
  ring

theorem cast_high (m : Nat) (e : Int) :
    ((ofBinary m e).high : ℚ) * 2 ^ (e - 2) = upperEnd m e := by
  rw [ofBinary, upperEnd, zpow_eq_four_mul e]
  push_cast
  ring

theorem contains_scale_iff {m : Nat} (hm : 0 < m) (e p : Int) (x : Nat) :
    ((ofBinary m e).scale ((power 2 (e - 2)).1 * (power 10 p).2)).contains
        (x * ((power 10 p).1 * (power 2 (e - 2)).2)) = true ↔ RoundsTo (x * 10 ^ p) m e := by
  have hle (y : Nat) := mul_power_le_iff (b := 2) (c := 10) two_pos (by decide) y x (e - 2) p
  have hge (y : Nat) := mul_power_le_iff (b := 10) (c := 2) (by decide) two_pos x y p (e - 2)
  push_cast at hle hge
  have heq (y : Nat) : x * ((power 10 p).1 * (power 2 (e - 2)).2) =
      y * ((power 2 (e - 2)).1 * (power 10 p).2) ↔ (x * 10 ^ p : ℚ) = y * 2 ^ (e - 2) := by
    rw [le_antisymm_iff, hle, hge, ← le_antisymm_iff]
  have hclosed : (ofBinary m e).closed = false ↔ m % 2 = 1 := by
    simp [ofBinary]
  rw [contains_iff]
  simp only [scale, hle, hge, heq, ne_eq, hclosed, cast_low hm, cast_high]
  exact ⟨fun h => ⟨h.1, h.2.1, h.2.2⟩, fun h => ⟨h.lower, h.upper, h.even⟩⟩

end Interval

/-! ### The chosen decimal -/

theorem roundsTo_of_withDigits? {m : Nat} (hm : 0 < m) {e : Int} {count : Nat} {d : Decimal}
    (h : withDigits? m e count = some d) :
    RoundsTo d.toRat m e ∧ d.exponent = magnitude m e - count := by
  simp only [withDigits?, bind, pure, Option.bind_eq_some_iff, Option.some.injEq] at h
  obtain ⟨digits, hdigits, rfl⟩ := h
  refine ⟨(Interval.contains_scale_iff hm e _ digits).mp ?_, rfl⟩
  exact Interval.contains_of_nearest? hdigits

/-- The digits before the point are estimated from the power of two below the number; if the
estimate is not right, the number is at least the power of ten before. -/
theorem magnitude_spec {m : Nat} (hm : 0 < m) (e : Int) :
    ∃ b : Int, (2 : ℚ) ^ b ≤ m * 2 ^ e ∧ (m * 2 ^ e : ℚ) < 2 ^ (b + 1) ∧
      let guess := b * 30103 / 100000
      (magnitude m e = guess ∨ (magnitude m e = guess + 1 ∨ magnitude m e = guess + 2) ∧
        (10 : ℚ) ^ (magnitude m e - 1) ≤ m * 2 ^ e) := by
  have hpos := power_pos two_pos e
  have hvalue : ((m * (power 2 e).1 : Nat) : ℚ) / (power 2 e).2 = m * 2 ^ e := by
    have hcast := cast_power 2 e
    push_cast at hcast ⊢
    rw [mul_div_assoc, hcast]
  obtain ⟨hlow, hhigh⟩ := Binary64.magnitude_spec (Nat.mul_pos hm hpos.1) hpos.2
  rw [hvalue] at hlow hhigh
  refine ⟨_, hlow, hhigh, ?_⟩
  intro guess
  have hbelow (k : Int) (h : (decide (m * (power 2 e).1 * (power 10 k).2 <
      (power 2 e).2 * (power 10 k).1)) = false) : (10 : ℚ) ^ k ≤ m * 2 ^ e := by
    rw [decide_eq_false_iff_not, not_lt, power_le_iff (by decide) hpos.2, hvalue] at h
    exact_mod_cast h
  have hk : magnitude m e = ([guess, guess + 1].find? fun k => decide (m * (power 2 e).1 *
      (power 10 k).2 < (power 2 e).2 * (power 10 k).1)).getD (guess + 2) := rfl
  rw [hk, List.find?_cons]
  split
  · exact .inl rfl
  · rename_i hguess
    right
    rw [List.find?_cons]
    split
    · exact ⟨.inl rfl, by simpa using hbelow guess hguess⟩
    · rename_i hnext
      refine ⟨.inr rfl, ?_⟩
      have hpower := hbelow (guess + 1) hnext
      rwa [List.find?_nil, Option.getD_none, add_sub_assoc]

/-- Powers of different bases compared by powers that are close to each other. -/
theorem zpow_le_zpow_of_pow_le {x y : ℚ} (hx : 1 ≤ x) (hy : 0 < y) {p q : Nat} (hq : q ≠ 0)
    (h : x ^ p ≤ y ^ q) {c n : Int} (hn : 0 ≤ n) (hc : c * q ≤ p * n) : x ^ c ≤ y ^ n := by
  have hx0 : 0 < x := zero_lt_one.trans_le hx
  refine le_of_pow_le_pow_left₀ hq (by positivity) ?_
  calc (x ^ c) ^ q = x ^ (c * q) := by rw [zpow_mul, zpow_natCast]
    _ ≤ x ^ (p * n) := zpow_le_zpow_right₀ hx hc
    _ = (x ^ p) ^ n := by rw [zpow_mul, zpow_natCast]
    _ ≤ (y ^ q) ^ n := zpow_le_zpow_left₀ hn (by positivity) h
    _ = (y ^ n) ^ q := by rw [← zpow_natCast, ← zpow_natCast, ← zpow_mul, ← zpow_mul, mul_comm]

theorem ten_zpow_le {b : Int} (hlow : -1074 ≤ b) (hhigh : b ≤ 1023) :
    (10 : ℚ) ^ (b * 30103 / 100000 - 1) ≤ 2 ^ b := by
  generalize hg : b * 30103 / 100000 - 1 = g
  by_cases hb : 0 ≤ b
  · exact zpow_le_zpow_of_pow_le (p := 3) (q := 10) (by norm_num) two_pos (by decide) (by norm_num)
      hb (by push_cast; omega)
  · have hinv : (2 : ℚ) ^ (-b) ≤ 10 ^ (-g) :=
      zpow_le_zpow_of_pow_le (p := 93) (q := 28) one_le_two (by norm_num) (by decide) (by norm_num)
        (by omega) (by push_cast; omega)
    have hflip := inv_anti₀ (by positivity) hinv
    rwa [zpow_neg, zpow_neg, inv_inv, inv_inv] at hflip

theorem ten_zpow_magnitude_le {m : Nat} (hm : 0 < m) {e : Int} (hn : IsNormal m e)
    (he : e ≤ greatestExponent) :
    (10 : ℚ) ^ (magnitude m e - 1) ≤ m * 2 ^ e ∧ -330 ≤ magnitude m e := by
  obtain ⟨b, hlow, hhigh, hk⟩ := magnitude_spec hm e
  have hm1 : (1 : ℚ) ≤ m := by exact_mod_cast hm
  have hm53 : (m : ℚ) < 2 ^ (53 : Int) := by exact_mod_cast hn.lt_bound
  have hb : -1074 ≤ b := by
    have hlt : (2 : ℚ) ^ (-1074 : Int) < 2 ^ (b + 1) := by
      calc (2 : ℚ) ^ (-1074 : Int) ≤ 2 ^ e := zpow_le_zpow_right₀ one_le_two hn.least_le
        _ ≤ m * 2 ^ e := le_mul_of_one_le_left (by positivity) hm1
        _ < 2 ^ (b + 1) := hhigh
    have := (zpow_lt_zpow_iff_right₀ one_lt_two).mp hlt
    omega
  have hb' : b ≤ 1023 := by
    have hlt : (2 : ℚ) ^ b < 2 ^ (53 + e) := by
      calc (2 : ℚ) ^ b ≤ m * 2 ^ e := hlow
        _ < 2 ^ (53 : Int) * 2 ^ e := by gcongr
        _ = 2 ^ (53 + e) := (zpow_add₀ two_ne_zero _ _).symm
    have hexp := (zpow_lt_zpow_iff_right₀ one_lt_two).mp hlt
    have he971 : e ≤ 971 := he
    omega
  rcases hk with hk | ⟨hk, hle⟩
  · rw [hk]
    exact ⟨(ten_zpow_le hb hb').trans hlow, by omega⟩
  · exact ⟨hle, by omega⟩

/-- The interval is wider than the step between decimals of seventeen digits. -/
theorem lowerEnd_add_lt {m : Nat} {e : Int} (hm : m < mantissaBound) {step : ℚ}
    (h : step * 10 ^ 16 ≤ m * 2 ^ e) : lowerEnd m e + step < upperEnd m e := by
  have hpos : (0 : ℚ) < 2 ^ e := by positivity
  unfold lowerEnd upperEnd
  split
  · rename_i hedge
    have hm52 : (m : ℚ) = 2 ^ 52 := by exact_mod_cast hedge.1
    rw [hm52] at h ⊢
    linarith
  · have hm53 : (m : ℚ) ≤ 2 ^ 53 := by exact_mod_cast hm.le
    have hstep : step * 10 ^ 16 ≤ 2 ^ 53 * 2 ^ e := h.trans (by gcongr)
    linarith

theorem roundsTo_or {m : Nat} {e : Int} (hm : m < mantissaBound) {x step : ℚ}
    (hstep : step * 10 ^ 16 ≤ m * 2 ^ e) (hx : x ≤ m * 2 ^ e) (hx' : m * 2 ^ e < x + step) :
    RoundsTo x m e ∨ RoundsTo (x + step) m e := by
  have hpos : (0 : ℚ) < 2 ^ e := by positivity
  have hlower : lowerEnd m e < m * 2 ^ e := by
    unfold lowerEnd
    gcongr
    split <;> norm_num
  have hupper : (m * 2 ^ e : ℚ) < upperEnd m e := by
    unfold upperEnd
    gcongr
    norm_num
  by_cases h : lowerEnd m e < x
  · exact .inl (.of_lt h (hx.trans_lt hupper))
  · have hwide := lowerEnd_add_lt hm hstep
    exact .inr (.of_lt (hlower.trans hx') (by linarith))

/-- Seventeen digits are enough. -/
theorem isSome_withDigits? {m : Nat} (hm : 0 < m) {e : Int} (hn : IsNormal m e)
    (he : e ≤ greatestExponent) : (withDigits? m e mostDigits).isSome = true := by
  obtain ⟨hten, -⟩ := ten_zpow_magnitude_le hm hn he
  generalize hp : magnitude m e - mostDigits = p
  have hstep : (10 : ℚ) ^ p * 10 ^ 16 ≤ m * 2 ^ e := by
    rw [← zpow_natCast, ← zpow_add₀ (by norm_num)]
    have hexp : p + ((16 : Nat) : Int) = magnitude m e - 1 := by
      simp only [mostDigits] at hp
      omega
    rwa [hexp]
  let i := (Interval.ofBinary m e).scale ((power 2 (e - 2)).1 * (power 10 p).2)
  let step := (power 10 p).1 * (power 2 (e - 2)).2
  have hpos : 0 < step := Nat.mul_pos (power_pos (by decide) p).1 (power_pos two_pos _).2
  have hmid (x : Nat) : x * step ≤ i.mid ↔ (x * 10 ^ p : ℚ) ≤ m * 2 ^ e := by
    have h := mul_power_le_iff (b := 10) (c := 2) (by decide) two_pos x
      (Interval.ofBinary m e).mid p (e - 2)
    push_cast at h
    rwa [Interval.cast_mid] at h
  have hbelow := (hmid (i.mid / step)).mp (Nat.div_mul_le_self _ _)
  have habove := mt (hmid (i.mid / step + 1)).mpr
    (not_le.mpr (mul_comm step _ ▸ Nat.lt_mul_div_succ i.mid hpos))
  have hsome : (i.nearest? step).isSome = true := by
    refine Interval.isSome_nearest? ?_
    rw [Interval.contains_scale_iff hm, Interval.contains_scale_iff hm]
    push_cast [add_one_mul] at habove ⊢
    exact roundsTo_or hn.lt_bound hstep hbelow (not_le.mp habove)
  obtain ⟨digits, hdigits⟩ := Option.isSome_iff_exists.mp hsome
  have hwith : withDigits? m e mostDigits = some ⟨digits, p⟩ := by
    simp only [withDigits?, hp, bind, pure, Option.bind_eq_some_iff]
    exact ⟨digits, hdigits, rfl⟩
  rw [hwith]
  rfl

/-- The shortest decimal of a number is rounded to it; its exponent is not too small. -/
theorem ofBinary_spec {m : Nat} (hm : 0 < m) {e : Int} (hn : IsNormal m e)
    (he : e ≤ greatestExponent) :
    let d := ofBinary m e
    RoundsTo d.toRat m e ∧ -347 ≤ d.exponent := by
  have hfound : ((List.range mostDigits).findSome? fun n => withDigits? m e (n + 1)).isSome := by
    rw [List.findSome?_isSome_iff]
    exact ⟨16, by decide, isSome_withDigits? hm hn he⟩
  obtain ⟨d, hd⟩ := Option.isSome_iff_exists.mp hfound
  obtain ⟨n, hmem, hwith⟩ := List.exists_of_findSome?_eq_some hd
  have hlt : n < mostDigits := List.mem_range.mp hmem
  obtain ⟨hround, hexp⟩ := roundsTo_of_withDigits? hm hwith
  obtain ⟨-, hlow⟩ := ten_zpow_magnitude_le hm hn he
  simp only [mostDigits] at hlt
  rw [ofBinary, hd, Option.getD_some]
  exact ⟨hround, by omega⟩

theorem Decimal.digits_pos {d : Decimal} {m : Nat} {e : Int} (hm : 0 < m)
    (h : RoundsTo d.toRat m e) : 0 < d.digits := by
  rw [Nat.pos_iff_ne_zero]
  intro hzero
  have hlower := h.lower
  rw [toRat, hzero, Nat.cast_zero, zero_mul] at hlower
  have hm1 : (1 : ℚ) ≤ m := by exact_mod_cast hm
  have hhalf : (0 : ℚ) < (m - 1 / 2) * 2 ^ e := mul_pos (by linarith) (by positivity)
  exact absurd (hhalf.trans_le (le_lowerEnd m e)) (not_lt.mpr hlower)

end ScriptFront.Shortest
