import Mathlib.Algebra.Order.Field.Power
import Mathlib.Algebra.Order.Ring.Rat
import Mathlib.Tactic.FieldSimp
import Mathlib.Tactic.Linarith
import Mathlib.Tactic.NormNum
import Mathlib.Tactic.Positivity
import Mathlib.Tactic.Ring
import ScriptFront.Number.Binary64

/-! # Rounding

The reals that round to a number are an interval around it. The intervals of different numbers have
no point in common, and the number that a quotient is rounded to is the one whose interval it is
in.
-/

namespace ScriptFront.Binary64

/-! ### Powers and quotients -/

theorem power_pos {base : Nat} (hb : 0 < base) (e : Int) :
    0 < (power base e).1 ∧ 0 < (power base e).2 := by
  unfold power
  split
  · exact ⟨Nat.pow_pos hb, Nat.one_pos⟩
  · exact ⟨Nat.one_pos, Nat.pow_pos hb⟩

theorem cast_power (base : Nat) (e : Int) :
    ((power base e).1 : ℚ) / (power base e).2 = (base : ℚ) ^ e := by
  unfold power
  split
  · rename_i he
    obtain ⟨n, rfl⟩ := Int.eq_ofNat_of_zero_le he
    simp
  · rename_i he
    obtain ⟨n, hn⟩ := Int.eq_ofNat_of_zero_le (by omega : 0 ≤ -e)
    obtain rfl : e = -(n : Int) := by omega
    simp

theorem power_le_iff {base num den : Nat} (hb : 0 < base) (hd : 0 < den) (e : Int) :
    den * (power base e).1 ≤ num * (power base e).2 ↔ (base : ℚ) ^ e ≤ num / den := by
  have hdq : (0 : ℚ) < den := by exact_mod_cast hd
  have hdown : (0 : ℚ) < (power base e).2 := by exact_mod_cast (power_pos hb e).2
  rw [← cast_power, div_le_div_iff₀ hdown hdq, mul_comm ((power base e).1 : ℚ)]
  exact_mod_cast Iff.rfl

/-- A quotient is between two powers of two that follow each other. -/
theorem magnitude_spec {num den : Nat} (hn : 0 < num) (hd : 0 < den) :
    (2 : ℚ) ^ magnitude num den ≤ num / den ∧
      (num / den : ℚ) < 2 ^ (magnitude num den + 1) := by
  have hdq : (0 : ℚ) < den := by exact_mod_cast hd
  have hnum : (2 : ℚ) ^ num.log2 ≤ num := by exact_mod_cast Nat.log2_self_le hn.ne'
  have hnum' : (num : ℚ) < 2 ^ (num.log2 + 1) := by exact_mod_cast Nat.lt_log2_self
  have hden : (2 : ℚ) ^ den.log2 ≤ den := by exact_mod_cast Nat.log2_self_le hd.ne'
  have hden' : (den : ℚ) < 2 ^ (den.log2 + 1) := by exact_mod_cast Nat.lt_log2_self
  have hexp (k : Int) (a b : Nat) (hk : k = a - b) : (2 : ℚ) ^ k * 2 ^ b = 2 ^ a := by
    rw [hk, zpow_sub₀ two_ne_zero, zpow_natCast, zpow_natCast]
    field_simp
  let k : Int := (num.log2 : Int) - (den.log2 : Int)
  have hk : magnitude num den =
      if den * (power 2 k).1 ≤ num * (power 2 k).2 then k else k - 1 := rfl
  rw [hk]
  split
  · rename_i h
    refine ⟨by exact_mod_cast (power_le_iff two_pos hd k).mp h, ?_⟩
    rw [div_lt_iff₀ hdq]
    calc (num : ℚ) < 2 ^ (num.log2 + 1) := hnum'
      _ = 2 ^ (k + 1) * 2 ^ den.log2 := (hexp _ _ _ (by push_cast; omega)).symm
      _ ≤ 2 ^ (k + 1) * den := by gcongr
  · rename_i h
    rw [power_le_iff two_pos hd, not_le] at h
    refine ⟨?_, by simpa using h⟩
    rw [le_div_iff₀ hdq]
    calc (2 : ℚ) ^ (k - 1) * den ≤ 2 ^ (k - 1) * 2 ^ (den.log2 + 1) := by gcongr
      _ = 2 ^ num.log2 := hexp _ _ _ (by push_cast; omega)
      _ ≤ num := hnum

/-- The integer is nearest to `x`, and even if there is a second one. -/
structure IsNearest (x : ℚ) (q : Nat) : Prop where
  lower : (q : ℚ) - 1 / 2 ≤ x
  upper : x ≤ q + 1 / 2
  even : q % 2 = 1 → x ≠ q - 1 / 2 ∧ x ≠ q + 1 / 2

theorem roundedQuotient_isNearest (num : Nat) {den : Nat} (hd : 0 < den) :
    IsNearest (num / den) (roundedQuotient num den) := by
  have hdq : (0 : ℚ) < den := by exact_mod_cast hd
  generalize hq : num / den = q
  generalize hr : num % den = r
  obtain ⟨f, hf⟩ : ∃ f : ℚ, f = r / den := ⟨_, rfl⟩
  have hvalue : (num / den : ℚ) = q + f := by
    have hsplit : (num : ℚ) = den * q + r := by
      exact_mod_cast hq ▸ hr ▸ (Nat.div_add_mod num den).symm
    rw [hsplit, hf]
    field_simp
  have hf0 : 0 ≤ f := by rw [hf]; positivity
  have hf1 : f < 1 := by
    rw [hf, div_lt_one hdq]
    exact_mod_cast hr ▸ Nat.mod_lt num hd
  have hlt : 2 * r < den ↔ f < 1 / 2 := by
    rw [hf, div_lt_div_iff₀ hdq two_pos]
    exact_mod_cast by rw [one_mul, mul_comm]
  have heq : 2 * r = den ↔ f = 1 / 2 := by
    rw [hf, div_eq_div_iff hdq.ne' two_ne_zero]
    exact_mod_cast by rw [one_mul, mul_comm]
  rw [hvalue, roundedQuotient, hq, hr]
  simp only [Bool.or_eq_true, Bool.and_eq_true, decide_eq_true_eq, beq_iff_eq, hlt, heq]
  split
  · rename_i h
    refine ⟨by linarith, ?_, fun hodd => ⟨by linarith, ?_⟩⟩
    · rcases h with h | ⟨h, -⟩ <;> linarith
    · rcases h with h | ⟨-, h⟩
      · linarith
      · omega
  · rename_i h
    have hhalf : 1 / 2 ≤ f := by
      by_contra hlt
      exact h (.inl (not_le.mp hlt))
    have hsucc : ((q + 1 : Nat) : ℚ) = q + 1 := Nat.cast_succ q
    refine ⟨by linarith, by linarith, fun hodd => ⟨fun hx => ?_, by linarith⟩⟩
    exact h (.inr ⟨by linarith, by omega⟩)

/-! ### The interval of a number -/

/-- A mantissa and an exponent as numbers have them. -/
structure IsNormal (m : Nat) (e : Int) : Prop where
  lt_bound : m < mantissaBound
  least_le : leastExponent ≤ e
  full : mantissaBound / 2 ≤ m ∨ e = leastExponent

/-- The least real that is not nearer to a number below. Where the exponent changes, the numbers
below are closer. -/
def lowerEnd (m : Nat) (e : Int) : ℚ :=
  (m - if m = mantissaBound / 2 ∧ leastExponent < e then 1 / 4 else 1 / 2) * 2 ^ e

/-- The greatest real that is not nearer to a number above. -/
def upperEnd (m : Nat) (e : Int) : ℚ := (m + 1 / 2) * 2 ^ e

/-- The real `x` is rounded to `m * 2 ^ e`. -/
structure RoundsTo (x : ℚ) (m : Nat) (e : Int) : Prop where
  lower : lowerEnd m e ≤ x
  upper : x ≤ upperEnd m e
  even : m % 2 = 1 → x ≠ lowerEnd m e ∧ x ≠ upperEnd m e

theorem RoundsTo.of_lt {x : ℚ} {m : Nat} {e : Int} (hl : lowerEnd m e < x) (hu : x < upperEnd m e) :
    RoundsTo x m e :=
  ⟨hl.le, hu.le, fun _ => ⟨hl.ne', hu.ne⟩⟩

theorem lowerEnd_eq_of_ne {m : Nat} {e : Int} (h : ¬(m = mantissaBound / 2 ∧ leastExponent < e)) :
    lowerEnd m e = (m - 1 / 2) * 2 ^ e := by
  rw [lowerEnd, if_neg h]

theorem le_lowerEnd (m : Nat) (e : Int) : ((m : ℚ) - 1 / 2) * 2 ^ e ≤ lowerEnd m e := by
  unfold lowerEnd
  gcongr
  split <;> norm_num

theorem upperEnd_lt_or_of_lt {m m' : Nat} (e : Int) (h : m < m') :
    upperEnd m e < lowerEnd m' e ∨
      upperEnd m e = lowerEnd m' e ∧ (m % 2 = 1 ∨ m' % 2 = 1) := by
  have hpos : (0 : ℚ) < 2 ^ e := by positivity
  rcases (Nat.succ_le_of_lt h).eq_or_lt with rfl | hlt
  · have hsucc : ((m + 1 : Nat) : ℚ) - 1 / 2 = m + 1 / 2 := by
      push_cast
      ring
    have hle : upperEnd m e ≤ lowerEnd (m + 1) e := by
      have hend := le_lowerEnd (m + 1) e
      rwa [hsucc] at hend
    rcases hle.lt_or_eq with hlt | heq
    · exact .inl hlt
    · exact .inr ⟨heq, by omega⟩
  · left
    have hgap : (m : ℚ) + 2 ≤ m' := by exact_mod_cast hlt
    calc upperEnd m e < (m' - 1 / 2) * 2 ^ e := by
          unfold upperEnd
          gcongr
          linarith
      _ ≤ lowerEnd m' e := le_lowerEnd m' e

/-- Intervals of different exponents. A number with the greater one has a full mantissa. -/
theorem upperEnd_lt_or_of_full {m m' : Nat} {e e' : Int} (hm : m < 2 ^ 53) (hm' : 2 ^ 52 ≤ m')
    (he : leastExponent ≤ e) (h : e < e') :
    upperEnd m e < lowerEnd m' e' ∨
      upperEnd m e = lowerEnd m' e' ∧ (m % 2 = 1 ∨ m' % 2 = 1) := by
  have hpos : (0 : ℚ) < 2 ^ e := by positivity
  have hdouble : (2 : ℚ) * 2 ^ e ≤ 2 ^ e' := by
    rw [← zpow_one_add₀ two_ne_zero]
    exact zpow_le_zpow_right₀ one_le_two (by omega)
  have hm53 : (m : ℚ) + 1 ≤ 2 ^ 53 := by exact_mod_cast hm
  have hupper : upperEnd m e ≤ (2 ^ 53 - 1 / 2) * 2 ^ e := by
    unfold upperEnd
    gcongr
    linarith
  rcases hm'.eq_or_lt with rfl | hlt
  · have hlower : lowerEnd (2 ^ 52) e' = (2 ^ 52 - 1 / 4) * 2 ^ e' := by
      rw [lowerEnd, if_pos ⟨rfl, he.trans_lt h⟩]
      norm_num
    have hle : (2 ^ 53 - 1 / 2) * 2 ^ e ≤ lowerEnd (2 ^ 52) e' := by
      calc ((2 : ℚ) ^ 53 - 1 / 2) * 2 ^ e = (2 ^ 52 - 1 / 4) * (2 * 2 ^ e) := by ring
        _ ≤ (2 ^ 52 - 1 / 4) * 2 ^ e' := by gcongr
        _ = lowerEnd (2 ^ 52) e' := hlower.symm
    by_cases hlast : m + 1 = 2 ^ 53
    · rcases (hupper.trans hle).lt_or_eq with hlt | heq
      · exact .inl hlt
      · exact .inr ⟨heq, .inl (by omega)⟩
    · left
      have hm54 : (m : ℚ) + 2 ≤ 2 ^ 53 := by exact_mod_cast (by omega : m + 2 ≤ 2 ^ 53)
      refine lt_of_lt_of_le ?_ hle
      unfold upperEnd
      gcongr
      linarith
  · left
    have hm52 : (2 : ℚ) ^ 52 + 1 ≤ m' := by exact_mod_cast hlt
    calc upperEnd m e ≤ (2 ^ 53 - 1 / 2) * 2 ^ e := hupper
      _ < (2 ^ 52 + 1 / 2) * (2 * 2 ^ e) := by linarith
      _ ≤ (2 ^ 52 + 1 / 2) * 2 ^ e' := by gcongr
      _ ≤ (m' - 1 / 2) * 2 ^ e' := by gcongr; linarith
      _ ≤ lowerEnd m' e' := le_lowerEnd m' e'

/-- Intervals that follow each other meet in an end at most, and then it does not belong to both. -/
theorem upperEnd_lt_or {m m' : Nat} {e e' : Int} (hm : IsNormal m e) (hm' : IsNormal m' e')
    (h : e < e' ∨ e = e' ∧ m < m') :
    upperEnd m e < lowerEnd m' e' ∨
      upperEnd m e = lowerEnd m' e' ∧ (m % 2 = 1 ∨ m' % 2 = 1) := by
  rcases h with h | ⟨rfl, h⟩
  · have hleast := hm.least_le
    have hfull : 2 ^ 52 ≤ m' := hm'.full.resolve_right (by omega)
    exact upperEnd_lt_or_of_full hm.lt_bound hfull hleast h
  · exact upperEnd_lt_or_of_lt e h

/-- A real is rounded to one number only. -/
theorem RoundsTo.unique {x : ℚ} {m m' : Nat} {e e' : Int} (hm : IsNormal m e) (hm' : IsNormal m' e')
    (h : RoundsTo x m e) (h' : RoundsTo x m' e') : m = m' ∧ e = e' := by
  have hno {m m' : Nat} {e e' : Int} (hm : IsNormal m e) (hm' : IsNormal m' e')
      (h : RoundsTo x m e) (h' : RoundsTo x m' e') : ¬(e < e' ∨ e = e' ∧ m < m') := by
    intro hlt
    have hupper := h.upper
    have hlower := h'.lower
    rcases upperEnd_lt_or hm hm' hlt with hends | ⟨hends, hodd | hodd⟩
    · linarith
    · exact (h.even hodd).2 (by linarith)
    · exact (h'.even hodd).1 (by linarith)
  have h1 := hno hm hm' h h'
  have h2 := hno hm' hm h' h
  omega

/-! ### The number a quotient is rounded to -/

theorem RoundsTo.of_isNearest {x : ℚ} {m : Nat} {e : Int} (h : IsNearest (x / 2 ^ e) m)
    (hx : m = mantissaBound / 2 → leastExponent < e → (m : ℚ) * 2 ^ e ≤ x) : RoundsTo x m e := by
  have hpos : (0 : ℚ) < 2 ^ e := by positivity
  have hscaled {y : ℚ} (hy : x = y * 2 ^ e) : x / 2 ^ e = y := by
    rw [hy, mul_div_cancel_right₀ _ hpos.ne']
  have hupper := (div_le_iff₀ hpos).mp h.upper
  by_cases hedge : m = mantissaBound / 2 ∧ leastExponent < e
  · have hlower : lowerEnd m e ≤ m * 2 ^ e := by
      rw [lowerEnd, if_pos hedge]
      gcongr
      norm_num
    refine ⟨hlower.trans (hx hedge.1 hedge.2), hupper, fun hodd => absurd hodd ?_⟩
    rw [hedge.1]
    decide
  · have hlower := lowerEnd_eq_of_ne hedge
    refine ⟨hlower ▸ (le_div_iff₀ hpos).mp h.lower, hupper, fun hodd => ?_⟩
    refine ⟨fun hx => ?_, fun hx => ?_⟩
    · exact (h.even hodd).1 (hscaled (hx.trans hlower))
    · exact (h.even hodd).2 (hscaled hx)

theorem RoundsTo.of_carry {x : ℚ} {e : Int} (h : IsNearest (x / 2 ^ e) mantissaBound)
    (he : leastExponent ≤ e) : RoundsTo x (mantissaBound / 2) (e + 1) := by
  have hpos : (0 : ℚ) < 2 ^ e := by positivity
  have hlower := (le_div_iff₀ hpos).mp h.lower
  have hupper := (div_le_iff₀ hpos).mp h.upper
  have hhalf : ((mantissaBound / 2 : Nat) : ℚ) = mantissaBound / 2 := by
    norm_num [mantissaBound, mantissaBits]
  have hnext : (2 : ℚ) ^ (e + 1) = 2 * 2 ^ e := by rw [zpow_add_one₀ two_ne_zero, mul_comm]
  refine ⟨?_, ?_, fun hodd => absurd hodd (by decide)⟩
  · rw [lowerEnd, if_pos ⟨rfl, by omega⟩, hhalf, hnext]
    linarith
  · rw [upperEnd, hhalf, hnext]
    linarith

/-- The number with a mantissa and an exponent, or infinity if the exponent is too great. -/
def bounded (negative : Bool) (m : Nat) (e : Int) : Binary64 :=
  if greatestExponent < e then .infinite negative else .finite negative m e

theorem ofRatio_eq_bounded {num : Nat} (hn : 0 < num) (den : Nat) (negative : Bool) {e : Int}
    (he : max (magnitude num den - 52) leastExponent = e) :
    let m := roundedQuotient (num * (power 2 e).2) (den * (power 2 e).1)
    ofRatio negative num den =
      if m = mantissaBound then bounded negative (mantissaBound / 2) (e + 1)
      else bounded negative m e := by
  intro m
  rw [ofRatio, if_neg hn.ne', he]
  dsimp only
  split <;> rfl

theorem IsNearest.le_mantissaBound {x : ℚ} {m : Nat} (h : IsNearest x m) (hx : x < 2 ^ 53) :
    m ≤ mantissaBound := by
  by_contra hlt
  have hm : ((2 ^ 53 + 1 : Nat) : ℚ) ≤ m := by exact_mod_cast not_le.mp hlt
  have hlower := h.lower
  push_cast at hm
  linarith

theorem IsNearest.half_le {x : ℚ} {m : Nat} (h : IsNearest x m) (hx : 2 ^ 52 ≤ x) :
    mantissaBound / 2 ≤ m := by
  by_contra hlt
  have hm : ((m + 1 : Nat) : ℚ) ≤ (2 ^ 52 : Nat) := by exact_mod_cast not_le.mp hlt
  have hupper := h.upper
  push_cast at hm
  linarith

/-- A positive quotient is rounded to a number, or to infinity if the number is too great. -/
theorem exists_ofRatio_eq {num den : Nat} (hn : 0 < num) (hd : 0 < den) (negative : Bool) :
    ∃ m e, IsNormal m e ∧ RoundsTo (num / den) m e ∧
      ofRatio negative num den = bounded negative m e := by
  obtain ⟨hlow, hhigh⟩ := magnitude_spec hn hd
  generalize he : max (magnitude num den - 52) leastExponent = e
  have hratio := ofRatio_eq_bounded hn den negative he
  generalize hm : roundedQuotient (num * (power 2 e).2) (den * (power 2 e).1) = m at hratio
  have hpos : (0 : ℚ) < 2 ^ e := by positivity
  have hleast : leastExponent ≤ e := he ▸ le_max_right _ _
  have hnear : IsNearest ((num / den : ℚ) / 2 ^ e) m := by
    have hnear := roundedQuotient_isNearest (num * (power 2 e).2)
      (Nat.mul_pos hd (power_pos two_pos e).1)
    have hcast := cast_power 2 e
    push_cast at hcast
    rw [hm, Nat.cast_mul, Nat.cast_mul, mul_div_mul_comm, ← inv_div ((power 2 e).1 : ℚ), hcast]
      at hnear
    exact hnear
  have hbound : m ≤ mantissaBound := by
    refine hnear.le_mantissaBound ((div_lt_iff₀ hpos).mpr (hhigh.trans_le ?_))
    rw [← zpow_natCast, ← zpow_add₀ two_ne_zero]
    exact zpow_le_zpow_right₀ one_le_two (by push_cast; omega)
  have hfull (hlt : leastExponent < e) : (2 : ℚ) ^ 52 * 2 ^ e ≤ num / den := by
    rw [← zpow_natCast, ← zpow_add₀ two_ne_zero]
    have hexp : ((52 : Nat) : Int) + e = magnitude num den := by
      push_cast
      omega
    rwa [hexp]
  by_cases hcarry : m = mantissaBound
  · refine ⟨mantissaBound / 2, e + 1, ⟨by decide, by omega, .inl le_rfl⟩, ?_, ?_⟩
    · exact RoundsTo.of_carry (hcarry ▸ hnear) hleast
    · rw [hratio, if_pos hcarry]
  · refine ⟨m, e, ⟨by omega, hleast, ?_⟩, ?_, ?_⟩
    · rcases hleast.lt_or_eq with hlt | heq
      · exact .inl (hnear.half_le ((le_div_iff₀ hpos).mpr (hfull hlt)))
      · exact .inr heq.symm
    · refine RoundsTo.of_isNearest hnear fun hedge hlt => ?_
      have hm52 : (m : ℚ) = 2 ^ 52 := by exact_mod_cast hedge
      rw [hm52]
      exact hfull hlt
    · rw [hratio, if_neg hcarry]

theorem ofRatio_of_roundsTo {num den m : Nat} {e : Int} (hn : 0 < num) (hd : 0 < den)
    (hm : IsNormal m e) (he : e ≤ greatestExponent) (h : RoundsTo (num / den) m e)
    (negative : Bool) : ofRatio negative num den = .finite negative m e := by
  obtain ⟨m', e', hm', h', heq⟩ := exists_ofRatio_eq hn hd negative
  obtain ⟨rfl, rfl⟩ := RoundsTo.unique hm hm' h h'
  rw [heq, bounded, if_neg (not_lt.mpr he)]

/-- A decimal is read as a number, or as infinity if the number is too great. -/
theorem exists_ofDecimal_eq (negative : Bool) (digits : Nat) (x : Int) :
    ∃ m e, IsNormal m e ∧ ofDecimal negative digits x = bounded negative m e := by
  rcases Nat.eq_zero_or_pos digits with rfl | hdigits
  · refine ⟨0, leastExponent, ⟨by decide, le_rfl, .inr rfl⟩, ?_⟩
    simp [ofDecimal, ofRatio, bounded, leastExponent, greatestExponent]
  · have hten := power_pos (show 0 < 10 by decide)
    obtain ⟨m, e, hn, -, heq⟩ :=
      exists_ofRatio_eq (Nat.mul_pos hdigits (hten _).1) (hten _).2 negative
    exact ⟨m, e, hn, heq⟩

end ScriptFront.Binary64
