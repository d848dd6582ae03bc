/-
  JavaClass.Proofs.Number.Rounding — rounding, by the exact value of what is rounded.

  A fraction stands for a rational number (`Fraction.val`), and whatever is rounded depends on that
  number alone and grows with it.  From this follow the two facts that round trips are made of: a
  number close enough to a magnitude is rounded to it (`Format.nearest_of_close`), and a number that
  the format has is not changed (`Format.value_nearest`).
-/
import JavaClass.Number.Decimal
import JavaClass.Proofs.Number.Pattern
import Mathlib.Algebra.Order.Field.Power
import Mathlib.Data.Int.Log
import Mathlib.Data.Rat.Floor
import Mathlib.Tactic.FieldSimp
import Mathlib.Tactic.Linarith
import Mathlib.Tactic.NormNum
import Mathlib.Tactic.Positivity
import Mathlib.Tactic.Ring

namespace JavaClass.Number

namespace Fraction

/-! ## §1. The number that a fraction stands for. -/

/-- The exact value of a fraction. -/
def val (x : Fraction) : ℚ := x.num / x.den

variable {x y : Fraction} {b : Nat}

theorem scaled_den_pos (hb : 0 < b) (m : Nat) (e : Int) : 0 < (scaled m b e).den := by
  unfold scaled
  split
  · exact Nat.pow_pos hb
  · exact Nat.one_pos

theorem inUnits_den_pos (hb : 0 < b) (hx : 0 < x.den) (e : Int) : 0 < (x.inUnits b e).den := by
  unfold inUnits
  split
  · exact hx
  · exact Nat.mul_pos hx (Nat.pow_pos hb)

/-- The power of a whole exponent, by its sign. -/
theorem zpow_of_neg (b : Nat) {e : Int} (he : e < 0) :
    (b : ℚ) ^ e = ((b : ℚ) ^ e.natAbs)⁻¹ := by
  rw [← zpow_natCast, ← zpow_neg]
  congr 1
  omega

theorem zpow_of_nonneg (b : Nat) {e : Int} (he : ¬ e < 0) : (b : ℚ) ^ e = (b : ℚ) ^ e.natAbs := by
  rw [← zpow_natCast]
  congr 1
  omega

theorem scaled_val (m b : Nat) (e : Int) : (scaled m b e).val = m * (b : ℚ) ^ e := by
  unfold scaled val
  by_cases he : e < 0
  · simp only [if_pos he, Nat.pow_eq, Nat.cast_pow]
    rw [zpow_of_neg b he, div_eq_mul_inv]
  · simp only [if_neg he, Nat.pow_eq, Nat.cast_mul, Nat.cast_pow, Nat.cast_one, div_one]
    rw [zpow_of_nonneg b he]

theorem scaled_two_den_pos (m : Nat) (e : Int) : 0 < (scaled m 2 e).den :=
  scaled_den_pos (by decide) m e

theorem scaled_two_val (m : Nat) (e : Int) : (scaled m 2 e).val = m * (2 : ℚ) ^ e :=
  scaled_val m 2 e

theorem scaled_zero_num (b : Nat) (e : Int) : (scaled 0 b e).num = 0 := by
  unfold scaled
  split
  · rfl
  · exact Nat.zero_mul _

theorem inUnits_val (x : Fraction) (b : Nat) (e : Int) :
    (x.inUnits b e).val = x.val / (b : ℚ) ^ e := by
  unfold inUnits val
  by_cases he : e < 0
  · simp only [if_pos he, Nat.pow_eq, Nat.cast_mul, Nat.cast_pow]
    rw [zpow_of_neg b he, div_inv_eq_mul, div_mul_eq_mul_div]
  · simp only [if_neg he, Nat.pow_eq, Nat.cast_mul, Nat.cast_pow]
    rw [zpow_of_nonneg b he, div_div]

theorem val_pos (hd : 0 < x.den) (hn : x.num ≠ 0) : 0 < x.val := by
  have hnum : (0 : ℚ) < x.num := by exact_mod_cast Nat.pos_of_ne_zero hn
  have hden : (0 : ℚ) < x.den := by exact_mod_cast hd
  exact div_pos hnum hden

theorem val_nonneg (x : Fraction) : 0 ≤ x.val := by
  unfold val
  positivity

theorem num_ne_zero (h : 0 < x.val) : x.num ≠ 0 := by
  intro hzero
  simp [val, hzero] at h

/-! ## §2. The nearest whole number. -/

/-- The whole part and the rest, as parts of the value. -/
theorem val_eq_whole_add (h : 0 < x.den) :
    x.val = (x.num / x.den : Nat) + ((x.num % x.den : Nat) : ℚ) / x.den := by
  have hden : (x.den : ℚ) ≠ 0 := by exact_mod_cast Nat.ne_of_gt h
  have hsplit : (x.num : ℚ) = x.den * (x.num / x.den : Nat) + (x.num % x.den : Nat) := by
    exact_mod_cast (Nat.div_add_mod x.num x.den).symm
  rw [val, eq_comm, eq_div_iff hden, add_mul, div_mul_cancel₀ _ hden, hsplit]
  ring

/-- The nearest whole number is the whole part, with a rest up to a half, or the one above it, with
    a rest from a half on; at a half it is the even one of the two. -/
theorem toNearest_cases (x : Fraction) :
    (x.toNearest = x.num / x.den ∧ 2 * (x.num % x.den) ≤ x.den ∧
        (2 * (x.num % x.den) = x.den → x.toNearest % 2 = 0)) ∨
      (x.toNearest = x.num / x.den + 1 ∧ x.den ≤ 2 * (x.num % x.den) ∧
        (2 * (x.num % x.den) = x.den → x.toNearest % 2 = 0)) := by
  unfold toNearest
  dsimp only
  split
  · rename_i hup
    simp only [Bool.or_eq_true, Bool.and_eq_true, decide_eq_true_eq] at hup
    right
    refine ⟨rfl, by omega, fun _ => by omega⟩
  · rename_i hdown
    simp only [Bool.or_eq_true, Bool.and_eq_true, decide_eq_true_eq] at hdown
    left
    refine ⟨rfl, by omega, fun _ => by omega⟩

theorem toNearest_near (h : 0 < x.den) : |(x.toNearest : ℚ) - x.val| ≤ 1 / 2 := by
  have hden : (0 : ℚ) < x.den := by exact_mod_cast h
  have hrest : ((x.num % x.den : Nat) : ℚ) < x.den := by exact_mod_cast Nat.mod_lt _ h
  rw [val_eq_whole_add h, abs_le]
  obtain ⟨hround, hle, -⟩ | ⟨hround, hle, -⟩ := x.toNearest_cases
  · have hhalf : ((x.num % x.den : Nat) : ℚ) / x.den ≤ 1 / 2 := by
      rw [div_le_iff₀ hden]
      have : (2 * (x.num % x.den : Nat) : ℚ) ≤ x.den := by exact_mod_cast hle
      linarith
    have hnonneg : 0 ≤ ((x.num % x.den : Nat) : ℚ) / x.den := by positivity
    rw [hround]
    constructor <;> linarith
  · have hhalf : 1 / 2 ≤ ((x.num % x.den : Nat) : ℚ) / x.den := by
      rw [le_div_iff₀ hden]
      have : (x.den : ℚ) ≤ 2 * (x.num % x.den : Nat) := by exact_mod_cast hle
      linarith
    have hone : ((x.num % x.den : Nat) : ℚ) / x.den < 1 := by
      rw [div_lt_one hden]
      exact hrest
    rw [hround]
    push_cast
    constructor <;> linarith

/-- Halves go to the even neighbour. -/
theorem toNearest_even (h : 0 < x.den) (htie : |(x.toNearest : ℚ) - x.val| = 1 / 2) :
    x.toNearest % 2 = 0 := by
  have hden : (0 : ℚ) < x.den := by exact_mod_cast h
  have hsplit := val_eq_whole_add h
  have hrest : ((x.num % x.den : Nat) : ℚ) / x.den = 1 / 2 → 2 * (x.num % x.den) = x.den := by
    intro hhalf
    rw [div_eq_div_iff hden.ne' two_ne_zero] at hhalf
    have : (2 * (x.num % x.den) : Nat) = ((x.den : Nat) : ℚ) := by push_cast; linarith
    exact_mod_cast this
  obtain ⟨hround, -, heven⟩ | ⟨hround, -, heven⟩ := x.toNearest_cases
  · refine heven (hrest ?_)
    rw [hsplit, hround, sub_add_cancel_left, abs_neg, abs_of_nonneg (by positivity)] at htie
    exact htie
  · refine heven (hrest ?_)
    have hone : ((x.num % x.den : Nat) : ℚ) / x.den < 1 := by
      rw [div_lt_one hden]
      exact_mod_cast Nat.mod_lt _ h
    have hdiff : (x.toNearest : ℚ) - x.val = 1 - ((x.num % x.den : Nat) : ℚ) / x.den := by
      rw [hsplit, hround]
      push_cast
      ring
    rw [hdiff, abs_of_pos (by linarith)] at htie
    linarith

/-- A whole number less than a half away is the nearest. -/
theorem toNearest_eq (h : 0 < x.den) {n : Nat} (hn : |(n : ℚ) - x.val| < 1 / 2) :
    x.toNearest = n := by
  have hnear := toNearest_near h
  rw [abs_le] at hnear
  rw [abs_lt] at hn
  have hlow : (x.toNearest : ℚ) < n + 1 := by linarith
  have hhigh : (n : ℚ) < x.toNearest + 1 := by linarith
  have hlow : x.toNearest < n + 1 := by exact_mod_cast hlow
  have hhigh : n < x.toNearest + 1 := by exact_mod_cast hhigh
  omega

/-- Rounding keeps the order: only two halves could be swapped, and both go to the even side. -/
theorem toNearest_mono (hx : 0 < x.den) (hy : 0 < y.den) (h : x.val ≤ y.val) :
    x.toNearest ≤ y.toNearest := by
  by_contra hswap
  have hswap : y.toNearest + 1 ≤ x.toNearest := by omega
  have hswap' : (y.toNearest : ℚ) + 1 ≤ x.toNearest := by exact_mod_cast hswap
  have hnearx := abs_le.mp (toNearest_near hx)
  have hneary := abs_le.mp (toNearest_near hy)
  have hxtie : |(x.toNearest : ℚ) - x.val| = 1 / 2 := by
    rw [abs_of_nonneg (by linarith)]
    linarith
  have hytie : |(y.toNearest : ℚ) - y.val| = 1 / 2 := by
    rw [abs_of_nonpos (by linarith)]
    linarith
  have hstep : (x.toNearest : ℚ) = y.toNearest + 1 := by linarith
  have hstep : x.toNearest = y.toNearest + 1 := by exact_mod_cast hstep
  have hevenx := toNearest_even hx hxtie
  have heveny := toNearest_even hy hytie
  omega

theorem toNearest_le (h : 0 < x.den) {n : Nat} (hn : x.val ≤ n) : x.toNearest ≤ n := by
  have hnear := (abs_le.mp (toNearest_near h)).2
  have hless : (x.toNearest : ℚ) < n + 1 := by linarith
  have hless : x.toNearest < n + 1 := by exact_mod_cast hless
  omega

theorem le_toNearest (h : 0 < x.den) {n : Nat} (hn : n ≤ x.val) : n ≤ x.toNearest := by
  have hnear := (abs_le.mp (toNearest_near h)).1
  have hless : (n : ℚ) < x.toNearest + 1 := by linarith
  have hless : n < x.toNearest + 1 := by exact_mod_cast hless
  omega

/-- A whole number of units less than half a unit away is the nearest. -/
theorem toNearest_inUnits (hb : 0 < b) (h : 0 < x.den) {n : Nat} {e : Int}
    (hn : |n * (b : ℚ) ^ e - x.val| < (b : ℚ) ^ e / 2) : (x.inUnits b e).toNearest = n := by
  have hbase : (0 : ℚ) < b := by exact_mod_cast hb
  have hunit : (0 : ℚ) < (b : ℚ) ^ e := zpow_pos hbase e
  refine toNearest_eq (inUnits_den_pos hb h e) ?_
  have hscale : (n : ℚ) - (x.inUnits b e).val = (n * (b : ℚ) ^ e - x.val) / (b : ℚ) ^ e := by
    rw [inUnits_val, sub_div, mul_div_cancel_right₀ _ hunit.ne']
  rw [hscale, abs_div, abs_of_pos hunit, div_lt_iff₀ hunit]
  linarith

/-! ## §3. The leading digit. -/

/-- A guess that is right or one too high is settled. -/
theorem settleLog_eq (hb : 1 < b) (hd : 0 < x.den) {guess : Int}
    (hlow : (b : ℚ) ^ (guess - 1) ≤ x.val) (hhigh : x.val < (b : ℚ) ^ (guess + 1)) :
    x.settleLog b guess = Int.log b x.val := by
  have hbase : (0 : ℚ) < b := by exact_mod_cast (by omega : 0 < b)
  have hpos : 0 < x.val := lt_of_lt_of_le (zpow_pos hbase _) hlow
  rw [Int.zpow_le_iff_le_log hb hpos] at hlow
  rw [Int.lt_zpow_iff_log_lt hb hpos] at hhigh
  have hunits := inUnits_den_pos (by omega : 0 < b) hd guess
  have hguess : (x.inUnits b guess).den ≤ (x.inUnits b guess).num ↔ guess ≤ Int.log b x.val := by
    rw [← Int.zpow_le_iff_le_log hb hpos, ← one_le_div (zpow_pos hbase guess), ← inUnits_val, val,
      one_le_div (by exact_mod_cast hunits)]
    exact_mod_cast Iff.rfl
  unfold settleLog
  dsimp only
  split
  · rename_i h
    have := hguess.mp h
    omega
  · rename_i h
    have := mt hguess.mpr h
    omega

/-- The difference of the places of the leading digits is right or one too high. -/
theorem settleLog_of_digits (hb : 1 < b) {i j : Nat} (hi : b ^ i ≤ x.num) (hi' : x.num < b ^ (i + 1))
    (hj : b ^ j ≤ x.den) (hj' : x.den < b ^ (j + 1)) :
    x.settleLog b ((i : Int) - j) = Int.log b x.val := by
  have hd : 0 < x.den := lt_of_lt_of_le (Nat.pow_pos (by omega)) hj
  have hden : (0 : ℚ) < x.den := by exact_mod_cast hd
  have hbase : (0 : ℚ) < b := by exact_mod_cast (by omega : 0 < b)
  have hi : (b : ℚ) ^ i ≤ x.num := by exact_mod_cast hi
  have hi' : (x.num : ℚ) < (b : ℚ) ^ (i + 1) := by exact_mod_cast hi'
  have hj : (b : ℚ) ^ j ≤ x.den := by exact_mod_cast hj
  have hj' : (x.den : ℚ) < (b : ℚ) ^ (j + 1) := by exact_mod_cast hj'
  refine settleLog_eq hb hd ?_ ?_
  · have hexp : (b : ℚ) ^ ((i : Int) - j - 1) = (b : ℚ) ^ i / (b : ℚ) ^ (j + 1) := by
      rw [← zpow_natCast, ← zpow_natCast, ← zpow_sub₀ hbase.ne']
      congr 1
      push_cast
      ring
    rw [hexp, val]
    exact div_le_div₀ (by positivity) hi hden hj'.le
  · have hexp : (b : ℚ) ^ ((i : Int) - j + 1) = (b : ℚ) ^ (i + 1) / (b : ℚ) ^ j := by
      rw [← zpow_natCast, ← zpow_natCast, ← zpow_sub₀ hbase.ne']
      congr 1
      push_cast
      ring
    rw [hexp, val]
    exact div_lt_div₀ hi' hj (by positivity) (by positivity)

theorem log2_eq (hd : 0 < x.den) (hn : x.num ≠ 0) : x.log2 = Int.log 2 x.val :=
  settleLog_of_digits (by decide) (Nat.log2_self_le hn) Nat.lt_log2_self
    (Nat.log2_self_le hd.ne') Nat.lt_log2_self

/-- The number of decimal digits is one more than the place of the first. -/
theorem length_toDigits_bounds {n : Nat} (hn : n ≠ 0) :
    10 ^ ((Nat.toDigits 10 n).length - 1) ≤ n ∧
      n < 10 ^ ((Nat.toDigits 10 n).length - 1 + 1) := by
  have hpos : 0 < (Nat.toDigits 10 n).length := Nat.length_toDigits_pos
  have hlength : (Nat.toDigits 10 n).length - 1 + 1 = (Nat.toDigits 10 n).length := by omega
  refine ⟨?_, ?_⟩
  · by_cases hone : (Nat.toDigits 10 n).length = 1
    · rw [hone]
      exact Nat.one_le_iff_ne_zero.mpr hn
    · by_contra hless
      have := (Nat.length_toDigits_le_iff (b := 10) (n := n) (by decide)
        (by omega : 0 < (Nat.toDigits 10 n).length - 1)).mpr (by omega)
      omega
  · rw [hlength]
    exact (Nat.length_toDigits_le_iff (by decide) hpos).mp le_rfl

theorem log10_eq (hd : 0 < x.den) (hn : x.num ≠ 0) : x.log10 = Int.log 10 x.val := by
  obtain ⟨hi, hi'⟩ := length_toDigits_bounds hn
  obtain ⟨hj, hj'⟩ := length_toDigits_bounds hd.ne'
  have hsettled := settleLog_of_digits (x := x) (by decide) hi hi' hj hj'
  have hnum : 0 < (Nat.toDigits 10 x.num).length := Nat.length_toDigits_pos
  have hden : 0 < (Nat.toDigits 10 x.den).length := Nat.length_toDigits_pos
  have hguess : ((Nat.toDigits 10 x.num).length : Int) - (Nat.toDigits 10 x.den).length =
      ((Nat.toDigits 10 x.num).length - 1 : Nat) - ((Nat.toDigits 10 x.den).length - 1 : Nat) := by
    omega
  rw [log10, hguess]
  exact hsettled

end Fraction

/-! ## §4. The nearest magnitude. -/

namespace Format

variable (f : Format) {x y : Fraction}

theorem lastPlace_eq (hd : 0 < x.den) (hn : x.num ≠ 0) :
    f.lastPlace x = max f.leastExponent (Int.log 2 x.val - f.fractionBits) := by
  rw [lastPlace, Fraction.log2_eq hd hn]

theorem leastExponent_le_lastPlace (x : Fraction) : f.leastExponent ≤ f.lastPlace x :=
  le_max_left _ _

theorem val_lt_place (hd : 0 < x.den) (hn : x.num ≠ 0) :
    x.val < (2 : ℚ) ^ (f.lastPlace x + f.fractionBits + 1) := by
  have hpos := Fraction.val_pos hd hn
  have hlog : Int.log 2 x.val < f.lastPlace x + f.fractionBits + 1 := by
    rw [f.lastPlace_eq hd hn]
    omega
  exact_mod_cast (Int.lt_zpow_iff_log_lt (b := 2) (by decide) hpos).mpr hlog

/-- Above the smallest magnitudes, the leading bit of a mantissa is set. -/
theorem place_le_val (hd : 0 < x.den) (hn : x.num ≠ 0) (h : f.leastExponent < f.lastPlace x) :
    (2 : ℚ) ^ (f.lastPlace x + f.fractionBits) ≤ x.val := by
  have hpos := Fraction.val_pos hd hn
  have hlog : f.lastPlace x + f.fractionBits ≤ Int.log 2 x.val := by
    rw [f.lastPlace_eq hd hn] at h ⊢
    omega
  exact_mod_cast (Int.zpow_le_iff_le_log (b := 2) (by decide) hpos).mpr hlog

/-- The number of last places in `x`, rounded. -/
def mantissa (x : Fraction) : Nat := (x.inUnits 2 (f.lastPlace x)).toNearest

/-- The magnitude pattern of `m * 2 ^ e`. -/
def code (m : Nat) (e : Int) : Nat := (e - f.leastExponent).toNat * Nat.pow 2 f.fractionBits + m

theorem nearest_of_zero (h : x.num = 0) : f.nearest x = 0 := if_pos h

theorem nearest_eq_code (h : x.num ≠ 0) :
    f.nearest x = min f.infinity (f.code (f.mantissa x) (f.lastPlace x)) := if_neg h

theorem mantissa_le (hd : 0 < x.den) (hn : x.num ≠ 0) :
    f.mantissa x ≤ 2 * Nat.pow 2 f.fractionBits := by
  refine Fraction.toNearest_le (Fraction.inUnits_den_pos (by decide) hd _) ?_
  have hlt := f.val_lt_place hd hn
  rw [Fraction.inUnits_val, div_le_iff₀ (by positivity)]
  rw [add_assoc, zpow_add₀ two_ne_zero, zpow_add₀ two_ne_zero, zpow_one, zpow_natCast] at hlt
  push_cast [Nat.pow_eq]
  linarith

theorem le_mantissa (hd : 0 < x.den) (hn : x.num ≠ 0) (h : f.leastExponent < f.lastPlace x) :
    Nat.pow 2 f.fractionBits ≤ f.mantissa x := by
  refine Fraction.le_toNearest (Fraction.inUnits_den_pos (by decide) hd _) ?_
  have hle := f.place_le_val hd hn h
  rw [Fraction.inUnits_val, le_div_iff₀ (by positivity)]
  rw [zpow_add₀ two_ne_zero, zpow_natCast] at hle
  push_cast [Nat.pow_eq]
  linarith

/-- A greater number has a greater pattern.  Where the last place is the same, the mantissas are
    compared; where it is not, the greater number has a leading bit that the other one lacks. -/
theorem nearest_mono (hx : 0 < x.den) (hy : 0 < y.den) (h : x.val ≤ y.val) :
    f.nearest x ≤ f.nearest y := by
  by_cases hxn : x.num = 0
  · rw [f.nearest_of_zero hxn]
    exact Nat.zero_le _
  have hpos := Fraction.val_pos hx hxn
  have hyn : y.num ≠ 0 := Fraction.num_ne_zero (lt_of_lt_of_le hpos h)
  have hplace : f.lastPlace x ≤ f.lastPlace y := by
    rw [f.lastPlace_eq hx hxn, f.lastPlace_eq hy hyn]
    have hlog : Int.log 2 x.val ≤ Int.log 2 y.val := Int.log_mono_right hpos h
    omega
  have hleast := f.leastExponent_le_lastPlace x
  have hcode : f.code (f.mantissa x) (f.lastPlace x) ≤ f.code (f.mantissa y) (f.lastPlace y) := by
    unfold code
    obtain hsame | hless := hplace.eq_or_lt
    · have hmantissa : f.mantissa x ≤ f.mantissa y := by
        unfold mantissa
        rw [← hsame]
        refine Fraction.toNearest_mono (Fraction.inUnits_den_pos (by decide) hx _)
          (Fraction.inUnits_den_pos (by decide) hy _) ?_
        rw [Fraction.inUnits_val, Fraction.inUnits_val]
        exact div_le_div_of_nonneg_right h (by positivity)
      rw [← hsame]
      omega
    · have hbelow := f.mantissa_le hx hxn
      have habove := f.le_mantissa hy hyn (by omega)
      have hsteps : ((f.lastPlace x - f.leastExponent).toNat + 1) * Nat.pow 2 f.fractionBits ≤
          (f.lastPlace y - f.leastExponent).toNat * Nat.pow 2 f.fractionBits :=
        Nat.mul_le_mul_right _ (by omega)
      rw [Nat.add_mul, Nat.one_mul] at hsteps
      omega
  rw [f.nearest_eq_code hxn, f.nearest_eq_code hyn]
  exact min_le_min_left _ hcode

theorem nearest_congr (hx : 0 < x.den) (hy : 0 < y.den) (h : x.val = y.val) :
    f.nearest x = f.nearest y :=
  le_antisymm (f.nearest_mono hx hy h.le) (f.nearest_mono hy hx h.ge)

/-! ## §5. Magnitudes of a format. -/

/-- A magnitude `m * 2 ^ e` as the format has it: its leading bit is set, except for the smallest
    magnitudes. -/
structure Canonical (m : Nat) (e : Int) : Prop where
  least : f.leastExponent ≤ e
  short : m < 2 * Nat.pow 2 f.fractionBits
  lead : f.leastExponent < e → Nat.pow 2 f.fractionBits ≤ m

variable {f} {m m' : Nat} {e e' : Int}

/-- A magnitude without the leading bit is one of the smallest. -/
theorem Canonical.eq_leastExponent (hc : f.Canonical m e) (h : m < Nat.pow 2 f.fractionBits) :
    e = f.leastExponent := by
  by_contra hne
  have hlead := hc.lead (lt_of_le_of_ne hc.least (Ne.symm hne))
  omega

theorem mantissa_eq (hd : 0 < x.den)
    (h : |m * (2 : ℚ) ^ f.lastPlace x - x.val| < (2 : ℚ) ^ f.lastPlace x / 2) :
    f.mantissa x = m :=
  Fraction.toNearest_inUnits (b := 2) (by decide) hd h

/-- Twice the leading bit has the pattern of the leading bit one place above. -/
theorem code_twice_lead (h : f.leastExponent < e) :
    f.code (2 * Nat.pow 2 f.fractionBits) (e - 1) = f.code (Nat.pow 2 f.fractionBits) e := by
  have hsteps : (e - f.leastExponent).toNat = (e - 1 - f.leastExponent).toNat + 1 := by omega
  rw [code, code, hsteps, Nat.add_mul]
  omega

/-- Just below a power of two the last place is a smaller one, and the mantissa is rounded up to twice
    the leading bit; its pattern is that of the power of two. -/
theorem code_below_power (hd : 0 < y.den) (hplace : f.leastExponent < e)
    (hlow : 2 ^ f.fractionBits * (2 : ℚ) ^ e - (2 : ℚ) ^ e / 4 < y.val)
    (hhigh : y.val < 2 ^ f.fractionBits * (2 : ℚ) ^ e) :
    f.code (f.mantissa y) (f.lastPlace y) = f.code (Nat.pow 2 f.fractionBits) e := by
  have hlead : (1 : ℚ) ≤ 2 ^ f.fractionBits := one_le_pow₀ (by norm_num)
  have hunit : (0 : ℚ) < (2 : ℚ) ^ (e - 1) := by positivity
  have hstep : (2 : ℚ) ^ e = 2 * (2 : ℚ) ^ (e - 1) := by
    rw [← zpow_one_add₀ two_ne_zero]
    congr 1
    ring
  rw [hstep] at hlow hhigh
  have hpos : 0 < y.val := by nlinarith
  have hlast : f.lastPlace y = e - 1 := by
    have habove : e - 1 + f.fractionBits ≤ Int.log 2 y.val := by
      refine (Int.zpow_le_iff_le_log (b := 2) (by decide) hpos).mp ?_
      push_cast
      rw [zpow_add₀ two_ne_zero, zpow_natCast]
      nlinarith
    have hbelow : Int.log 2 y.val < e + f.fractionBits := by
      refine (Int.lt_zpow_iff_log_lt (b := 2) (by decide) hpos).mp ?_
      push_cast
      rw [zpow_add₀ two_ne_zero, zpow_natCast, hstep]
      linarith
    rw [f.lastPlace_eq hd (Fraction.num_ne_zero hpos)]
    omega
  have hmantissa : f.mantissa y = 2 * Nat.pow 2 f.fractionBits := by
    refine mantissa_eq hd ?_
    rw [hlast, abs_lt]
    push_cast [Nat.pow_eq]
    constructor <;> linarith
  rw [hmantissa, hlast, code_twice_lead hplace]

/-- A number that is closer to a magnitude than half the way to the next ones is rounded to it. -/
theorem nearest_of_close (hm : m ≠ 0) (hc : f.Canonical m e) (hd : 0 < y.den)
    (hclose : |y.val - m * (2 : ℚ) ^ e| < m * (2 : ℚ) ^ e / (4 * 2 ^ f.fractionBits)) :
    f.nearest y = min f.infinity (f.code m e) := by
  have hunit : (0 : ℚ) < (2 : ℚ) ^ e := by positivity
  have hlead : (1 : ℚ) ≤ 2 ^ f.fractionBits := one_le_pow₀ (by norm_num)
  have hshort : (m : ℚ) + 1 ≤ 2 * 2 ^ f.fractionBits := by
    exact_mod_cast Nat.succ_le_of_lt hc.short
  have hmpos : (1 : ℚ) ≤ m := by exact_mod_cast Nat.one_le_iff_ne_zero.mpr hm
  have hnext : (m : ℚ) * (2 : ℚ) ^ e + (2 : ℚ) ^ e ≤ 2 * 2 ^ f.fractionBits * (2 : ℚ) ^ e := by
    nlinarith
  have hhalf : m * (2 : ℚ) ^ e / (4 * 2 ^ f.fractionBits) < (2 : ℚ) ^ e / 2 := by
    rw [div_lt_iff₀ (by positivity)]
    nlinarith
  have hunitm : (2 : ℚ) ^ e ≤ m * (2 : ℚ) ^ e := le_mul_of_one_le_left hunit.le hmpos
  obtain ⟨hlow, hhigh⟩ := abs_lt.mp hclose
  have hyn : y.num ≠ 0 := Fraction.num_ne_zero (by linarith)
  rw [f.nearest_eq_code hyn]
  congr 1
  obtain hless | hsame | hmore := lt_trichotomy (f.lastPlace y) e
  · -- `y` lies below a power of two, and `m` is that power's leading bit alone.
    have hplace := lt_of_le_of_lt (f.leastExponent_le_lastPlace y) hless
    have hpower : y.val < 2 ^ f.fractionBits * (2 : ℚ) ^ e := by
      rw [mul_comm, ← zpow_natCast, ← zpow_add₀ two_ne_zero]
      exact lt_of_lt_of_le (f.val_lt_place hd hyn) (zpow_le_zpow_right₀ (by norm_num) (by omega))
    have halone : m = Nat.pow 2 f.fractionBits := by
      by_contra hne
      have hset : (2 : ℚ) ^ f.fractionBits + 1 ≤ m := by
        exact_mod_cast Nat.succ_le_of_lt (lt_of_le_of_ne (hc.lead hplace) (Ne.symm hne))
      have : (2 ^ f.fractionBits + 1) * (2 : ℚ) ^ e ≤ m * (2 : ℚ) ^ e :=
        mul_le_mul_of_nonneg_right hset hunit.le
      linarith
    have hquarter : m * (2 : ℚ) ^ e / (4 * 2 ^ f.fractionBits) = (2 : ℚ) ^ e / 4 := by
      rw [halone]
      push_cast [Nat.pow_eq]
      field_simp
    rw [hquarter, halone] at hlow
    push_cast [Nat.pow_eq] at hlow
    rw [code_below_power hd hplace (by linarith) hpower, halone]
  · -- The last place is that of `m`, and `y` is less than half of it away.
    have hmantissa : f.mantissa y = m := by
      refine mantissa_eq hd ?_
      rw [hsame, abs_lt]
      constructor <;> linarith
    rw [hmantissa, hsame]
  · -- `y` has a leading bit that is beyond all mantissas with the last place of `m`.
    have hpower := f.place_le_val hd hyn (lt_of_le_of_lt hc.least hmore)
    have hgreat : 2 * 2 ^ f.fractionBits * (2 : ℚ) ^ e ≤ (2 : ℚ) ^ (f.lastPlace y + f.fractionBits) := by
      rw [← zpow_natCast, ← zpow_one_add₀ two_ne_zero, ← zpow_add₀ two_ne_zero]
      exact zpow_le_zpow_right₀ (by norm_num) (by omega)
    linarith

/-- Magnitudes are their own nearest. -/
theorem nearest_canonical (hc : f.Canonical m e) (hfinite : f.code m e < f.infinity) :
    f.nearest (.scaled m 2 e) = f.code m e := by
  by_cases hm : m = 0
  · subst hm
    rw [f.nearest_of_zero (Fraction.scaled_zero_num 2 e), code,
      hc.eq_leastExponent (Nat.two_pow_pos _), Int.sub_self, Int.toNat_zero, Nat.zero_mul]
  · have hclose := nearest_of_close (y := .scaled m 2 e) hm hc (Fraction.scaled_two_den_pos m e) ?_
    · rw [hclose]
      exact min_eq_right hfinite.le
    · rw [Fraction.scaled_two_val, sub_self, abs_zero]
      have : (0 : ℚ) < m := by exact_mod_cast Nat.pos_of_ne_zero hm
      positivity

theorem infinity_lt_signWeight (f : Format) : f.infinity < f.signWeight := by
  have hpow : 0 < Nat.pow 2 f.fractionBits := Nat.two_pow_pos _
  have hfield : 0 < Nat.pow 2 f.exponentBits := Nat.two_pow_pos _
  have hweight : f.signWeight = Nat.pow 2 f.exponentBits * Nat.pow 2 f.fractionBits := by
    rw [signWeight, Nat.add_comm]
    exact Nat.pow_add ..
  rw [hweight, infinity]
  exact Nat.mul_lt_mul_of_pos_right (by omega) hpow

/-- The value of a finite pattern without a sign, by its exponent field and its fraction. -/
theorem value_of_fields {field fraction : Nat} (hfraction : fraction < Nat.pow 2 f.fractionBits)
    (hfinite : field * Nat.pow 2 f.fractionBits + fraction < f.infinity) :
    f.value (field * Nat.pow 2 f.fractionBits + fraction) =
      if field = 0 then .finite false fraction f.leastExponent
      else .finite false (Nat.pow 2 f.fractionBits + fraction)
        (f.leastExponent + (field - 1 : Nat)) := by
  have hpow : 0 < Nat.pow 2 f.fractionBits := Nat.two_pow_pos _
  have hfield : field < Nat.pow 2 f.exponentBits - 1 := by
    by_contra hge
    have : (Nat.pow 2 f.exponentBits - 1) * Nat.pow 2 f.fractionBits ≤
        field * Nat.pow 2 f.fractionBits := Nat.mul_le_mul_right _ (by omega)
    unfold infinity at hfinite
    omega
  have hsign : (field * Nat.pow 2 f.fractionBits + fraction) / f.signWeight = 0 :=
    Nat.div_eq_of_lt (lt_trans hfinite f.infinity_lt_signWeight)
  have hdiv : (field * Nat.pow 2 f.fractionBits + fraction) / Nat.pow 2 f.fractionBits = field := by
    rw [Nat.mul_comm, Nat.mul_add_div hpow, Nat.div_eq_of_lt hfraction, Nat.add_zero]
  have hmod : (field * Nat.pow 2 f.fractionBits + fraction) % Nat.pow 2 f.fractionBits =
      fraction := by
    rw [Nat.mul_comm, Nat.mul_add_mod, Nat.mod_eq_of_lt hfraction]
  have hcut : field % Nat.pow 2 f.exponentBits = field := Nat.mod_eq_of_lt (by omega)
  simp only [value, hsign, hdiv, hmod, hcut, if_neg (Nat.ne_of_lt hfield), Nat.zero_mod,
    Nat.zero_ne_one, decide_false]

/-- The pattern of a magnitude has it as its value. -/
theorem value_code (hc : f.Canonical m e) (hfinite : f.code m e < f.infinity) :
    f.value (f.code m e) = .finite false m e := by
  have hleast := hc.least
  have hshort := hc.short
  by_cases hlead : m < Nat.pow 2 f.fractionBits
  · have hplace := hc.eq_leastExponent hlead
    have hcode : f.code m e = 0 * Nat.pow 2 f.fractionBits + m := by
      rw [code, hplace, Int.sub_self, Int.toNat_zero]
    rw [hcode] at hfinite ⊢
    rw [value_of_fields hlead hfinite, if_pos rfl, hplace]
  · obtain ⟨fraction, rfl⟩ : ∃ fraction, m = Nat.pow 2 f.fractionBits + fraction :=
      ⟨m - Nat.pow 2 f.fractionBits, by omega⟩
    have hcode : f.code (Nat.pow 2 f.fractionBits + fraction) e =
        ((e - f.leastExponent).toNat + 1) * Nat.pow 2 f.fractionBits + fraction := by
      rw [code, Nat.add_mul, Nat.one_mul, Nat.add_assoc]
    have hplace : f.leastExponent + (((e - f.leastExponent).toNat + 1 - 1 : Nat) : Int) = e := by
      omega
    rw [hcode] at hfinite ⊢
    rw [value_of_fields (by omega) hfinite, if_neg (Nat.succ_ne_zero _), hplace]

/-- Every number is the pattern of a magnitude, if patterns go on behind infinity. -/
theorem exists_canonical (f : Format) (n : Nat) :
    ∃ m e, f.Canonical m e ∧ f.code m e = n := by
  have hpow : 0 < Nat.pow 2 f.fractionBits := Nat.two_pow_pos _
  have hsplit := Nat.div_add_mod n (Nat.pow 2 f.fractionBits)
  have hmod := Nat.mod_lt n hpow
  by_cases hsmall : n < Nat.pow 2 f.fractionBits
  · refine ⟨n, f.leastExponent, ⟨le_rfl, by omega, fun hless => absurd hless (lt_irrefl _)⟩, ?_⟩
    rw [code, Int.sub_self, Int.toNat_zero, Nat.zero_mul, Nat.zero_add]
  · obtain ⟨steps, hsteps⟩ : ∃ steps, n / Nat.pow 2 f.fractionBits = steps + 1 :=
      Nat.exists_eq_succ_of_ne_zero (Nat.ne_of_gt (Nat.div_pos (by omega) hpow))
    refine ⟨Nat.pow 2 f.fractionBits + n % Nat.pow 2 f.fractionBits, f.leastExponent + steps,
      ⟨by omega, by omega, fun _ => by omega⟩, ?_⟩
    rw [hsteps, Nat.mul_add, Nat.mul_one, Nat.mul_comm] at hsplit
    rw [code, add_sub_cancel_left, Int.toNat_natCast]
    omega

/-- A pattern below infinity is that of the magnitude it has as its value. -/
theorem exists_value {n : Nat} (hn : n < f.infinity) :
    ∃ m e, f.Canonical m e ∧ f.code m e = n ∧ f.value n = .finite false m e := by
  obtain ⟨m, e, hc, rfl⟩ := f.exists_canonical n
  exact ⟨m, e, hc, rfl, value_code hc hn⟩

/-- Patterns are ordered like their magnitudes. -/
theorem val_le_of_code_le (hc : f.Canonical m e) (hc' : f.Canonical m' e')
    (h : f.code m e ≤ f.code m' e') (hfinite : f.code m' e' < f.infinity) :
    (m : ℚ) * (2 : ℚ) ^ e ≤ m' * (2 : ℚ) ^ e' := by
  by_contra hless
  have hmono := f.nearest_mono (Fraction.scaled_two_den_pos m' e') (Fraction.scaled_two_den_pos m e)
    (by rw [Fraction.scaled_two_val, Fraction.scaled_two_val]; exact (not_le.mp hless).le)
  rw [nearest_canonical hc' hfinite, nearest_canonical hc (lt_of_le_of_lt h hfinite)] at hmono
  -- The patterns are the same, and so are their values.
  have hsame : f.code m e = f.code m' e' := le_antisymm h hmono
  have hvalue := value_code hc (lt_of_le_of_lt h hfinite)
  rw [hsame, value_code hc' hfinite] at hvalue
  obtain ⟨-, rfl, rfl⟩ := Value.finite.inj hvalue
  exact hless le_rfl

/-- The last place of a number with few enough bits is not above the place of its last bit. -/
theorem lastPlace_scaled_le (hm : m ≠ 0) (hshort : m < 2 * Nat.pow 2 f.fractionBits)
    (hleast : f.leastExponent ≤ e) : f.lastPlace (.scaled m 2 e) ≤ e := by
  have hd := Fraction.scaled_two_den_pos m e
  have hval := Fraction.scaled_two_val m e
  have hmpos : (0 : ℚ) < m := by exact_mod_cast Nat.pos_of_ne_zero hm
  have hpos : 0 < (Fraction.scaled m 2 e).val := by
    rw [hval]
    positivity
  have hlog : Int.log 2 (Fraction.scaled m 2 e).val < e + (f.fractionBits + 1 : Nat) := by
    refine (Int.lt_zpow_iff_log_lt (b := 2) (by decide) hpos).mp ?_
    have hshort : (m : ℚ) < 2 ^ (f.fractionBits + 1) := by
      rw [pow_succ']
      exact_mod_cast hshort
    push_cast
    rw [hval, ← Nat.cast_succ, zpow_add₀ two_ne_zero, zpow_natCast, mul_comm]
    exact mul_lt_mul_of_pos_left hshort (by positivity)
  rw [f.lastPlace_eq hd (Fraction.num_ne_zero hpos)]
  omega

/-- A number with few enough bits is not changed, even if it is not in the form of the format. -/
theorem value_nearest (hm : m ≠ 0) (hshort : m < 2 * Nat.pow 2 f.fractionBits)
    (hleast : f.leastExponent ≤ e) (hfinite : f.nearest (.scaled m 2 e) < f.infinity) :
    ∃ m' e', f.Canonical m' e' ∧ f.code m' e' = f.nearest (.scaled m 2 e) ∧
      (m' : ℚ) * (2 : ℚ) ^ e' = m * (2 : ℚ) ^ e := by
  have hd := Fraction.scaled_two_den_pos m e
  have hval := Fraction.scaled_two_val m e
  have hmpos : (0 : ℚ) < m := by exact_mod_cast Nat.pos_of_ne_zero hm
  have hn : (Fraction.scaled m 2 e).num ≠ 0 := Fraction.num_ne_zero (by rw [hval]; positivity)
  have hplace := lastPlace_scaled_le hm hshort hleast
  generalize hx : Fraction.scaled m 2 e = x at *
  -- The number is whole in units of its last place.
  obtain ⟨k, hk⟩ := Int.eq_ofNat_of_zero_le (Int.sub_nonneg_of_le hplace)
  have hunits : (m : ℚ) * (2 : ℚ) ^ e = ((m * 2 ^ k : Nat) : ℚ) * (2 : ℚ) ^ f.lastPlace x := by
    have hexp : e = k + f.lastPlace x := by omega
    rw [hexp, zpow_add₀ two_ne_zero, zpow_natCast]
    push_cast
    ring
  have hmantissa : f.mantissa x = m * 2 ^ k := by
    refine mantissa_eq hd ?_
    rw [← hunits, hval, sub_self, abs_zero]
    positivity
  have hnearest := f.nearest_eq_code hn
  have hcode : f.code (f.mantissa x) (f.lastPlace x) < f.infinity := by omega
  refine ⟨f.mantissa x, f.lastPlace x, ⟨f.leastExponent_le_lastPlace x, ?_, f.le_mantissa hd hn⟩, ?_, ?_⟩
  · have hlt := f.val_lt_place hd hn
    rw [hval, hunits, add_assoc, zpow_add₀ two_ne_zero, mul_comm, zpow_add_one₀ two_ne_zero,
      zpow_natCast, mul_comm _ (2 : ℚ)] at hlt
    have hlt := lt_of_mul_lt_mul_left hlt (by positivity)
    rw [hmantissa]
    exact_mod_cast hlt
  · rw [hnearest]
    exact (min_eq_right hcode.le).symm
  · rw [hmantissa, hunits]

end Format

end JavaClass.Number
