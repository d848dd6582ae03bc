/-
  JavaClass.Proofs.Number.Pattern — bit patterns come back from their values.

  Rounding to nearest changes no magnitude that the format has: with the last place of the
  magnitude as the unit, the fraction is a whole number.  So the pattern of the value of a bit
  pattern is that bit pattern, unless it is not a number; all patterns of that kind have one value.
-/
import JavaClass.Number.Binary

namespace JavaClass.Number

/-! ## §1. Fractions that are scaled by a power of two. -/

namespace Fraction

theorem toNearest_mul {k : Nat} (m : Nat) (hk : 0 < k) : toNearest ⟨m * k, k⟩ = m := by
  simp only [toNearest, Nat.mul_div_cancel m hk, Nat.mul_mod_left]
  rw [if_neg]
  simp only [Nat.mul_zero, Nat.not_lt_zero, decide_false, Bool.false_or, Bool.and_eq_true,
    decide_eq_true_eq, not_and]
  omega

/-- In units of its own scale, a scaled number is whole. -/
theorem toNearest_scaled (m : Nat) (e : Int) : ((scaled m 2 e).inUnits 2 e).toNearest = m := by
  have hpow : 0 < 2 ^ e.natAbs := Nat.two_pow_pos _
  by_cases he : e < 0
  · simp only [scaled, inUnits, if_pos he]
    exact toNearest_mul m hpow
  · simp only [scaled, inUnits, if_neg he, Nat.one_mul]
    exact toNearest_mul m hpow

/-- The guess at the leading digit of a scaled number is right. -/
theorem settleLog_scaled {m : Nat} (hm : m ≠ 0) (e : Int) :
    (scaled m 2 e).settleLog 2 (Nat.log2 m + e) = Nat.log2 m + e := by
  have hlead : 2 ^ m.log2 ≤ m := Nat.log2_self_le hm
  unfold settleLog
  apply if_pos
  -- Powers of two stand above or below the line, by the signs of the two exponents.
  by_cases he : e < 0 <;> by_cases hg : (Nat.log2 m : Int) + e < 0
  · have hexp : e.natAbs = m.log2 + ((m.log2 : Int) + e).natAbs := by omega
    simp only [scaled, inUnits, if_pos he, if_pos hg, Nat.pow_eq]
    rw [hexp, Nat.pow_add]
    exact Nat.mul_le_mul_right _ hlead
  · have hexp : e.natAbs + ((m.log2 : Int) + e).natAbs = m.log2 := by omega
    simp only [scaled, inUnits, if_pos he, if_neg hg, Nat.pow_eq]
    rw [← Nat.pow_add, hexp]
    exact hlead
  · omega
  · have hexp : ((m.log2 : Int) + e).natAbs = m.log2 + e.natAbs := by omega
    simp only [scaled, inUnits, if_neg he, if_neg hg, Nat.pow_eq]
    rw [hexp, Nat.pow_add, Nat.one_mul]
    exact Nat.mul_le_mul_right _ hlead

theorem log2_scaled {m : Nat} (hm : m ≠ 0) (e : Int) : (scaled m 2 e).log2 = Nat.log2 m + e := by
  have hguess : (Nat.log2 (scaled m 2 e).num : Int) - Nat.log2 (scaled m 2 e).den =
      Nat.log2 m + e := by
    by_cases he : e < 0
    · simp only [scaled, if_pos he, Nat.pow_eq, Nat.log2_two_pow]
      omega
    · have hlog : (m * 2 ^ e.natAbs).log2 = m.log2 + e.natAbs := by
        obtain ⟨hlow, hhigh⟩ := (Nat.log2_eq_iff hm).mp rfl
        rw [Nat.log2_eq_iff (Nat.mul_ne_zero hm (Nat.ne_of_gt (Nat.two_pow_pos _)))]
        refine ⟨?_, ?_⟩
        · rw [Nat.pow_add]
          exact Nat.mul_le_mul_right _ hlow
        · rw [show m.log2 + e.natAbs + 1 = m.log2 + 1 + e.natAbs by omega, Nat.pow_add]
          exact Nat.mul_lt_mul_of_pos_right hhigh (Nat.two_pow_pos _)
      have hone : Nat.log2 1 = 0 := by decide
      simp only [scaled, if_neg he, Nat.pow_eq, hlog, hone]
      omega
  rw [log2, hguess]
  exact settleLog_scaled hm e

end Fraction

/-! ## §2. Magnitudes of a format. -/

namespace Format

variable (f : Format)

/-- A whole number of last places is its own nearest magnitude. -/
theorem nearest_scaled {m : Nat} {e : Int} (hm : m ≠ 0)
    (hplace : f.lastPlace (.scaled m 2 e) = e) :
    f.nearest (.scaled m 2 e) =
      min f.infinity ((e - f.leastExponent).toNat * Nat.pow 2 f.fractionBits + m) := by
  have hnum : (Fraction.scaled m 2 e).num ≠ 0 := by
    unfold Fraction.scaled
    split
    · exact hm
    · exact Nat.mul_ne_zero hm (Nat.ne_of_gt (Nat.two_pow_pos _))
  simp only [nearest, if_neg hnum, hplace, Fraction.toNearest_scaled]

theorem nearest_subnormal {fraction : Nat} (hfield : 1 < Nat.pow 2 f.exponentBits)
    (hfraction : fraction < Nat.pow 2 f.fractionBits) :
    f.nearest (.scaled fraction 2 f.leastExponent) = fraction := by
  by_cases hzero : fraction = 0
  · subst hzero
    have hnum : (Fraction.scaled 0 2 f.leastExponent).num = 0 := by
      unfold Fraction.scaled
      split
      · rfl
      · exact Nat.zero_mul _
    rw [nearest, if_pos hnum]
  · have hplace : f.lastPlace (.scaled fraction 2 f.leastExponent) = f.leastExponent := by
      have hlog : fraction.log2 < f.fractionBits := (Nat.log2_lt hzero).mpr hfraction
      rw [lastPlace, Fraction.log2_scaled hzero]
      omega
    have hinfinity : 1 * Nat.pow 2 f.fractionBits ≤ f.infinity :=
      Nat.mul_le_mul_right _ (by omega)
    rw [nearest_scaled f hzero hplace, Int.sub_self]
    simp only [Int.toNat_zero, Nat.zero_mul, Nat.zero_add]
    omega

theorem nearest_normal {field fraction : Nat} (hzero : field ≠ 0)
    (hfield : field < Nat.pow 2 f.exponentBits - 1) (hfraction : fraction < Nat.pow 2 f.fractionBits) :
    f.nearest (.scaled (Nat.pow 2 f.fractionBits + fraction) 2
      (f.leastExponent + (field - 1 : Nat))) = field * Nat.pow 2 f.fractionBits + fraction := by
  have hpow : 0 < Nat.pow 2 f.fractionBits := Nat.two_pow_pos _
  have hm : Nat.pow 2 f.fractionBits + fraction ≠ 0 := by omega
  have hlog : (Nat.pow 2 f.fractionBits + fraction).log2 = f.fractionBits := by
    rw [Nat.pow_eq] at hfraction hm ⊢
    rw [Nat.log2_eq_iff hm, Nat.pow_succ]
    omega
  have hplace : f.lastPlace (.scaled (Nat.pow 2 f.fractionBits + fraction) 2
      (f.leastExponent + (field - 1 : Nat))) = f.leastExponent + (field - 1 : Nat) := by
    rw [lastPlace, Fraction.log2_scaled hm, hlog]
    omega
  have hsucc : (field - 1 + 1) * Nat.pow 2 f.fractionBits = field * Nat.pow 2 f.fractionBits := by
    rw [Nat.sub_add_cancel (by omega)]
  have hinfinity : (field + 1) * Nat.pow 2 f.fractionBits ≤ f.infinity :=
    Nat.mul_le_mul_right _ (by omega)
  rw [Nat.add_mul, Nat.one_mul] at hsucc hinfinity
  have hplaces : (f.leastExponent + (field - 1 : Nat) - f.leastExponent).toNat = field - 1 := by
    omega
  rw [nearest_scaled f hm hplace, hplaces]
  omega

/-! ## §3. Whole patterns. -/

/-- A bit pattern by its sign, exponent field and fraction field. -/
theorem eq_signed_fields {bits : Nat} (h : bits < 2 * f.signWeight) :
    bits = f.signed (bits / f.signWeight % 2 = 1)
      (bits / Nat.pow 2 f.fractionBits % Nat.pow 2 f.exponentBits * Nat.pow 2 f.fractionBits +
        bits % Nat.pow 2 f.fractionBits) := by
  have hweight : f.signWeight = Nat.pow 2 f.fractionBits * Nat.pow 2 f.exponentBits := Nat.pow_add ..
  -- The fraction is cut off, then the exponent; the sign is left.
  have hlow := Nat.div_add_mod bits (Nat.pow 2 f.fractionBits)
  have hhigh := Nat.div_add_mod (bits / Nat.pow 2 f.fractionBits) (Nat.pow 2 f.exponentBits)
  have hsign : bits / f.signWeight < 2 := Nat.div_lt_of_lt_mul (Nat.mul_comm .. ▸ h)
  rw [Nat.div_div_eq_div_mul, ← hweight] at hhigh
  rw [← hhigh, Nat.mul_add, ← Nat.mul_assoc, ← hweight] at hlow
  rw [Nat.mul_comm (Nat.pow 2 f.fractionBits)] at hlow
  unfold signed
  generalize bits / f.signWeight = sign at hsign hlow ⊢
  obtain rfl | rfl : sign = 0 ∨ sign = 1 := by omega
  · rw [Nat.mul_zero, Nat.zero_add] at hlow
    exact hlow.symm
  · rw [Nat.mul_one, Nat.add_assoc] at hlow
    exact hlow.symm

/-- Every bit pattern that is a number is the pattern of its value. -/
theorem pattern_value {bits : Nat} (hbits : bits < 2 * f.signWeight)
    (hnan : f.value bits ≠ .nan) : f.pattern (f.value bits) = bits := by
  have hfields := f.eq_signed_fields hbits
  have hfield : bits / Nat.pow 2 f.fractionBits % Nat.pow 2 f.exponentBits < Nat.pow 2 f.exponentBits :=
    Nat.mod_lt _ (Nat.two_pow_pos _)
  have hfraction : bits % Nat.pow 2 f.fractionBits < Nat.pow 2 f.fractionBits :=
    Nat.mod_lt _ (Nat.two_pow_pos _)
  unfold value at hnan ⊢
  generalize bits / Nat.pow 2 f.fractionBits % Nat.pow 2 f.exponentBits = field at *
  generalize bits % Nat.pow 2 f.fractionBits = fraction at *
  dsimp only at hnan ⊢
  -- The last exponent field is for infinity and for what is not a number.
  by_cases hlast : field = Nat.pow 2 f.exponentBits - 1
  · rw [if_pos hlast] at hnan ⊢
    by_cases hzero : fraction = 0
    · rw [if_pos hzero]
      rw [hlast, hzero, Nat.add_zero] at hfields
      exact hfields.symm
    · rw [if_neg hzero] at hnan
      exact absurd rfl hnan
  rw [if_neg hlast]
  -- The first one is for magnitudes without a leading bit.
  by_cases hsub : field = 0
  · rw [if_pos hsub]
    rw [hsub, Nat.zero_mul, Nat.zero_add] at hfields
    show f.signed _ (f.nearest _) = bits
    rw [f.nearest_subnormal (by omega) hfraction]
    exact hfields.symm
  · rw [if_neg hsub]
    show f.signed _ (f.nearest _) = bits
    rw [f.nearest_normal hsub (by omega) hfraction]
    exact hfields.symm

end Format

/-- A number of four bytes comes back from its value. -/
theorem Single.pattern_value {x : Single} (h : x.value ≠ .nan) :
    UInt32.ofNat (Format.single.pattern x.value) = x.bits := by
  have hbits : x.bits.toNat < 2 * Format.single.signWeight := x.bits.toNat_lt
  rw [value, Format.single.pattern_value hbits h, UInt32.ofNat_toNat]

/-- A number of eight bytes comes back from its value. -/
theorem Double.pattern_value {x : Double} (h : x.value ≠ .nan) :
    UInt64.ofNat (Format.double.pattern x.value) = x.bits := by
  have hbits : x.bits.toNat < 2 * Format.double.signWeight := x.bits.toNat_lt
  rw [value, Format.double.pattern_value hbits h, UInt64.ofNat_toNat]

end JavaClass.Number
