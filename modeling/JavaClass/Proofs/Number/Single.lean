/-
  JavaClass.Proofs.Number.Single — the text of a four-byte number reads back.

  Text is read back in two steps, as the nearest eight-byte number and then as the nearest four-byte
  number to that.  Whenever a text is given for a finite four-byte number, it reads back as that
  number.  No text is given for the numbers above `ceiling`: rounded to four digits, they lie beyond
  the largest finite four-byte number (`Single.displaySingle?_reads_back`).
-/
import JavaClass.Proofs.Number.Text

namespace JavaClass.Number

/-! ## §1. Reading back. -/

/-- The eight-byte number nearest to a decimal with a sign. -/
def Decimal.toDouble (negative : Bool) (d : Decimal) : Double :=
  ⟨UInt64.ofNat (Format.double.signed negative (d.read .double))⟩

/-- The four-byte number nearest to an eight-byte number. -/
def Double.toSingle (x : Double) : Single := ⟨UInt32.ofNat (Format.single.pattern x.value)⟩

/-- The four-byte number that a decimal text is read as, by way of the nearest eight-byte number. -/
def Single.ofText? (text : String) : Option Single :=
  (Decimal.ofText? text).map fun d => (Decimal.toDouble d.1 d.2).toSingle

namespace Format

variable {f : Format} {m n : Nat} {e : Int} {negative : Bool}

/-- What a pattern with a sign denotes, it denotes without the sign, but for the sign. -/
theorem value_signed (hvalue : f.value n = .finite false m e) (hn : n < f.infinity) :
    f.value (f.signed negative n) = .finite negative m e := by
  cases negative with
  | false => exact hvalue
  | true =>
    have hpow : 0 < Nat.pow 2 f.fractionBits := Nat.two_pow_pos _
    have hweight : f.signWeight = Nat.pow 2 f.fractionBits * Nat.pow 2 f.exponentBits :=
      Nat.pow_add ..
    have hless := lt_trans hn f.infinity_lt_signWeight
    have hsign : (f.signWeight + n) / f.signWeight = 1 := by
      rw [Nat.add_div_left _ (by omega), Nat.div_eq_of_lt hless]
    have hfield : (f.signWeight + n) / Nat.pow 2 f.fractionBits % Nat.pow 2 f.exponentBits =
        n / Nat.pow 2 f.fractionBits % Nat.pow 2 f.exponentBits := by
      rw [hweight, Nat.mul_add_div hpow, Nat.add_mod_left]
    have hfraction : (f.signWeight + n) % Nat.pow 2 f.fractionBits =
        n % Nat.pow 2 f.fractionBits := by
      rw [hweight, Nat.mul_add_mod]
    have hplain : n / f.signWeight = 0 := Nat.div_eq_of_lt hless
    simp only [value, signed, if_true, hsign, hfield, hfraction, hplain] at hvalue ⊢
    split at hvalue
    · split at hvalue <;> cases hvalue
    · rename_i hlast
      rw [if_neg hlast]
      split at hvalue
      · rename_i hsub
        rw [if_pos hsub]
        obtain ⟨-, rfl, rfl⟩ := Value.finite.inj hvalue
        rfl
      · rename_i hsub
        rw [if_neg hsub]
        obtain ⟨-, rfl, rfl⟩ := Value.finite.inj hvalue
        rfl

/-- What a bit pattern denotes is a magnitude of the format. -/
theorem canonical_of_value {bits : Nat} (h : f.value bits = .finite negative m e) :
    f.Canonical m e ∧ f.code m e < f.infinity := by
  have hpow : 0 < Nat.pow 2 f.fractionBits := Nat.two_pow_pos _
  have hfraction : bits % Nat.pow 2 f.fractionBits < Nat.pow 2 f.fractionBits :=
    Nat.mod_lt _ hpow
  have hfield : bits / Nat.pow 2 f.fractionBits % Nat.pow 2 f.exponentBits <
      Nat.pow 2 f.exponentBits := Nat.mod_lt _ (Nat.two_pow_pos _)
  unfold value at h
  dsimp only at h
  generalize bits / Nat.pow 2 f.fractionBits % Nat.pow 2 f.exponentBits = field at *
  generalize bits % Nat.pow 2 f.fractionBits = fraction at *
  split at h
  · split at h <;> cases h
  rename_i hlast
  have hroom : (field + 1) * Nat.pow 2 f.fractionBits ≤ f.infinity :=
    Nat.mul_le_mul_right _ (by omega)
  rw [Nat.add_mul, Nat.one_mul] at hroom
  split at h
  · obtain ⟨-, rfl, rfl⟩ := Value.finite.inj h
    refine ⟨⟨le_rfl, by omega, fun hless => absurd hless (lt_irrefl _)⟩, ?_⟩
    rw [code, Int.sub_self, Int.toNat_zero]
    omega
  · obtain ⟨-, rfl, rfl⟩ := Value.finite.inj h
    refine ⟨⟨by omega, by omega, fun _ => by omega⟩, ?_⟩
    have hsteps : (field - 1 + 1) * Nat.pow 2 f.fractionBits = field * Nat.pow 2 f.fractionBits := by
      rw [Nat.sub_add_cancel (by omega)]
    rw [Nat.add_mul, Nat.one_mul] at hsteps
    rw [code, add_sub_cancel_left, Int.toNat_natCast]
    omega

end Format

namespace Decimal

variable {x y : Fraction} {m pattern count : Nat} {e : Int} {d : Decimal}

/-- The decimal is read as a finite eight-byte number, and that as the four-byte `pattern`. -/
def ReadsAs (d : Decimal) (pattern : Nat) : Prop :=
  ∃ m e, Format.double.Canonical m e ∧ Format.double.code m e < Format.double.infinity ∧
    d.read .double = Format.double.code m e ∧ Format.single.nearest (.scaled m 2 e) = pattern

theorem fraction_den_pos (d : Decimal) : 0 < d.fraction.den :=
  Fraction.scaled_den_pos (by decide) _ _

/-- The text of a decimal is read as the four-byte number that the decimal is read as. -/
theorem ReadsAs.ofText? (h : d.ReadsAs pattern) (negative : Bool) :
    Single.ofText? (signText negative ++ d.display) =
      some ⟨UInt32.ofNat (Format.single.signed negative pattern)⟩ := by
  obtain ⟨m, e, hc, hfinite, hread, hsingle⟩ := h
  obtain ⟨d', htext, hval⟩ := ofText?_display negative d
  have hread' : d'.read .double = Format.double.code m e :=
    (Format.double.nearest_congr d'.fraction_den_pos d.fraction_den_pos hval).trans hread
  have hsmall : Format.double.signed negative (Format.double.code m e) < 2 ^ 64 := by
    have hinfinity : Format.double.infinity = 0x7ff0000000000000 := by decide
    have hweight : Format.double.signWeight = 0x8000000000000000 := by decide
    unfold Format.signed
    split <;> omega
  have hvalue : (Decimal.toDouble negative d').value = .finite negative m e := by
    rw [Decimal.toDouble, Double.value, hread', UInt64.toNat_ofNat_of_lt' hsmall]
    exact Format.value_signed (Format.value_code hc hfinite) hfinite
  rw [Single.ofText?, htext, Option.map_some, Double.toSingle, hvalue, Format.pattern, hsingle]

/-! ## §2. The shortest decimal. -/

theorem rounded_val (x : Fraction) (count : Nat) :
    (rounded x count).fraction.val = ((x.inUnits 10 (x.log10 - (count - 1 : Nat))).toNearest : ℚ) *
      (10 : ℚ) ^ (x.log10 - (count - 1 : Nat)) :=
  fraction_val _

/-- Rounding moves a number by half a unit of the last digit at most. -/
theorem rounded_close (hd : 0 < x.den) (count : Nat) :
    |(rounded x count).fraction.val - x.val| ≤ (10 : ℚ) ^ (x.log10 - (count - 1 : Nat)) / 2 := by
  generalize he : x.log10 - ((count - 1 : Nat) : Int) = e
  have hunit : (0 : ℚ) < (10 : ℚ) ^ e := by positivity
  have hnear := Fraction.toNearest_near (Fraction.inUnits_den_pos (b := 10) (by decide) hd e)
  have hscale : (rounded x count).fraction.val - x.val =
      (((x.inUnits 10 e).toNearest : ℚ) - (x.inUnits 10 e).val) * (10 : ℚ) ^ e := by
    rw [rounded_val, he, Fraction.inUnits_val, sub_mul]
    push_cast
    rw [div_mul_cancel₀ _ hunit.ne']
  rw [hscale, abs_mul, abs_of_pos hunit]
  calc _ ≤ 1 / 2 * (10 : ℚ) ^ e := mul_le_mul_of_nonneg_right hnear hunit.le
    _ = (10 : ℚ) ^ e / 2 := by ring

/-- Seventeen digits tell eight-byte numbers apart. -/
theorem rounded_reads (hm : m ≠ 0) (hc : Format.double.Canonical m e)
    (hfinite : Format.double.code m e < Format.double.infinity) (hd : 0 < x.den)
    (hval : x.val = m * (2 : ℚ) ^ e) : (rounded x 17).read .double = Format.double.code m e := by
  have hmpos : (0 : ℚ) < m := by exact_mod_cast Nat.pos_of_ne_zero hm
  have hpos : 0 < x.val := by
    rw [hval]
    positivity
  have hclose := rounded_close hd 17
  rw [Fraction.log10_eq hd (Fraction.num_ne_zero hpos)] at hclose
  have hlog : (10 : ℚ) ^ Int.log 10 x.val ≤ x.val := by
    exact_mod_cast Int.zpow_log_le_self (b := 10) (by decide) hpos
  have hunit : (10 : ℚ) ^ (Int.log 10 x.val - ((17 - 1 : Nat) : Int)) =
      (10 : ℚ) ^ Int.log 10 x.val / 10 ^ 16 := by
    rw [zpow_sub₀ (by norm_num), zpow_natCast]
  rw [read, Format.nearest_of_close hm hc (fraction_den_pos _), min_eq_right hfinite.le]
  rw [← hval]
  refine lt_of_le_of_lt hclose ?_
  rw [hunit, show Format.double.fractionBits = 52 from rfl, div_div,
    div_lt_div_iff₀ (by norm_num) (by norm_num)]
  nlinarith

theorem neighbour?_reads {f : Format} (h : neighbour? f x pattern count = some d) :
    d.read f = pattern := by
  have hnearest := (x.inUnits 10 (x.log10 - (count - 1 : Nat))).toNearest_cases
  unfold neighbour? at h
  dsimp only at h
  split at h
  · -- Both neighbours read back, and the nearer one is one of them.
    rename_i hbelow habove
    obtain rfl := Option.some.inj h
    obtain ⟨hround, -⟩ | ⟨hround, -⟩ := hnearest
    · rw [hround]
      exact eq_of_beq hbelow
    · rw [hround]
      exact eq_of_beq habove
  · rename_i hbelow _
    obtain rfl := Option.some.inj h
    exact eq_of_beq hbelow
  · rename_i _ habove
    obtain rfl := Option.some.inj h
    exact eq_of_beq habove
  · cases h

/-- The shortest decimal of an eight-byte number reads back. -/
theorem shortest_reads (hm : m ≠ 0) (hc : Format.double.Canonical m e)
    (hfinite : Format.double.code m e < Format.double.infinity) (hd : 0 < x.den)
    (hval : x.val = m * (2 : ℚ) ^ e) : (shortest .double x).read .double = Format.double.code m e := by
  have hpattern : Format.double.nearest x = Format.double.code m e := by
    rw [← Format.nearest_canonical hc hfinite]
    exact Format.double.nearest_congr hd (Fraction.scaled_two_den_pos m e)
      (hval.trans (Fraction.scaled_two_val m e).symm)
  unfold shortest
  dsimp only
  rw [hpattern]
  cases hfind : (List.range 17).findSome? fun i =>
      neighbour? .double x (Format.double.code m e) (i + 1) with
  | none => exact rounded_reads hm hc hfinite hd hval
  | some d =>
    obtain ⟨i, -, hi⟩ := List.exists_of_findSome?_eq_some hfind
    exact neighbour?_reads hi

theorem shortest_readsAs (hm : m ≠ 0) (hc : Format.double.Canonical m e)
    (hfinite : Format.double.code m e < Format.double.infinity) (hd : 0 < x.den)
    (hval : x.val = m * (2 : ℚ) ^ e) :
    (shortest .double x).ReadsAs (Format.single.nearest x) := by
  refine ⟨m, e, hc, hfinite, shortest_reads hm hc hfinite hd hval, ?_⟩
  exact Format.single.nearest_congr (Fraction.scaled_two_den_pos m e) hd
    ((Fraction.scaled_two_val m e).trans hval.symm)

end Decimal

/-! ## §3. Attempts. -/

section Attempts

variable {x : Fraction} {m pattern count : Nat} {e : Int} {d : Decimal} {text : String}

/-- What an attempt makes of the eight-byte number that the rounded decimal is read as. -/
theorem attempt_of_value (pattern : Nat)
    (hvalue : Format.double.value ((Decimal.rounded x count).read .double) = .finite false m e) :
    (singlePattern? (.scaled m 2 e) = none ∧ attempt x pattern count = .tooLarge) ∨
      ∃ found, singlePattern? (.scaled m 2 e) = some found ∧ attempt x pattern count =
        if found = pattern then .found (Decimal.shortest .double (.scaled m 2 e)).display
        else .differs := by
  unfold attempt
  rw [hvalue]
  dsimp only
  cases singlePattern? (.scaled m 2 e) with
  | none => exact .inl ⟨rfl, rfl⟩
  | some found => exact .inr ⟨found, rfl, rfl⟩

theorem singlePattern?_eq_some (h : singlePattern? x = some pattern) :
    Format.single.nearest x = pattern := by
  unfold singlePattern? at h
  dsimp only at h
  split at h
  · exact Option.some.inj h
  · cases h

/-- A text that is found is that of a decimal that reads back. -/
theorem attempt_found (hpattern : pattern ≠ 0) (h : attempt x pattern count = .found text) :
    ∃ d : Decimal, text = d.display ∧ d.ReadsAs pattern := by
  by_cases hfinite : (Decimal.rounded x count).read .double < Format.double.infinity
  · obtain ⟨m, e, hc, hcode, hvalue⟩ := Format.exists_value hfinite
    rw [← hcode] at hfinite
    obtain ⟨-, hlarge⟩ | ⟨found, hsingle, hattempt⟩ := attempt_of_value pattern hvalue
    · rw [hlarge] at h
      cases h
    rw [hattempt] at h
    split at h
    · rename_i hsame
      subst hsame
      have hnearest := singlePattern?_eq_some hsingle
      have hm : m ≠ 0 := by
        rintro rfl
        exact hpattern
          (hnearest.symm.trans (Format.single.nearest_of_zero (Fraction.scaled_zero_num 2 e)))
      have hreads := Decimal.shortest_readsAs hm hc hfinite
        (Fraction.scaled_two_den_pos m e) (Fraction.scaled_two_val m e)
      rw [hnearest] at hreads
      exact ⟨_, (Attempt.found.inj h).symm, hreads⟩
    · cases h
  · -- The decimal is read as infinity, which is no number to write.
    have hinfinite : (Decimal.rounded x count).read .double = Format.double.infinity := by
      have hle : (Decimal.rounded x count).read .double ≤ Format.double.infinity := by
        unfold Decimal.read Format.nearest
        split
        · exact Nat.zero_le _
        · exact Nat.min_le_left _ _
      omega
    have hvalue : Format.double.value Format.double.infinity = .infinite false := by decide
    unfold attempt at h
    rw [hinfinite, hvalue] at h
    cases h

/-- Whatever text is given in the end, it is that of a decimal that reads back: by induction on the
    numbers of digits that are tried. -/
theorem firstAttempt_readsAs (hpattern : pattern ≠ 0)
    (hlast : (Decimal.shortest .double x).ReadsAs pattern) {counts : List Nat}
    (h : firstAttempt x pattern counts = some text) :
    ∃ d : Decimal, text = d.display ∧ d.ReadsAs pattern := by
  induction counts with
  | nil => exact ⟨_, (Option.some.inj h).symm, hlast⟩
  | cons count rest ih =>
    unfold firstAttempt at h
    cases hattempt : attempt x pattern count with
    | found text' =>
      rw [hattempt] at h
      obtain rfl : text' = text := Option.some.inj h
      exact attempt_found hpattern hattempt
    | differs =>
      rw [hattempt] at h
      exact ih h
    | tooLarge =>
      rw [hattempt] at h
      cases h

theorem firstAttempt_ne_none {counts : List Nat}
    (h : ∀ count ∈ counts, attempt x pattern count ≠ .tooLarge) :
    firstAttempt x pattern counts ≠ none := by
  induction counts with
  | nil => exact Option.some_ne_none _
  | cons count rest ih =>
    unfold firstAttempt
    cases hattempt : attempt x pattern count with
    | found text => exact Option.some_ne_none _
    | differs => exact ih fun c hc => h c (List.mem_cons_of_mem _ hc)
    | tooLarge => exact absurd hattempt (h count List.mem_cons_self)

end Attempts

/-! ## §4. Numbers that are too large. -/

/-- Four digits round a number above this one up, beyond the largest finite four-byte number. -/
def ceiling : Decimal := ⟨34025, 34⟩

theorem ceiling_val : ceiling.fraction.val = 34025 * (10 : ℚ) ^ 34 := by
  rw [Decimal.fraction_val]
  norm_num [ceiling]

section Ceiling

variable {x y : Fraction} {m n pattern count : Nat} {e : Int}

/-- In one decade, rounding keeps the order. -/
theorem Decimal.rounded_mono (hx : 0 < x.den) (hy : 0 < y.den) (h : x.val ≤ y.val)
    (hlog : x.log10 = y.log10) (count : Nat) :
    (rounded x count).fraction.val ≤ (rounded y count).fraction.val := by
  rw [rounded_val, rounded_val, hlog]
  refine mul_le_mul_of_nonneg_right ?_ (by positivity)
  have hmono := Fraction.toNearest_mono
    (Fraction.inUnits_den_pos (b := 10) (by decide) hx (y.log10 - (count - 1 : Nat)))
    (Fraction.inUnits_den_pos (b := 10) (by decide) hy _) (by
      rw [Fraction.inUnits_val, Fraction.inUnits_val]
      exact div_le_div_of_nonneg_right h (by positivity))
  exact_mod_cast hmono

/-- Rounding leads to the start of the next decade at most. -/
theorem Decimal.rounded_le_decade (hd : 0 < x.den) (hn : x.num ≠ 0) (hcount : 1 ≤ count) :
    (rounded x count).fraction.val ≤ (10 : ℚ) ^ (x.log10 + 1) := by
  have hpos := Fraction.val_pos hd hn
  have hlog : x.val < (10 : ℚ) ^ (x.log10 + 1) := by
    rw [Fraction.log10_eq hd hn]
    exact_mod_cast Int.lt_zpow_succ_log_self (b := 10) (by decide) x.val
  have hexp : (10 : ℚ) ^ (x.log10 + 1) = 10 ^ count * (10 : ℚ) ^ (x.log10 - (count - 1 : Nat)) := by
    rw [← zpow_natCast, ← zpow_add₀ (by norm_num)]
    congr 1
    omega
  have hunit : (0 : ℚ) < (10 : ℚ) ^ (x.log10 - (count - 1 : Nat)) := by positivity
  rw [rounded_val, hexp]
  refine mul_le_mul_of_nonneg_right ?_ hunit.le
  have hdigits : (x.inUnits 10 (x.log10 - (count - 1 : Nat))).toNearest ≤ 10 ^ count := by
    refine Fraction.toNearest_le (Fraction.inUnits_den_pos (by decide) hd _) ?_
    rw [hexp] at hlog
    rw [Fraction.inUnits_val, div_le_iff₀ (by exact_mod_cast hunit)]
    push_cast
    exact hlog.le
  exact_mod_cast hdigits

theorem count_bounds (h : count ∈ [1, 2, 3, 4, 5, 6, 7, 8, 9]) : 1 ≤ count ∧ count ≤ 9 := by
  simp only [List.mem_cons, List.not_mem_nil, or_false] at h
  omega

/-- The ceiling itself is rounded down, or left alone. -/
theorem rounded_ceiling_le (hcount : count ∈ [1, 2, 3, 4, 5, 6, 7, 8, 9]) :
    (Decimal.rounded ceiling.fraction count).fraction.val ≤ ceiling.fraction.val := by
  have hall : [1, 2, 3, 4, 5, 6, 7, 8, 9].all (fun count =>
      (Decimal.rounded ceiling.fraction count).exponent = 39 - (count : Int) &&
        (Decimal.rounded ceiling.fraction count).digits * Nat.pow 10 (39 - count) ≤
          34025 * Nat.pow 10 34) = true := by
    decide
  have hthis := List.all_eq_true.mp hall count hcount
  simp only [Bool.and_eq_true, decide_eq_true_eq] at hthis
  obtain ⟨hexponent, hdigits⟩ := hthis
  have hbounds := count_bounds hcount
  have hexp : (39 : Int) - count = (39 - count : Nat) := by omega
  rw [Decimal.fraction_val, hexponent, ceiling_val, hexp, zpow_natCast]
  exact_mod_cast hdigits

theorem log10_ceiling : ceiling.fraction.log10 = 38 := by decide

/-- A number up to the ceiling is not rounded beyond it. -/
theorem rounded_le_ceiling (hd : 0 < x.den) (hn : x.num ≠ 0) (h : x.val ≤ ceiling.fraction.val)
    (hcount : count ∈ [1, 2, 3, 4, 5, 6, 7, 8, 9]) :
    (Decimal.rounded x count).fraction.val ≤ ceiling.fraction.val := by
  have hceiling := ceiling.fraction_den_pos
  have hpos := Fraction.val_pos hd hn
  have hlog : x.log10 ≤ 38 := by
    have hcn : ceiling.fraction.num ≠ 0 := Fraction.num_ne_zero (lt_of_lt_of_le hpos h)
    rw [← log10_ceiling, Fraction.log10_eq hd hn, Fraction.log10_eq hceiling hcn]
    exact Int.log_mono_right hpos h
  obtain hless | hsame := hlog.lt_or_eq
  · calc (Decimal.rounded x count).fraction.val
      _ ≤ (10 : ℚ) ^ (x.log10 + 1) := Decimal.rounded_le_decade hd hn (count_bounds hcount).1
      _ ≤ (10 : ℚ) ^ (38 : Int) := zpow_le_zpow_right₀ (by norm_num) (by omega)
      _ ≤ ceiling.fraction.val := by
        rw [ceiling_val]
        norm_num
  · exact (Decimal.rounded_mono hd hceiling h (hsame.trans log10_ceiling.symm) count).trans
      (rounded_ceiling_le hcount)

/-- The eight-byte number that the ceiling is read as. -/
theorem read_ceiling : ceiling.read .double = Format.double.code 9006342509477365 75 := by
  decide

theorem canonical_ceiling : Format.double.Canonical 9006342509477365 75 :=
  ⟨by decide, by decide, fun _ => by decide⟩

/-- A decimal up to the ceiling is read as a finite four-byte number. -/
theorem attempt_ne_tooLarge (h : (Decimal.rounded x count).fraction.val ≤ ceiling.fraction.val) :
    attempt x pattern count ≠ .tooLarge := by
  have hread : (Decimal.rounded x count).read .double ≤ Format.double.code 9006342509477365 75 := by
    rw [← read_ceiling]
    exact Format.double.nearest_mono (Decimal.fraction_den_pos _) ceiling.fraction_den_pos h
  have hbound : Format.double.code 9006342509477365 75 < Format.double.infinity := by
    decide
  obtain ⟨m, e, hc, hcode, hvalue⟩ := Format.exists_value (lt_of_le_of_lt hread hbound)
  rw [← hcode] at hread
  -- The eight-byte number is at most that of the ceiling, and so is its four-byte number.
  have hval := Format.val_le_of_code_le hc canonical_ceiling hread hbound
  have hsingle : Format.single.nearest (.scaled m 2 e) < Format.single.infinity := by
    have hmono := Format.single.nearest_mono (Fraction.scaled_two_den_pos m e)
      (Fraction.scaled_two_den_pos 9006342509477365 75)
      (by rw [Fraction.scaled_two_val, Fraction.scaled_two_val]; exact_mod_cast hval)
    have hfinite : Format.single.nearest (.scaled 9006342509477365 2 75) < Format.single.infinity := by
      decide
    omega
  obtain ⟨hnone, -⟩ | ⟨found, -, hattempt⟩ := attempt_of_value pattern hvalue
  · unfold singlePattern? at hnone
    dsimp only at hnone
    rw [if_pos hsingle] at hnone
    cases hnone
  · rw [hattempt]
    split
    · exact Attempt.noConfusion
    · exact Attempt.noConfusion

/-- The decimal that a number between the ceiling and `10 ^ 39` is rounded to, told by the numbers half
    a unit of its last digit away. -/
theorem rounded_eq (hd : 0 < x.den) (hlow : ceiling.fraction.val < x.val)
    (hhigh : x.val < (10 : ℚ) ^ 39) (n : Nat) {k : Nat} (hk : k ≤ 38)
    (habove : n * (10 : ℚ) ^ (38 - k) - 10 ^ (38 - k) / 2 < x.val)
    (hbelow : x.val < n * (10 : ℚ) ^ (38 - k) + 10 ^ (38 - k) / 2) :
    Decimal.rounded x (k + 1) = ⟨n, 38 - k⟩ := by
  have hpos : 0 < x.val := lt_of_le_of_lt (Fraction.val_nonneg _) hlow
  have hlog : x.log10 = 38 := by
    rw [Fraction.log10_eq hd (Fraction.num_ne_zero hpos)]
    have hle : (38 : Int) ≤ Int.log 10 x.val := by
      refine (Int.zpow_le_iff_le_log (b := 10) (by decide) hpos).mp (le_trans ?_ hlow.le)
      rw [ceiling_val]
      norm_num
    have hlt : Int.log 10 x.val < (39 : Int) := by
      refine (Int.lt_zpow_iff_log_lt (b := 10) (by decide) hpos).mp ?_
      exact_mod_cast hhigh
    omega
  have hexp : ((10 : Nat) : ℚ) ^ ((38 : Int) - (k : Int)) = 10 ^ (38 - k) := by
    rw [← zpow_natCast]
    push_cast [hk]
    rfl
  have hround : (x.inUnits 10 (38 - (k : Int))).toNearest = n := by
    refine Fraction.toNearest_inUnits (by decide) hd ?_
    rw [hexp, abs_lt]
    constructor <;> linarith
  unfold Decimal.rounded
  dsimp only
  rw [hlog, Nat.add_sub_cancel, hround]

/-- An attempt with the decimal `d`, read as `m * 2 ^ e`. -/
theorem attempt_differs {d : Decimal} {found : Nat} (hd : Decimal.rounded x count = d)
    (hvalue : Format.double.value (d.read .double) = .finite false m e)
    (hsingle : singlePattern? (.scaled m 2 e) = some found) (hother : found ≠ pattern) :
    attempt x pattern count = .differs := by
  unfold attempt
  rw [hd, hvalue]
  dsimp only
  rw [hsingle]
  exact if_neg hother

theorem attempt_tooLarge {d : Decimal} (hd : Decimal.rounded x count = d)
    (hvalue : Format.double.value (d.read .double) = .finite false m e)
    (hsingle : singlePattern? (.scaled m 2 e) = none) : attempt x pattern count = .tooLarge := by
  unfold attempt
  rw [hd, hvalue]
  dsimp only
  rw [hsingle]

theorem firstAttempt_of_differs (h : attempt x pattern count = .differs) (rest : List Nat) :
    firstAttempt x pattern (count :: rest) = firstAttempt x pattern rest := by
  rw [firstAttempt, h]

theorem firstAttempt_of_tooLarge (h : attempt x pattern count = .tooLarge) (rest : List Nat) :
    firstAttempt x pattern (count :: rest) = none := by
  rw [firstAttempt, h]

/-- Above the ceiling, up to three digits give smaller numbers, and four digits one that is too
    large. -/
theorem firstAttempt_eq_none (hd : 0 < x.den) (hlow : ceiling.fraction.val < x.val)
    (hhigh : x.val ≤ 16777215 * (2 : ℚ) ^ 104) :
    firstAttempt x (Format.single.nearest x) [1, 2, 3, 4, 5, 6, 7, 8, 9] = none := by
  have hbound : x.val < (10 : ℚ) ^ 39 := lt_of_le_of_lt hhigh (by norm_num)
  have hpattern : Format.single.nearest ceiling.fraction ≤ Format.single.nearest x :=
    Format.single.nearest_mono ceiling.fraction_den_pos hd hlow.le
  have hread : Format.single.nearest ceiling.fraction = 0x7f7ff9c4 := by decide
  have habove : 34025 * (10 : ℚ) ^ 34 < x.val := ceiling_val ▸ hlow
  have hrounded := rounded_eq hd hlow hbound
  have hone : Decimal.rounded x 1 = ⟨3, 38⟩ :=
    hrounded 3 (by decide) (by norm_num at habove ⊢; linarith) (by norm_num at hhigh ⊢; linarith)
  have htwo : Decimal.rounded x 2 = ⟨34, 37⟩ :=
    hrounded 34 (by decide) (by norm_num at habove ⊢; linarith) (by norm_num at hhigh ⊢; linarith)
  have hthree : Decimal.rounded x 3 = ⟨340, 36⟩ :=
    hrounded 340 (by decide) (by norm_num at habove ⊢; linarith) (by norm_num at hhigh ⊢; linarith)
  have hfour : Decimal.rounded x 4 = ⟨3403, 35⟩ :=
    hrounded 3403 (by decide) (by norm_num at habove ⊢; linarith) (by norm_num at hhigh ⊢; linarith)
  have hfirst : Format.double.value (Decimal.read .double ⟨3, 38⟩) =
      .finite false 7940933880509066 75 := by decide
  have hsecond : Format.double.value (Decimal.read .double ⟨34, 37⟩) =
      .finite false 8999725064576941 75 := by decide
  have hthird : Format.double.value (Decimal.read .double ⟨340, 36⟩) =
      .finite false 8999725064576941 75 := by decide
  have hfourth : Format.double.value (Decimal.read .double ⟨3403, 35⟩) =
      .finite false 4503832999228725 76 := by decide
  have hsmall : singlePattern? (.scaled 7940933880509066 2 75) = some 0x7f61b1e6 := by
    decide
  have hless : singlePattern? (.scaled 8999725064576941 2 75) = some 0x7f7fc99e := by
    decide
  have hlarge : singlePattern? (.scaled 4503832999228725 2 76) = none := by decide
  rw [firstAttempt_of_differs (attempt_differs hone hfirst hsmall (by omega)),
    firstAttempt_of_differs (attempt_differs htwo hsecond hless (by omega)),
    firstAttempt_of_differs (attempt_differs hthree hthird hless (by omega)),
    firstAttempt_of_tooLarge (attempt_tooLarge hfour hfourth hlarge)]

end Ceiling

/-! ## §5. Four-byte numbers. -/

namespace Single

variable {x : Single} {negative : Bool} {m : Nat} {e : Int} {text : String}

theorem singlePattern?_of_value (h : x.value = .finite negative m e) :
    singlePattern? (.scaled m 2 e) = some (Format.single.nearest (.scaled m 2 e)) := by
  obtain ⟨hc, hfinite⟩ := Format.canonical_of_value h
  unfold singlePattern?
  dsimp only
  rw [Format.nearest_canonical hc hfinite, if_pos hfinite]

/-- The value of a finite four-byte number is at most that of the largest. -/
theorem val_le_largest (h : x.value = .finite negative m e) :
    (Fraction.scaled m 2 e).val ≤ 16777215 * (2 : ℚ) ^ 104 := by
  obtain ⟨hc, hfinite⟩ := Format.canonical_of_value h
  have hlargest : Format.single.Canonical 16777215 104 :=
    ⟨by decide, by decide, fun _ => by decide⟩
  have hcode : Format.single.code 16777215 104 + 1 = Format.single.infinity := by decide
  have hle := Format.val_le_of_code_le hc hlargest (by omega) (by omega)
  rw [Fraction.scaled_two_val]
  exact_mod_cast hle

/-- The shortest decimal of a four-byte number, as an eight-byte number, reads back: the eight bytes
    have room for its bits. -/
theorem shortest_readsAs (hm : m ≠ 0) (h : x.value = .finite negative m e) :
    (Decimal.shortest .double (.scaled m 2 e)).ReadsAs
      (Format.single.nearest (.scaled m 2 e)) := by
  obtain ⟨hc, -⟩ := Format.canonical_of_value h
  have hd := Fraction.scaled_two_den_pos m e
  have hval := Fraction.scaled_two_val m e
  have hshort : m < 2 * Nat.pow 2 Format.double.fractionBits :=
    lt_of_lt_of_le hc.short (by decide)
  have hleast : Format.double.leastExponent ≤ e := le_trans (by decide) hc.least
  have hfinite : Format.double.nearest (.scaled m 2 e) < Format.double.infinity := by
    have hmono := Format.double.nearest_mono hd (Fraction.scaled_two_den_pos 16777215 104) (by
      rw [Fraction.scaled_two_val 16777215]
      exact_mod_cast val_le_largest h)
    have hlargest : Format.double.nearest (.scaled 16777215 2 104) < Format.double.infinity := by
      decide
    omega
  obtain ⟨m', e', hc', hcode, hsame⟩ := Format.value_nearest hm hshort hleast hfinite
  have hm' : m' ≠ 0 := by
    rintro rfl
    have hmpos : (0 : ℚ) < m := by exact_mod_cast Nat.pos_of_ne_zero hm
    have hpos : (0 : ℚ) < m * (2 : ℚ) ^ e := by positivity
    rw [← hsame, Nat.cast_zero, zero_mul] at hpos
    exact lt_irrefl _ hpos
  exact Decimal.shortest_readsAs hm' hc' (hcode ▸ hfinite) hd (hval.trans hsame.symm)

theorem zero_readsAs (e : Int) :
    (⟨0, 0⟩ : Decimal).ReadsAs (Format.single.nearest (.scaled 0 2 e)) := by
  refine ⟨0, Format.double.leastExponent, ⟨le_rfl, by decide, fun h => absurd h (lt_irrefl _)⟩,
    by decide, by decide, ?_⟩
  rw [Format.single.nearest_of_zero (Fraction.scaled_zero_num 2 e)]
  decide

theorem nearest_ne_zero (hm : m ≠ 0) (h : x.value = .finite negative m e) :
    Format.single.nearest (.scaled m 2 e) ≠ 0 := by
  obtain ⟨hc, hfinite⟩ := Format.canonical_of_value h
  rw [Format.nearest_canonical hc hfinite, Format.code]
  omega

/-- A text that is given is a sign and the text of a decimal that reads back. -/
theorem displaySingle?_readsAs (h : x.value = .finite negative m e)
    (htext : x.value.displaySingle? = some text) :
    ∃ d : Decimal, text = signText negative ++ d.display ∧
      d.ReadsAs (Format.single.nearest (.scaled m 2 e)) := by
  rw [h] at htext
  unfold Value.displaySingle? at htext
  dsimp only at htext
  by_cases hm : m = 0
  · subst hm
    rw [if_pos rfl] at htext
    exact ⟨⟨0, 0⟩, (Option.some.inj htext).symm, zero_readsAs e⟩
  · rw [if_neg hm, singlePattern?_of_value h, Option.bind_some] at htext
    obtain ⟨magnitude, hfirst, rfl⟩ := Option.map_eq_some_iff.mp htext
    obtain ⟨d, rfl, hreads⟩ :=
      firstAttempt_readsAs (nearest_ne_zero hm h) (shortest_readsAs hm h) hfirst
    exact ⟨d, rfl, hreads⟩

theorem displaySingle?_eq_none_iff (h : x.value = .finite negative m e) :
    x.value.displaySingle? = none ↔ ceiling.fraction.val < (Fraction.scaled m 2 e).val := by
  have hd := Fraction.scaled_two_den_pos m e
  rw [h]
  unfold Value.displaySingle?
  dsimp only
  by_cases hm : m = 0
  · have hnonneg := Fraction.val_nonneg ceiling.fraction
    rw [if_pos hm, hm, Fraction.scaled_two_val, Nat.cast_zero, zero_mul]
    exact iff_of_false (Option.some_ne_none _) (not_lt.mpr hnonneg)
  have hn : (Fraction.scaled m 2 e).num ≠ 0 := by
    refine Fraction.num_ne_zero ?_
    have hmpos : (0 : ℚ) < m := by exact_mod_cast Nat.pos_of_ne_zero hm
    rw [Fraction.scaled_two_val]
    positivity
  rw [if_neg hm, singlePattern?_of_value h, Option.bind_some, Option.map_eq_none_iff]
  constructor
  · intro hnone
    by_contra hle
    refine firstAttempt_ne_none (fun count hcount => attempt_ne_tooLarge ?_) hnone
    exact rounded_le_ceiling hd hn (not_lt.mp hle) hcount
  · intro habove
    exact firstAttempt_eq_none hd habove (val_le_largest h)

/-- No text is given for a finite four-byte number exactly if its magnitude is above the ceiling,
    `3.4025e38`.  A text that is given is read as a decimal, rounded to the nearest eight-byte number
    and then to the nearest four-byte number, the number that it was given for. -/
theorem displaySingle?_reads_back (h : x.value = .finite negative m e) :
    (x.value.displaySingle? = none ↔ 34025 * (10 : ℚ) ^ 34 < (Fraction.scaled m 2 e).val) ∧
      ∀ text, x.value.displaySingle? = some text → ofText? text = some x := by
  refine ⟨ceiling_val ▸ displaySingle?_eq_none_iff h, ?_⟩
  intro text htext
  obtain ⟨d, rfl, hreads⟩ := displaySingle?_readsAs h htext
  have hpattern := Single.pattern_value (x := x) (by rw [h]; exact Value.noConfusion)
  rw [h, Format.pattern] at hpattern
  rw [hreads.ofText?, hpattern]

/-- The largest four-byte number below the ceiling has a text, and it reads back. -/
theorem displaySingle?_reads_back_below :
    (⟨0x7f7ff9c4⟩ : Single).value = .finite false 16775620 104 ∧
      ∃ text, (⟨0x7f7ff9c4⟩ : Single).value.displaySingle? = some text ∧
        ofText? text = some ⟨0x7f7ff9c4⟩ := by
  have hvalue : (⟨0x7f7ff9c4⟩ : Single).value = .finite false 16775620 104 := by decide
  obtain ⟨hnone, hreads⟩ := displaySingle?_reads_back hvalue
  have hsome : (⟨0x7f7ff9c4⟩ : Single).value.displaySingle? ≠ none := by
    rw [Ne, hnone, Fraction.scaled_two_val]
    norm_num
  obtain ⟨text, htext⟩ := Option.ne_none_iff_exists'.mp hsome
  exact ⟨hvalue, text, htext, hreads text htext⟩

/-- The largest finite four-byte number has no text. -/
theorem displaySingle?_largest :
    (⟨0x7f7fffff⟩ : Single).value = .finite false 16777215 104 ∧
      (⟨0x7f7fffff⟩ : Single).value.displaySingle? = none := by
  have hvalue : (⟨0x7f7fffff⟩ : Single).value = .finite false 16777215 104 := by decide
  refine ⟨hvalue, (displaySingle?_eq_none_iff hvalue).mpr ?_⟩
  rw [ceiling_val, Fraction.scaled_two_val]
  norm_num

end Single

end JavaClass.Number
