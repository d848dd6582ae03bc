/-
  JavaClass.Proofs.Text.Utf16 — what the way through UTF-16 does to code points.

  `joined` is the rule for code points among which surrogates may stand: a high surrogate directly
  followed by a low one is one character with it, every other surrogate is the replacement character, and
  the rest stand for themselves.  Code points written as UTF-16 bytes and read back come out by this rule,
  also where the first of them is the code point of the byte order mark:

      lossy (encode points) = joined points
-/
import JavaClass.Proofs.Text.Utf8
import JavaClass.Text.Utf16

namespace JavaClass.Text.Utf16

/-! ## §1. Joining surrogates. -/

/-- The character of a code point that is not in a pair. -/
def alone (n : Nat) : Char :=
  if isHigh n || isLow n then replacement else Char.ofNat n

/-- The characters of code points: pairs of surrogates are joined, other surrogates are replaced. -/
def joined : List Nat → List Char
  | [] => []
  | [n] => [alone n]
  | n :: m :: rest =>
    if isHigh n && isLow m then Char.ofNat (paired n m) :: joined rest
    else alone n :: joined (m :: rest)

theorem isHigh_iff (n : Nat) : isHigh n = true ↔ 0xD800 ≤ n ∧ n < 0xDC00 := by
  simp [isHigh]

theorem isLow_iff (n : Nat) : isLow n = true ↔ 0xDC00 ≤ n ∧ n < 0xE000 := by
  simp [isLow]

theorem alone_of_not_surrogate {n : Nat} (h : ¬ IsSurrogate n) : alone n = Char.ofNat n := by
  unfold IsSurrogate at h
  rw [alone, if_neg]
  rw [Bool.or_eq_true, isHigh_iff, isLow_iff]
  omega

/-- A code point stands alone unless it opens a pair with the next one. -/
theorem joined_cons {n : Nat} {points : List Nat}
    (h : ∀ m ∈ points.head?, ¬ (isHigh n && isLow m) = true) :
    joined (n :: points) = alone n :: joined points := by
  cases points with
  | nil => rfl
  | cons m rest => rw [joined, if_neg (h m rfl)]

theorem joined_pair {high low : Nat} (hhigh : isHigh high = true) (hlow : isLow low = true)
    (rest : List Nat) : joined (high :: low :: rest) = Char.ofNat (paired high low) :: joined rest := by
  rw [joined, hhigh, hlow, Bool.and_self, if_pos rfl]

/-- Without surrogates, every code point stands for itself. -/
theorem joined_eq_map {points : List Nat} (h : ∀ n ∈ points, Admits false n) :
    joined points = points.map Char.ofNat := by
  induction points with
  | nil => rfl
  | cons n rest ih =>
    have hn : ¬ IsSurrogate n := (h n List.mem_cons_self).not_surrogate
    have hnot : ¬ isHigh n = true := by
      rw [isHigh_iff]
      unfold IsSurrogate at hn
      omega
    rw [joined_cons fun m _ hpair => hnot (Bool.and_eq_true_iff.mp hpair).1, alone_of_not_surrogate hn,
      ih fun m hm => h m (List.mem_cons_of_mem n hm), List.map_cons]

/-! ## §2. Units of code points. -/

theorem isHigh_highOf {n : Nat} (h : n < 0x110000) : isHigh (highOf n) = true := by
  rw [isHigh_iff]
  unfold highOf
  omega

theorem isLow_lowOf (n : Nat) : isLow (lowOf n) = true := by
  rw [isLow_iff]
  unfold lowOf
  omega

theorem paired_highOf_lowOf {n : Nat} (h : 0x10000 ≤ n) : paired (highOf n) (lowOf n) = n := by
  unfold paired highOf lowOf
  omega

theorem units_of_lt {n : Nat} (h : n < 0x10000) : units n = [n] :=
  if_pos h

theorem units_of_le {n : Nat} (h : 0x10000 ≤ n) : units n = [highOf n, lowOf n] :=
  if_neg (by omega)

theorem lt_of_mem_units {n u : Nat} (hn : n < 0x110000) (hu : u ∈ units n) : u < 0x10000 := by
  by_cases hsmall : n < 0x10000
  · rw [units_of_lt hsmall, List.mem_singleton] at hu
    omega
  · have hhigh := (isHigh_iff _).mp (isHigh_highOf hn)
    have hlow := (isLow_iff _).mp (isLow_lowOf n)
    rw [units_of_le (by omega)] at hu
    simp only [List.mem_cons, List.not_mem_nil, or_false] at hu
    omega

/-- The first unit of a code point closes a pair only if the code point does. -/
theorem not_pair_of_mem_head_units {n m u : Nat} {more : List Nat} (hm : m < 0x110000)
    (h : ¬ (isHigh n && isLow m) = true) (hu : u ∈ (units m ++ more).head?) :
    ¬ (isHigh n && isLow u) = true := by
  by_cases hsmall : m < 0x10000
  · rw [units_of_lt hsmall] at hu
    cases hu
    exact h
  · rw [units_of_le (by omega)] at hu
    cases hu
    -- the first of two units is a high surrogate
    have hhigh := (isHigh_iff _).mp (isHigh_highOf hm)
    rw [Bool.and_eq_true, isLow_iff]
    omega

/-- Behind a code point that opens no pair with the next one, its units are joined apart. -/
theorem joined_units {n : Nat} {more : List Nat} (hn : n < 0x110000)
    (h : ∀ u ∈ more.head?, ¬ (isHigh n && isLow u) = true) :
    joined (units n ++ more) = alone n :: joined more := by
  by_cases hsmall : n < 0x10000
  · rw [units_of_lt hsmall]
    exact joined_cons h
  · have halone : alone n = Char.ofNat n :=
      alone_of_not_surrogate (by unfold IsSurrogate; omega)
    rw [units_of_le (by omega)]
    show joined (highOf n :: lowOf n :: more) = _
    rw [joined_pair (isHigh_highOf hn) (isLow_lowOf n), paired_highOf_lowOf (by omega), halone]

/-- Joining the units of code points gives what joining the code points gives. -/
theorem joined_flatMap_units {points : List Nat} (h : ∀ n ∈ points, n < 0x110000) :
    joined (points.flatMap units) = joined points := by
  fun_induction joined points with
  | case1 => rfl
  | case2 n =>
    rw [List.flatMap_cons, joined_units (h n List.mem_cons_self) (by simp)]
    rfl
  | case3 n m rest hpair ih =>
    rw [Bool.and_eq_true] at hpair
    have hn := (isHigh_iff n).mp hpair.1
    have hm := (isLow_iff m).mp hpair.2
    rw [List.flatMap_cons, List.flatMap_cons, units_of_lt (by omega), units_of_lt (by omega)]
    show joined (n :: m :: rest.flatMap units) = _
    rw [joined_pair hpair.1 hpair.2,
      ih fun k hk => h k (List.mem_cons_of_mem n (List.mem_cons_of_mem m hk))]
  | case4 n m rest hpair ih =>
    have hrest : ∀ k ∈ m :: rest, k < 0x110000 := fun k hk => h k (List.mem_cons_of_mem n hk)
    rw [List.flatMap_cons, joined_units (h n List.mem_cons_self), ih hrest]
    intro u hu
    rw [List.flatMap_cons] at hu
    exact not_pair_of_mem_head_units (hrest m List.mem_cons_self) hpair hu

/-! ## §3. Reading units from bytes. -/

theorem unit_littleEndian {u : Nat} (h : u < 0x10000) :
    ByteOrder.little.unit (UInt8.ofNat u) (UInt8.ofNat (u / 0x100)) = u := by
  show (UInt8.ofNat u).toNat + 0x100 * (UInt8.ofNat (u / 0x100)).toNat = u
  rw [toNat_byte (n := u / 0x100) (by omega), UInt8.toNat_ofNat']
  omega

theorem lossyFrom_pair {high low : Nat} (hhigh : isHigh high = true) (hlow : isLow low = true)
    (bytes : List UInt8) (done : List Char) :
    lossyFrom .little (littleEndian high ++ (littleEndian low ++ bytes)) done
      = lossyFrom .little bytes (Char.ofNat (paired high low) :: done) := by
  have hhighBound := (isHigh_iff high).mp hhigh
  have hlowBound := (isLow_iff low).mp hlow
  show lossyFrom .little (UInt8.ofNat high :: UInt8.ofNat (high / 0x100)
    :: UInt8.ofNat low :: UInt8.ofNat (low / 0x100) :: bytes) done = _
  rw [lossyFrom.eq_def]
  simp only [unit_littleEndian (show high < 0x10000 by omega),
    unit_littleEndian (show low < 0x10000 by omega), hhigh, hlow, if_true]

/-- A unit that opens no pair with the next one is read alone. -/
theorem lossyFrom_alone {u : Nat} {us : List Nat} (hu : u < 0x10000) (hus : ∀ v ∈ us, v < 0x10000)
    (h : ∀ v ∈ us.head?, ¬ (isHigh u && isLow v) = true) (done : List Char) :
    lossyFrom .little (littleEndian u ++ us.flatMap littleEndian) done
      = lossyFrom .little (us.flatMap littleEndian) (alone u :: done) := by
  show lossyFrom .little (UInt8.ofNat u :: UInt8.ofNat (u / 0x100) :: us.flatMap littleEndian) done = _
  unfold alone
  by_cases hhigh : isHigh u = true
  · cases us with
    | nil => simp [lossyFrom, unit_littleEndian hu, hhigh]
    | cons v us =>
      have hlow : ¬ isLow v = true := by simpa [hhigh] using h v rfl
      have hv : v < 0x10000 := hus v List.mem_cons_self
      rw [lossyFrom.eq_def]
      simp only [List.flatMap_cons, littleEndian, List.cons_append, List.nil_append,
        unit_littleEndian hu, unit_littleEndian hv, hhigh, hlow, Bool.true_or, if_true, if_false,
        Bool.false_eq_true]
  · rw [lossyFrom.eq_def]
    simp only [unit_littleEndian hu, hhigh, Bool.false_or, if_false, Bool.false_eq_true]
    split <;> rfl

theorem lossyFrom_flatMap_littleEndian {us : List Nat} (h : ∀ u ∈ us, u < 0x10000)
    (done : List Char) :
    lossyFrom .little (us.flatMap littleEndian) done = done.reverse ++ joined us := by
  fun_induction joined us generalizing done with
  | case1 => simp [lossyFrom]
  | case2 u =>
    rw [List.flatMap_cons, lossyFrom_alone (h u List.mem_cons_self) (by simp) (by simp)]
    simp [lossyFrom]
  | case3 u v rest hpair ih =>
    rw [Bool.and_eq_true] at hpair
    rw [List.flatMap_cons, List.flatMap_cons, lossyFrom_pair hpair.1 hpair.2,
      ih fun k hk => h k (List.mem_cons_of_mem u (List.mem_cons_of_mem v hk))]
    simp
  | case4 u v rest hpair ih =>
    have hrest : ∀ k ∈ v :: rest, k < 0x10000 := fun k hk => h k (List.mem_cons_of_mem u hk)
    rw [List.flatMap_cons, lossyFrom_alone (h u List.mem_cons_self) hrest _, ih hrest]
    · simp
    · intro k hk
      cases hk
      exact hpair

/-- The way through UTF-16 joins surrogates and changes nothing else; the mark in front is taken off
    once, so that a code point `U+FEFF` at the beginning stays. -/
theorem lossy_encode {points : List Nat} (h : ∀ n ∈ points, n < 0x110000) :
    lossy (encode points) = joined points := by
  have hunits : ∀ u ∈ points.flatMap units, u < 0x10000 := by
    intro u hu
    obtain ⟨n, hn, hu⟩ := List.mem_flatMap.mp hu
    exact lt_of_mem_units (h n hn) hu
  show lossyFrom .little ((points.flatMap units).flatMap littleEndian) [] = _
  rw [lossyFrom_flatMap_littleEndian hunits, joined_flatMap_units h]
  rfl

end JavaClass.Text.Utf16
