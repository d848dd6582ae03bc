/-
  JavaClass.Proofs.Number.Text — the text of a decimal says its value.

  `Decimal.ofText?` reads decimal text: a sign, digits, perhaps a point and more digits, perhaps an
  exponent.  The text that is written for a decimal is read as a decimal of the same value, whether
  it is written positionally or with an exponent (`Decimal.ofText?_display`).  The digits may differ,
  because zeros at the end are left out and zeros around the point are put in.
-/
import JavaClass.Proofs.Number.Rounding
import Mathlib.Data.List.TakeWhile

namespace JavaClass.Number

namespace Decimal

/-! ## §1. Reading decimal text. -/

/-- The exponent behind the digits: nothing, or a mark, a sign and digits. -/
def exponent? : List Char → Option Int
  | [] => some 0
  | 'e' :: sign :: digits =>
    if digits ≠ [] && digits.all Char.isDigit then
      if sign = '+' then some (Nat.ofDigitChars 10 digits 0)
      else if sign = '-' then some (-Nat.ofDigitChars 10 digits 0)
      else none
    else none
  | _ => none

/-- Digits, a point and more digits if there is one, and the exponent. -/
def ofChars? (text : List Char) : Option Decimal :=
  let whole := text.takeWhile Char.isDigit
  if whole = [] then none
  else
    match text.dropWhile Char.isDigit with
    | '.' :: behind =>
      let part := behind.takeWhile Char.isDigit
      if part = [] then none
      else (exponent? (behind.dropWhile Char.isDigit)).map fun e =>
        ⟨Nat.ofDigitChars 10 (whole ++ part) 0, e - part.length⟩
    | rest => (exponent? rest).map fun e => ⟨Nat.ofDigitChars 10 whole 0, e⟩

/-- Whether a decimal text is negative, and its magnitude. -/
def ofText? (text : String) : Option (Bool × Decimal) :=
  match text.toList with
  | '-' :: magnitude => (ofChars? magnitude).map fun d => (true, d)
  | magnitude => (ofChars? magnitude).map fun d => (false, d)

/-- Some digits, and nothing else. -/
structure AreDigits (digits : List Char) : Prop where
  nonempty : digits ≠ []
  all : ∀ c ∈ digits, c.isDigit = true

/-- What follows digits does not go on with one. -/
def Ends (tail : List Char) : Prop := ∀ c rest, tail = c :: rest → c.isDigit = false

variable {whole part tail digits : List Char}

theorem takeWhile_digits (hdigits : AreDigits whole) (htail : Ends tail) :
    (whole ++ tail).takeWhile Char.isDigit = whole := by
  rw [List.takeWhile_append_of_pos hdigits.all]
  cases tail with
  | nil => rw [List.takeWhile_nil, List.append_nil]
  | cons c rest =>
    rw [List.takeWhile_cons_of_neg (by rw [htail c rest rfl]; exact Bool.false_ne_true),
      List.append_nil]

theorem dropWhile_digits (hdigits : AreDigits whole) (htail : Ends tail) :
    (whole ++ tail).dropWhile Char.isDigit = tail := by
  rw [List.dropWhile_append_of_pos hdigits.all]
  cases tail with
  | nil => rfl
  | cons c rest =>
    rw [List.dropWhile_cons_of_neg (by rw [htail c rest rfl]; exact Bool.false_ne_true)]

theorem ofChars?_point (hwhole : AreDigits whole) (hpart : AreDigits part) (htail : Ends tail)
    {e : Int} (he : exponent? tail = some e) :
    ofChars? (whole ++ '.' :: (part ++ tail)) =
      some ⟨Nat.ofDigitChars 10 (whole ++ part) 0, e - part.length⟩ := by
  have hpoint : Ends ('.' :: (part ++ tail)) := by
    rintro c rest ⟨⟩
    rfl
  simp only [ofChars?, takeWhile_digits hwhole hpoint, dropWhile_digits hwhole hpoint,
    takeWhile_digits hpart htail, dropWhile_digits hpart htail, if_neg hwhole.nonempty,
    if_neg hpart.nonempty, he, Option.map_some]

theorem ofChars?_exponent (hwhole : AreDigits whole) {e : Int}
    (he : exponent? ('e' :: tail) = some e) :
    ofChars? (whole ++ 'e' :: tail) = some ⟨Nat.ofDigitChars 10 whole 0, e⟩ := by
  have hmark : Ends ('e' :: tail) := by
    rintro c rest ⟨⟩
    rfl
  simp only [ofChars?, takeWhile_digits hwhole hmark, dropWhile_digits hwhole hmark,
    if_neg hwhole.nonempty]
  show (exponent? ('e' :: tail)).map _ = _
  rw [he]
  rfl

/-- A sign in front of a magnitude is read as the sign. -/
theorem ofText?_signText {text : String} {d : Decimal} (h : ofChars? text.toList = some d)
    (negative : Bool) : ofText? (signText negative ++ text) = some (negative, d) := by
  cases negative with
  | true =>
    have htext : (signText true ++ text).toList = '-' :: text.toList := by
      rw [String.toList_append]
      rfl
    simp only [ofText?, htext, h, Option.map_some]
  | false =>
    have htext : (signText false ++ text).toList = text.toList := by
      rw [String.toList_append]
      rfl
    unfold ofText?
    rw [htext]
    split
    · rename_i magnitude hminus
      -- A magnitude starts with a digit.
      rw [hminus] at h
      cases h
    · rw [h, Option.map_some]

/-! ## §2. Digits. -/

theorem areDigits_toDigits (n : Nat) : AreDigits (Nat.toDigits 10 n) where
  nonempty := List.ne_nil_of_length_pos Nat.length_toDigits_pos
  all := fun _ hc => Nat.isDigit_of_mem_toDigits (by decide) (by decide) hc

theorem areDigits_zero : AreDigits ['0'] where
  nonempty := List.cons_ne_nil _ _
  all := fun c hc => by
    rw [List.mem_singleton.mp hc]
    rfl

theorem isDigit_of_mem_zeros {k : Nat} {c : Char} (h : c ∈ zeros k) : c.isDigit = true := by
  rw [List.eq_of_mem_replicate h]
  rfl

theorem AreDigits.append_zeros (h : AreDigits digits) (k : Nat) : AreDigits (digits ++ zeros k) where
  nonempty := List.append_ne_nil_of_left_ne_nil h.nonempty _
  all := fun c hc => (List.mem_append.mp hc).elim (h.all c) isDigit_of_mem_zeros

theorem AreDigits.zeros_append (h : AreDigits digits) (k : Nat) : AreDigits (zeros k ++ digits) where
  nonempty := List.append_ne_nil_of_right_ne_nil _ h.nonempty
  all := fun c hc => (List.mem_append.mp hc).elim isDigit_of_mem_zeros (h.all c)

theorem AreDigits.take (h : AreDigits digits) {k : Nat} (hk : 0 < k) : AreDigits (digits.take k) where
  nonempty := by
    have := List.length_pos_of_ne_nil h.nonempty
    refine List.ne_nil_of_length_pos ?_
    rw [List.length_take]
    omega
  all := fun c hc => h.all c (List.mem_of_mem_take hc)

theorem AreDigits.drop (h : AreDigits digits) {k : Nat} (hk : k < digits.length) :
    AreDigits (digits.drop k) where
  nonempty := by
    refine List.ne_nil_of_length_pos ?_
    rw [List.length_drop]
    omega
  all := fun c hc => h.all c (List.mem_of_mem_drop hc)

/-- Zeros in front do not count. -/
theorem ofDigitChars_zeros_append (k : Nat) (digits : List Char) :
    Nat.ofDigitChars 10 (zeros k ++ digits) 0 = Nat.ofDigitChars 10 digits 0 := by
  induction k with
  | zero => rfl
  | succ k ih =>
    rw [zeros, List.replicate_succ, List.cons_append, Nat.ofDigitChars_cons]
    exact ih

/-- A zero at the end is a factor of ten. -/
theorem ofDigitChars_append_zeros (digits : List Char) (k : Nat) :
    Nat.ofDigitChars 10 (digits ++ zeros k) 0 = Nat.ofDigitChars 10 digits 0 * 10 ^ k := by
  induction k with
  | zero => rw [zeros, List.replicate_zero, List.append_nil, Nat.pow_zero, Nat.mul_one]
  | succ k ih =>
    have hlast : zeros (k + 1) = zeros k ++ ['0'] := List.replicate_succ'
    rw [hlast, ← List.append_assoc, Nat.ofDigitChars_append, ih, Nat.ofDigitChars_cons, Nat.pow_succ]
    show 10 * (Nat.ofDigitChars 10 digits 0 * 10 ^ k) + 0 = _
    ring

/-- The digits of a number are its significant digits and zeros. -/
theorem toDigits_eq (n : Nat) : ∃ k, Nat.toDigits 10 n = significant n ++ zeros k := by
  have hsplit := List.takeWhile_append_dropWhile (p := (· = '0'))
    (l := (Nat.toDigits 10 n).reverse)
  obtain ⟨k, hk⟩ : ∃ k, (Nat.toDigits 10 n).reverse.takeWhile (· = '0') = zeros k := by
    refine ⟨_, List.eq_replicate_of_mem fun c hc => ?_⟩
    have hzero := List.mem_takeWhile_imp hc
    exact of_decide_eq_true hzero
  refine ⟨k, ?_⟩
  rw [hk] at hsplit
  have hreverse := congrArg List.reverse hsplit
  rw [List.reverse_append, List.reverse_reverse, zeros, List.reverse_replicate] at hreverse
  exact hreverse.symm

theorem areDigits_significant {n : Nat} (hn : n ≠ 0) : AreDigits (significant n) where
  nonempty := by
    intro hnil
    obtain ⟨k, hk⟩ := toDigits_eq n
    have hvalue := Nat.ofDigitChars_toDigits (b := 10) (n := n) (by decide) (by decide)
    rw [hk, hnil, ofDigitChars_append_zeros] at hvalue
    exact hn (by rw [← hvalue]; exact Nat.zero_mul _)
  all := by
    intro c hc
    obtain ⟨k, hk⟩ := toDigits_eq n
    refine (areDigits_toDigits n).all c ?_
    rw [hk]
    exact List.mem_append_left _ hc

/-! ## §3. Writing. -/

theorem fraction_val (d : Decimal) : d.fraction.val = d.digits * (10 : ℚ) ^ d.exponent := by
  rw [fraction, Fraction.scaled_val]
  rfl

/-- A text is read as a decimal of value `v`. -/
def Denotes (text : List Char) (v : ℚ) : Prop := ∃ d, ofChars? text = some d ∧ d.fraction.val = v

theorem ends_nil : Ends [] := by
  rintro c rest ⟨⟩

/-- Digits with a point in or beside them. -/
theorem positional_denotes (h : AreDigits digits) (point : Int) :
    Denotes (positional digits point)
      (Nat.ofDigitChars 10 digits 0 * (10 : ℚ) ^ (point - digits.length)) := by
  unfold positional
  split
  · -- The point stands in front of the digits, with zeros between.
    rename_i hpoint
    have hread := ofChars?_point areDigits_zero (h.zeros_append point.natAbs) ends_nil rfl
    rw [List.append_nil] at hread
    refine ⟨_, hread, ?_⟩
    have hvalue : Nat.ofDigitChars 10 (['0'] ++ (zeros point.natAbs ++ digits)) 0 =
        Nat.ofDigitChars 10 digits 0 := ofDigitChars_zeros_append (point.natAbs + 1) digits
    rw [fraction_val, hvalue]
    congr 2
    rw [List.length_append, zeros, List.length_replicate]
    dsimp only
    omega
  split
  · -- The point stands between two digits.
    rename_i hpoint hinside
    have hread := ofChars?_point (h.take (by omega : 0 < point.natAbs)) (h.drop hinside) ends_nil rfl
    rw [List.append_nil] at hread
    refine ⟨_, hread, ?_⟩
    rw [fraction_val, List.take_append_drop]
    congr 2
    rw [List.length_drop]
    dsimp only
    omega
  · -- The point stands behind the digits, with zeros between and a zero behind it.
    rename_i hpoint hbehind
    have hread := ofChars?_point (h.append_zeros (point.natAbs - digits.length)) areDigits_zero
      ends_nil rfl
    refine ⟨_, hread, ?_⟩
    have hvalue : Nat.ofDigitChars 10 (digits ++ zeros (point.natAbs - digits.length) ++ ['0']) 0 =
        Nat.ofDigitChars 10 digits 0 * 10 ^ (point.natAbs - digits.length + 1) := by
      rw [List.append_assoc]
      have hzeros : zeros (point.natAbs - digits.length) ++ ['0'] =
          zeros (point.natAbs - digits.length + 1) := List.replicate_succ'.symm
      rw [hzeros, ofDigitChars_append_zeros]
    have hexp : point - digits.length = ((point.natAbs - digits.length + 1 : Nat) : Int) + (0 - 1) := by
      omega
    rw [fraction_val, hvalue, hexp, zpow_add₀ (by norm_num), zpow_natCast]
    push_cast
    rw [mul_assoc]
    rfl

/-- Digits behind a mark and a sign are an exponent. -/
theorem exponent?_signed (h : AreDigits digits) (negative : Bool) :
    exponent? ('e' :: (if negative then '-' else '+') :: digits) =
      some (if negative then -(Nat.ofDigitChars 10 digits 0 : Int)
        else Nat.ofDigitChars 10 digits 0) := by
  have hguard : (digits ≠ [] && digits.all Char.isDigit) = true := by
    rw [Bool.and_eq_true]
    exact ⟨decide_eq_true h.nonempty, List.all_eq_true.mpr h.all⟩
  cases negative with
  | true =>
    show (if (digits ≠ [] && digits.all Char.isDigit) = true then _ else _) = _
    rw [if_pos hguard]
    rfl
  | false =>
    show (if (digits ≠ [] && digits.all Char.isDigit) = true then _ else _) = _
    rw [if_pos hguard]
    rfl

theorem exponent?_exponentText (e : Int) : exponent? ('e' :: exponentText e) = some e := by
  have hread := exponent?_signed ((areDigits_toDigits e.natAbs).zeros_append
    (2 - (Nat.toDigits 10 e.natAbs).length)) (decide (e < 0))
  rw [ofDigitChars_zeros_append, Nat.ofDigitChars_toDigits (by decide) (by decide)] at hread
  by_cases he : e < 0
  · simp only [he, decide_true, if_true] at hread
    simp only [exponentText, if_pos he]
    refine hread.trans ?_
    congr 1
    omega
  · simp only [he, decide_false, Bool.false_eq_true, if_false] at hread
    simp only [exponentText, if_neg he]
    refine hread.trans ?_
    congr 1
    omega

/-- One digit before the point, and an exponent. -/
theorem scientific_denotes (h : AreDigits digits) (e : Int) :
    Denotes (scientific digits e)
      (Nat.ofDigitChars 10 digits 0 * (10 : ℚ) ^ (e + 1 - digits.length)) := by
  have hlength := List.length_pos_of_ne_nil h.nonempty
  have hfirst := h.take Nat.one_pos
  have hexponent := exponent?_exponentText e
  unfold scientific
  dsimp only
  by_cases hrest : digits.length = 1
  · -- There is no other digit.
    have htake : digits.take 1 = digits := List.take_of_length_le hrest.le
    have hdrop : digits.drop 1 = [] := List.drop_eq_nil_of_le hrest.le
    rw [hdrop, htake, List.isEmpty_nil, if_pos rfl, List.append_nil]
    refine ⟨_, ofChars?_exponent h hexponent, ?_⟩
    rw [fraction_val]
    congr 2
    dsimp only
    omega
  · have hothers := h.drop (by omega : 1 < digits.length)
    have hnonempty : (digits.drop 1).isEmpty = false :=
      List.isEmpty_eq_false_iff.mpr hothers.nonempty
    have hmark : Ends ('e' :: exponentText e) := by
      rintro c rest ⟨⟩
      rfl
    rw [hnonempty, if_neg Bool.false_ne_true, List.append_assoc, List.cons_append]
    refine ⟨_, ofChars?_point hfirst hothers hmark hexponent, ?_⟩
    rw [fraction_val, List.take_append_drop]
    congr 2
    rw [List.length_drop]
    dsimp only
    omega

/-- The text of a decimal is read as a decimal of the same value. -/
theorem display_denotes (d : Decimal) : Denotes d.display.toList d.fraction.val := by
  unfold display
  split
  · rename_i hzero
    refine ⟨⟨0, -1⟩, rfl, ?_⟩
    rw [fraction_val, fraction_val, hzero, Nat.cast_zero, zero_mul, zero_mul]
  · rename_i hn
    have hdigits := areDigits_significant hn
    obtain ⟨k, hk⟩ := toDigits_eq d.digits
    -- The zeros that are left out go to the exponent.
    have hvalue : d.digits = Nat.ofDigitChars 10 (significant d.digits) 0 * 10 ^ k := by
      rw [← ofDigitChars_append_zeros, ← hk, Nat.ofDigitChars_toDigits (by decide) (by decide)]
    have hlength : (Nat.toDigits 10 d.digits).length = (significant d.digits).length + k := by
      rw [hk, List.length_append, zeros, List.length_replicate]
    have hval : d.fraction.val = Nat.ofDigitChars 10 (significant d.digits) 0 *
        (10 : ℚ) ^ ((Nat.toDigits 10 d.digits).length + d.exponent -
          (significant d.digits).length) := by
      have hexp : ((Nat.toDigits 10 d.digits).length : Int) + d.exponent -
          (significant d.digits).length = k + d.exponent := by omega
      rw [fraction_val, hexp, zpow_add₀ (by norm_num), zpow_natCast, ← mul_assoc]
      congr 1
      exact_mod_cast hvalue
    rw [String.toList_ofList, hval]
    split
    · exact positional_denotes hdigits _
    · have hscientific := scientific_denotes hdigits
        ((Nat.toDigits 10 d.digits).length + d.exponent - 1)
      rw [sub_add_cancel] at hscientific
      exact hscientific

/-- The text of a decimal with a sign is read as the sign and a decimal of the same value. -/
theorem ofText?_display (negative : Bool) (d : Decimal) :
    ∃ d', ofText? (signText negative ++ d.display) = some (negative, d') ∧
      d'.fraction.val = d.fraction.val := by
  obtain ⟨d', hread, hval⟩ := d.display_denotes
  exact ⟨d', ofText?_signText hread negative, hval⟩

end Decimal

end JavaClass.Number
