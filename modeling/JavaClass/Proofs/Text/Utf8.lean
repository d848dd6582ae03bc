/-
  JavaClass.Proofs.Text.Utf8 — UTF-8 is decoded exactly.

  `spell` writes a code point in as few bytes as hold it.  `codePoints?` accepts a byte string exactly if
  it is a sequence of code points so written, and gives them back:

      codePoints? lenient bytes = some points  ↔
        bytes = points.flatMap spell, and every point is admitted

  A code point is admitted below `U+110000`, a surrogate only if the decoder is lenient.
-/
import JavaClass.Text.Utf8

namespace JavaClass.Text

/-! ## §1. The bytes of a code point. -/

/-- The byte that carries the last six bits of `n` behind a first byte. -/
def continuation (n : Nat) : UInt8 := UInt8.ofNat (0x80 + n % 0x40)

/-- A code point in two bytes. -/
def twoBytes (n : Nat) : List UInt8 := [UInt8.ofNat (0xC0 + n / 0x40), continuation n]

/-- A code point in three bytes. -/
def threeBytes (n : Nat) : List UInt8 :=
  [UInt8.ofNat (0xE0 + n / 0x1000), continuation (n / 0x40), continuation n]

/-- A code point in four bytes. -/
def fourBytes (n : Nat) : List UInt8 :=
  [UInt8.ofNat (0xF0 + n / 0x40000), continuation (n / 0x1000), continuation (n / 0x40),
    continuation n]

/-- A code point in as few bytes as hold it; a surrogate takes three, as its neighbours do. -/
def spell (n : Nat) : List UInt8 :=
  if n < 0x80 then [UInt8.ofNat n]
  else if n < 0x800 then twoBytes n
  else if n < 0x10000 then threeBytes n
  else fourBytes n

theorem spell_one {n : Nat} (h : n < 0x80) : spell n = [UInt8.ofNat n] := by
  rw [spell, if_pos h]

theorem spell_two {n : Nat} (h : 0x80 ≤ n) (h' : n < 0x800) : spell n = twoBytes n := by
  rw [spell, if_neg (by omega), if_pos h']

theorem spell_three {n : Nat} (h : 0x800 ≤ n) (h' : n < 0x10000) : spell n = threeBytes n := by
  rw [spell, if_neg (by omega), if_neg (by omega), if_pos h']

theorem spell_four {n : Nat} (h : 0x10000 ≤ n) : spell n = fourBytes n := by
  rw [spell, if_neg (by omega), if_neg (by omega), if_neg (by omega)]

/-- Surrogates are the code points of UTF-16 pairs. -/
def IsSurrogate (n : Nat) : Prop := 0xD800 ≤ n ∧ n < 0xE000

/-- The code points a decoder lets through. -/
def Admits (lenient : Bool) (n : Nat) : Prop :=
  n < 0x110000 ∧ (lenient = true ∨ ¬ IsSurrogate n)

theorem Admits.not_surrogate {n : Nat} (h : Admits false n) : ¬ IsSurrogate n :=
  h.2.resolve_left Bool.false_ne_true

/-! ## §2. The byte patterns as ranges. -/

theorem ascii_iff (a : UInt8) : a < 0x80 ↔ a.toNat < 0x80 := by
  simp [UInt8.lt_iff_toNat_lt]

theorem isContinuation_iff (b : UInt8) :
    isContinuation b = true ↔ 0x80 ≤ b.toNat ∧ b.toNat ≤ 0xBF := by
  simp [isContinuation, UInt8.le_iff_toNat_le]

theorem isLeadOfTwo_iff (a : UInt8) : isLeadOfTwo a = true ↔ 0xC2 ≤ a.toNat ∧ a.toNat ≤ 0xDF := by
  simp [isLeadOfTwo, UInt8.le_iff_toNat_le]

theorem isLeadOfThree_iff (a : UInt8) :
    isLeadOfThree a = true ↔ 0xE0 ≤ a.toNat ∧ a.toNat ≤ 0xEF := by
  simp [isLeadOfThree, UInt8.le_iff_toNat_le]

theorem isLeadOfFour_iff (a : UInt8) :
    isLeadOfFour a = true ↔ 0xF0 ≤ a.toNat ∧ a.toNat ≤ 0xF4 := by
  simp [isLeadOfFour, UInt8.le_iff_toNat_le]

theorem isSecondOfThree_iff (a b : UInt8) :
    isSecondOfThree a b = true ↔
      isContinuation b = true ∧ (a.toNat ≠ 0xE0 ∨ 0xA0 ≤ b.toNat) := by
  simp [isSecondOfThree, UInt8.le_iff_toNat_le, ← UInt8.toNat_inj]

theorem isSecondOfFour_iff (a b : UInt8) :
    isSecondOfFour a b = true ↔
      isContinuation b = true ∧ (a.toNat ≠ 0xF0 ∨ 0x90 ≤ b.toNat)
        ∧ (a.toNat ≠ 0xF4 ∨ b.toNat ≤ 0x8F) := by
  simp [isSecondOfFour, UInt8.le_iff_toNat_le, ← UInt8.toNat_inj, and_assoc]

theorem isSurrogateStart_iff (a b : UInt8) :
    isSurrogateStart a b = true ↔ a.toNat = 0xED ∧ 0xA0 ≤ b.toNat := by
  simp [isSurrogateStart, UInt8.le_iff_toNat_le, ← UInt8.toNat_inj]

theorem toNat_byte {n : Nat} (h : n < 0x100) : (UInt8.ofNat n).toNat = n :=
  UInt8.toNat_ofNat_of_lt' h

@[simp] theorem toNat_continuation (n : Nat) : (continuation n).toNat = 0x80 + n % 0x40 :=
  toNat_byte (by omega)

@[simp] theorem isContinuation_continuation (n : Nat) :
    isContinuation (continuation n) = true := by
  rw [isContinuation_iff, toNat_continuation]
  omega

/-- A byte from `80` to `BF` carries the last six bits of every code point that ends with them. -/
theorem continuation_eq {b : UInt8} (hb : isContinuation b = true) (k : Nat) :
    continuation (k * 0x40 + (b.toNat - 0x80)) = b := by
  rw [isContinuation_iff] at hb
  apply UInt8.toNat_inj.mp
  rw [toNat_continuation]
  omega

theorem byte_eq {a : UInt8} {n : Nat} (h : n = a.toNat) : UInt8.ofNat n = a := by
  rw [h, UInt8.ofNat_toNat]

/-! ## §3. Bytes that match a pattern are the bytes of their code point. -/

variable {lenient : Bool}

section One

variable {a : UInt8} (ha : a < 0x80)
include ha

theorem spell_toNat : spell a.toNat = [a] := by
  rw [spell_one ((ascii_iff a).mp ha), UInt8.ofNat_toNat]

theorem codePointsFrom_one (rest : List UInt8) (done : List Nat) :
    codePointsFrom lenient (a :: rest) done = codePointsFrom lenient rest (a.toNat :: done) := by
  rw [codePointsFrom.eq_def]
  simp only [if_pos ha]

end One

section Two

variable {a b : UInt8} (ha : isLeadOfTwo a = true) (hb : isContinuation b = true)
include ha hb

theorem codeOfTwo_range : 0x80 ≤ codeOfTwo a b ∧ codeOfTwo a b < 0x800 := by
  rw [isLeadOfTwo_iff] at ha
  rw [isContinuation_iff] at hb
  unfold codeOfTwo
  omega

theorem spell_codeOfTwo : spell (codeOfTwo a b) = [a, b] := by
  have hrange := codeOfTwo_range ha hb
  have hlast : continuation (codeOfTwo a b) = b := continuation_eq hb _
  have hfirst : UInt8.ofNat (0xC0 + codeOfTwo a b / 0x40) = a := by
    rw [isLeadOfTwo_iff] at ha
    rw [isContinuation_iff] at hb
    apply byte_eq
    unfold codeOfTwo
    omega
  rw [spell_two hrange.1 hrange.2, twoBytes, hfirst, hlast]

theorem codePointsFrom_two (rest : List UInt8) (done : List Nat) :
    codePointsFrom lenient (a :: b :: rest) done
      = codePointsFrom lenient rest (codeOfTwo a b :: done) := by
  have hlead := (isLeadOfTwo_iff a).mp ha
  have hascii : ¬ a < 0x80 := by
    rw [ascii_iff]
    omega
  rw [codePointsFrom.eq_def]
  simp only [if_neg hascii, ha, hb, Bool.and_self, if_true]

end Two

section Three

variable {a b c : UInt8} (ha : isLeadOfThree a = true) (hb : isSecondOfThree a b = true)
  (hc : isContinuation c = true)
include ha hb hc

theorem codeOfThree_range : 0x800 ≤ codeOfThree a b c ∧ codeOfThree a b c < 0x10000 := by
  rw [isLeadOfThree_iff] at ha
  rw [isSecondOfThree_iff, isContinuation_iff] at hb
  rw [isContinuation_iff] at hc
  unfold codeOfThree
  omega

theorem isSurrogate_codeOfThree :
    IsSurrogate (codeOfThree a b c) ↔ isSurrogateStart a b = true := by
  rw [isLeadOfThree_iff] at ha
  rw [isSecondOfThree_iff, isContinuation_iff] at hb
  rw [isContinuation_iff] at hc
  rw [isSurrogateStart_iff]
  unfold IsSurrogate codeOfThree
  omega

theorem spell_codeOfThree : spell (codeOfThree a b c) = [a, b, c] := by
  have hrange := codeOfThree_range ha hb hc
  have hshape : codeOfThree a b c
      = ((a.toNat - 0xE0) * 0x40 + (b.toNat - 0x80)) * 0x40 + (c.toNat - 0x80) := by
    unfold codeOfThree
    omega
  rw [isSecondOfThree_iff] at hb
  have hbits := (isContinuation_iff b).mp hb.1
  have hbits' := (isContinuation_iff c).mp hc
  rw [isLeadOfThree_iff] at ha
  have hlast : continuation (codeOfThree a b c) = c := hshape ▸ continuation_eq hc _
  have hmiddle : continuation (codeOfThree a b c / 0x40) = b := by
    have hdiv : codeOfThree a b c / 0x40 = (a.toNat - 0xE0) * 0x40 + (b.toNat - 0x80) := by omega
    rw [hdiv, continuation_eq hb.1]
  have hfirst : UInt8.ofNat (0xE0 + codeOfThree a b c / 0x1000) = a := byte_eq (by omega)
  rw [spell_three hrange.1 hrange.2, threeBytes, hfirst, hmiddle, hlast]

theorem codePointsFrom_three (hadmits : Admits lenient (codeOfThree a b c)) (rest : List UInt8)
    (done : List Nat) :
    codePointsFrom lenient (a :: b :: c :: rest) done
      = codePointsFrom lenient rest (codeOfThree a b c :: done) := by
  have hlead := (isLeadOfThree_iff a).mp ha
  have hascii : ¬ a < 0x80 := by
    rw [ascii_iff]
    omega
  have htwo : ¬ isLeadOfTwo a = true := by
    rw [isLeadOfTwo_iff]
    omega
  have hpass : (lenient || !isSurrogateStart a b) = true := by
    rw [Bool.or_eq_true, Bool.not_eq_true', Bool.eq_false_iff, Ne, ← isSurrogate_codeOfThree ha hb hc]
    exact hadmits.2
  rw [codePointsFrom.eq_def]
  simp only [if_neg hascii, htwo, Bool.false_and, Bool.false_eq_true, if_false, ha, hb, hc, hpass,
    Bool.and_self, if_true]

end Three

section Four

variable {a b c d : UInt8} (ha : isLeadOfFour a = true) (hb : isSecondOfFour a b = true)
  (hc : isContinuation c = true) (hd : isContinuation d = true)
include ha hb hc hd

theorem codeOfFour_range : 0x10000 ≤ codeOfFour a b c d ∧ codeOfFour a b c d < 0x110000 := by
  rw [isLeadOfFour_iff] at ha
  rw [isSecondOfFour_iff, isContinuation_iff] at hb
  rw [isContinuation_iff] at hc hd
  unfold codeOfFour
  omega

theorem spell_codeOfFour : spell (codeOfFour a b c d) = [a, b, c, d] := by
  have hrange := codeOfFour_range ha hb hc hd
  have hshape : codeOfFour a b c d
      = (((a.toNat - 0xF0) * 0x40 + (b.toNat - 0x80)) * 0x40 + (c.toNat - 0x80)) * 0x40
        + (d.toNat - 0x80) := by
    unfold codeOfFour
    omega
  rw [isSecondOfFour_iff] at hb
  have hbits := (isContinuation_iff b).mp hb.1
  have hbits' := (isContinuation_iff c).mp hc
  have hbits'' := (isContinuation_iff d).mp hd
  rw [isLeadOfFour_iff] at ha
  have hlast : continuation (codeOfFour a b c d) = d := hshape ▸ continuation_eq hd _
  have hthird : continuation (codeOfFour a b c d / 0x40) = c := by
    have hdiv : codeOfFour a b c d / 0x40
        = ((a.toNat - 0xF0) * 0x40 + (b.toNat - 0x80)) * 0x40 + (c.toNat - 0x80) := by omega
    rw [hdiv, continuation_eq hc]
  have hsecond : continuation (codeOfFour a b c d / 0x1000) = b := by
    have hdiv : codeOfFour a b c d / 0x1000 = (a.toNat - 0xF0) * 0x40 + (b.toNat - 0x80) := by omega
    rw [hdiv, continuation_eq hb.1]
  have hfirst : UInt8.ofNat (0xF0 + codeOfFour a b c d / 0x40000) = a := byte_eq (by omega)
  rw [spell_four hrange.1, fourBytes, hfirst, hsecond, hthird, hlast]

theorem codePointsFrom_four (rest : List UInt8) (done : List Nat) :
    codePointsFrom lenient (a :: b :: c :: d :: rest) done
      = codePointsFrom lenient rest (codeOfFour a b c d :: done) := by
  have hlead := (isLeadOfFour_iff a).mp ha
  have hascii : ¬ a < 0x80 := by
    rw [ascii_iff]
    omega
  have htwo : ¬ isLeadOfTwo a = true := by
    rw [isLeadOfTwo_iff]
    omega
  have hthree : ¬ isLeadOfThree a = true := by
    rw [isLeadOfThree_iff]
    omega
  rw [codePointsFrom.eq_def]
  simp only [if_neg hascii, htwo, hthree, Bool.false_and, Bool.false_eq_true, if_false, ha, hb, hc, hd,
    Bool.and_self, if_true]

end Four

/-! ## §4. The bytes of a code point match a pattern. -/

/-- The bytes match one of the four patterns, and `n` is their code point. -/
inductive Matches (n : Nat) : List UInt8 → Prop where
  | one {a : UInt8} (ha : a < 0x80) (hn : a.toNat = n) : Matches n [a]
  | two {a b : UInt8} (ha : isLeadOfTwo a = true) (hb : isContinuation b = true)
      (hn : codeOfTwo a b = n) : Matches n [a, b]
  | three {a b c : UInt8} (ha : isLeadOfThree a = true) (hb : isSecondOfThree a b = true)
      (hc : isContinuation c = true) (hn : codeOfThree a b c = n) : Matches n [a, b, c]
  | four {a b c d : UInt8} (ha : isLeadOfFour a = true) (hb : isSecondOfFour a b = true)
      (hc : isContinuation c = true) (hd : isContinuation d = true) (hn : codeOfFour a b c d = n) :
      Matches n [a, b, c, d]

theorem matches_twoBytes {n : Nat} (h : 0x80 ≤ n) (h' : n < 0x800) : Matches n (twoBytes n) := by
  have hlead : (UInt8.ofNat (0xC0 + n / 0x40)).toNat = 0xC0 + n / 0x40 := toNat_byte (by omega)
  refine .two ?_ (isContinuation_continuation n) ?_
  · rw [isLeadOfTwo_iff, hlead]
    omega
  · unfold codeOfTwo
    rw [hlead, toNat_continuation]
    omega

theorem matches_threeBytes {n : Nat} (h : 0x800 ≤ n) (h' : n < 0x10000) :
    Matches n (threeBytes n) := by
  have hlead : (UInt8.ofNat (0xE0 + n / 0x1000)).toNat = 0xE0 + n / 0x1000 := toNat_byte (by omega)
  refine .three ?_ ?_ (isContinuation_continuation n) ?_
  · rw [isLeadOfThree_iff, hlead]
    omega
  · rw [isSecondOfThree_iff, hlead, toNat_continuation]
    exact ⟨isContinuation_continuation _, by omega⟩
  · unfold codeOfThree
    rw [hlead, toNat_continuation, toNat_continuation]
    omega

theorem matches_fourBytes {n : Nat} (h : 0x10000 ≤ n) (h' : n < 0x110000) :
    Matches n (fourBytes n) := by
  have hlead : (UInt8.ofNat (0xF0 + n / 0x40000)).toNat = 0xF0 + n / 0x40000 :=
    toNat_byte (by omega)
  refine .four ?_ ?_ (isContinuation_continuation _) (isContinuation_continuation n) ?_
  · rw [isLeadOfFour_iff, hlead]
    omega
  · rw [isSecondOfFour_iff, hlead, toNat_continuation]
    exact ⟨isContinuation_continuation _, by omega, by omega⟩
  · unfold codeOfFour
    rw [hlead, toNat_continuation, toNat_continuation, toNat_continuation]
    omega

theorem matches_spell {n : Nat} (h : n < 0x110000) : Matches n (spell n) := by
  by_cases h₁ : n < 0x80
  · have htoNat : (UInt8.ofNat n).toNat = n := toNat_byte (by omega)
    rw [spell_one h₁]
    refine .one ?_ htoNat
    rw [ascii_iff, htoNat]
    exact h₁
  by_cases h₂ : n < 0x800
  · rw [spell_two (by omega) h₂]
    exact matches_twoBytes (by omega) h₂
  by_cases h₃ : n < 0x10000
  · rw [spell_three (by omega) h₃]
    exact matches_threeBytes (by omega) h₃
  · rw [spell_four (by omega)]
    exact matches_fourBytes (by omega) h

/-- One step: bytes that match a pattern give their code point, if it is let through. -/
theorem Matches.codePointsFrom {n : Nat} {front : List UInt8} (hmatch : Matches n front)
    (h : Admits lenient n) (rest : List UInt8) (done : List Nat) :
    codePointsFrom lenient (front ++ rest) done = codePointsFrom lenient rest (n :: done) := by
  cases hmatch with
  | one ha hn =>
    rw [← hn]
    exact codePointsFrom_one ha rest done
  | two ha hb hn =>
    rw [← hn]
    exact codePointsFrom_two ha hb rest done
  | three ha hb hc hn =>
    rw [← hn] at h ⊢
    exact codePointsFrom_three ha hb hc h rest done
  | four ha hb hc hd hn =>
    rw [← hn]
    exact codePointsFrom_four ha hb hc hd rest done

/-! ## §5. Decoding is exact. -/

/-- The bytes are those of code points that are let through. -/
def Spells (lenient : Bool) (bytes : List UInt8) (points : List Nat) : Prop :=
  (∀ n ∈ points, Admits lenient n) ∧ bytes = points.flatMap spell

theorem Spells.nil : Spells lenient [] [] :=
  ⟨by simp, rfl⟩

theorem Spells.cons {rest : List UInt8} {n : Nat} {points : List Nat}
    (hn : Admits lenient n) (h : Spells lenient rest points) :
    Spells lenient (spell n ++ rest) (n :: points) := by
  refine ⟨?_, ?_⟩
  · intro m hm
    cases List.mem_cons.mp hm with
    | inl heq => exact heq ▸ hn
    | inr hm => exact h.1 m hm
  · rw [List.flatMap_cons, ← h.2]

/-- A run over the bytes of code points that are let through gives them all. -/
theorem codePointsFrom_of_spells (points : List Nat)
    (h : ∀ n ∈ points, Admits lenient n) (done : List Nat) :
    codePointsFrom lenient (points.flatMap spell) done = some (done.reverse ++ points) := by
  induction points generalizing done with
  | nil => simp [codePointsFrom]
  | cons n points ih =>
    have hn : Admits lenient n := h n List.mem_cons_self
    rw [List.flatMap_cons, (matches_spell hn.1).codePointsFrom hn,
      ih fun m hm => h m (List.mem_cons_of_mem n hm)]
    simp

/-- What a run over `bytes` behind the code points in `done` must give. -/
def Continues (lenient : Bool) (bytes : List UInt8) (done points : List Nat) : Prop :=
  ∃ more, points = done.reverse ++ more ∧ Spells lenient bytes more

theorem Continues.front {front rest : List UInt8} {n : Nat} {done points : List Nat}
    (hfront : spell n = front) (hn : Admits lenient n)
    (h : Continues lenient rest (n :: done) points) :
    Continues lenient (front ++ rest) done points := by
  obtain ⟨more, hpoints, hspells⟩ := h
  refine ⟨n :: more, ?_, hfront ▸ hspells.cons hn⟩
  rw [hpoints, List.reverse_cons, List.append_assoc, List.singleton_append]

/-- Whatever a run accepts is made of the bytes of the code points it gives. -/
theorem continues_of_codePointsFrom {bytes : List UInt8} {done points : List Nat}
    (h : codePointsFrom lenient bytes done = some points) :
    Continues lenient bytes done points := by
  -- only the four branches that go on accept anything; each takes the bytes of one code point
  fun_induction codePointsFrom lenient bytes done with
  | case1 done =>
    injection h with h
    exact ⟨[], by rw [List.append_nil, h], .nil⟩
  | case2 a rest done hascii ih =>
    have hlt := (ascii_iff a).mp hascii
    have hadmits : Admits lenient a.toNat := ⟨by omega, .inr (by unfold IsSurrogate; omega)⟩
    exact (ih h).front (spell_toNat hascii) hadmits
  | case4 a done _ b rest htwo ih =>
    rw [Bool.and_eq_true] at htwo
    have hrange := codeOfTwo_range htwo.1 htwo.2
    have hadmits : Admits lenient (codeOfTwo a b) :=
      ⟨by omega, .inr (by unfold IsSurrogate; omega)⟩
    exact (ih h).front (spell_codeOfTwo htwo.1 htwo.2) hadmits
  | case6 a done _ b _ c rest hthree ih =>
    simp only [Bool.and_eq_true, Bool.or_eq_true, Bool.not_eq_true'] at hthree
    obtain ⟨⟨⟨ha, hb⟩, hc⟩, hpass⟩ := hthree
    have hrange := codeOfThree_range ha hb hc
    have hadmits : Admits lenient (codeOfThree a b c) := by
      refine ⟨by omega, hpass.imp_right fun hnot => ?_⟩
      rw [isSurrogate_codeOfThree ha hb hc, hnot]
      exact Bool.false_ne_true
    exact (ih h).front (spell_codeOfThree ha hb hc) hadmits
  | case8 a done _ b _ c _ d rest hfour ih =>
    simp only [Bool.and_eq_true] at hfour
    obtain ⟨⟨⟨ha, hb⟩, hc⟩, hd⟩ := hfour
    have hrange := codeOfFour_range ha hb hc hd
    have hadmits : Admits lenient (codeOfFour a b c d) :=
      ⟨by omega, .inr (by unfold IsSurrogate; omega)⟩
    exact (ih h).front (spell_codeOfFour ha hb hc hd) hadmits
  | case3 | case5 | case7 | case9 => cases h

/-- Decoding accepts exactly the bytes of code points that are let through, and gives those. -/
theorem codePoints?_eq_some_iff {bytes : List UInt8} {points : List Nat} :
    codePoints? lenient bytes = some points ↔ Spells lenient bytes points := by
  constructor
  · intro h
    obtain ⟨more, hmore, hspells⟩ := continues_of_codePointsFrom h
    rw [hmore]
    exact hspells
  · intro h
    rw [codePoints?, h.2]
    exact codePointsFrom_of_spells points h.1 []

/-! ## §6. Bytes that the bytes of a code point do not hold. -/

/-- A byte of a code point is the code point itself or one of the bytes `80` to `BF` and `C2` to `F4`. -/
theorem Matches.byte_range {n : Nat} {bytes : List UInt8} (h : Matches n bytes) {byte : UInt8}
    (hmem : byte ∈ bytes) :
    n < 0x80 ∧ byte.toNat = n ∨ 0x80 ≤ byte.toNat ∧ byte.toNat ≠ 0xC0 := by
  cases h with
  | one ha hn =>
    rw [ascii_iff] at ha
    rw [List.mem_singleton.mp hmem]
    omega
  | two ha hb hn =>
    rw [isLeadOfTwo_iff] at ha
    rw [isContinuation_iff] at hb
    simp only [List.mem_cons, List.not_mem_nil, or_false] at hmem
    rcases hmem with rfl | rfl <;> omega
  | three ha hb hc hn =>
    rw [isLeadOfThree_iff] at ha
    rw [isSecondOfThree_iff, isContinuation_iff] at hb
    rw [isContinuation_iff] at hc
    simp only [List.mem_cons, List.not_mem_nil, or_false] at hmem
    rcases hmem with rfl | rfl | rfl <;> omega
  | four ha hb hc hd hn =>
    rw [isLeadOfFour_iff] at ha
    rw [isSecondOfFour_iff, isContinuation_iff] at hb
    rw [isContinuation_iff] at hc hd
    simp only [List.mem_cons, List.not_mem_nil, or_false] at hmem
    rcases hmem with rfl | rfl | rfl | rfl <;> omega

/-- `00` is the null character, and no byte of another code point. -/
theorem ne_zero_of_mem_spell {n : Nat} {b : UInt8} (hne : n ≠ 0) (hbound : n < 0x110000)
    (h : b ∈ spell n) : b ≠ 0 := by
  rintro rfl
  have hrange := (matches_spell hbound).byte_range h
  rw [show (0 : UInt8).toNat = 0 from rfl] at hrange
  omega

/-- `C0` begins no code point and continues none. -/
theorem ne_C0_of_mem_spell {n : Nat} {b : UInt8} (hbound : n < 0x110000) (h : b ∈ spell n) :
    b ≠ 0xC0 := by
  rintro rfl
  have hrange := (matches_spell hbound).byte_range h
  rw [show (0xC0 : UInt8).toNat = 0xC0 from rfl] at hrange
  omega

end JavaClass.Text
