/-
  JavaClass.Proofs.Text.ModifiedUtf8 — the text encoding of class files is decoded exactly.

  Modified UTF-8 is a sequence of symbols: a code point below `U+110000` in as few bytes as hold it,
  surrogates included, or a null as `C0 80`.  The bytes of a text are symbols in one way only, and
  decoding joins the code points of the symbols; where the bytes are not symbols, decoding fails.  The
  direct way to decode gives what the detour gives, wherever it applies.

  The encoding in use writes a null as `C0 80` and a character beyond `U+FFFF` as two surrogates.
  Decoding gives back every text so written.
-/
import JavaClass.Proofs.Text.Utf16
import JavaClass.Text.ModifiedUtf8

namespace JavaClass.Text.ModifiedUtf8

open JavaClass.Text.Utf16 (joined)

/-! ## §1. Symbols. -/

/-- What modified UTF-8 is a sequence of. -/
inductive Symbol where
  /-- A code point as in UTF-8, surrogates included. -/
  | point (n : Fin 0x110000)
  /-- The null character in two bytes. -/
  | null
deriving DecidableEq, Repr

namespace Symbol

/-- The bytes of a symbol. -/
def bytes : Symbol → List UInt8
  | point n => spell n
  | null => [0xC0, 0x80]

/-- The code point of a symbol. -/
def code : Symbol → Nat
  | point n => n
  | null => 0

theorem code_lt (symbol : Symbol) : symbol.code < 0x110000 := by
  cases symbol with
  | point n => exact n.isLt
  | null => decide

end Symbol

/-- The bytes of symbols, one after the other. -/
def written (symbols : List Symbol) : List UInt8 := symbols.flatMap Symbol.bytes

/-- The code points of symbols. -/
def codes (symbols : List Symbol) : List Nat := symbols.map Symbol.code

theorem codes_lt (symbols : List Symbol) : ∀ n ∈ codes symbols, n < 0x110000 := by
  intro n hn
  obtain ⟨symbol, -, rfl⟩ := List.mem_map.mp hn
  exact symbol.code_lt

/-- Code points, each as a symbol of its own. -/
theorem exists_symbols {points : List Nat} (h : ∀ n ∈ points, n < 0x110000) :
    ∃ symbols, written symbols = points.flatMap spell ∧ codes symbols = points := by
  induction points with
  | nil => exact ⟨[], rfl, rfl⟩
  | cons n points ih =>
    obtain ⟨symbols, hbytes, hcodes⟩ := ih fun m hm => h m (List.mem_cons_of_mem n hm)
    refine ⟨.point ⟨n, h n List.mem_cons_self⟩ :: symbols, ?_, ?_⟩
    · show spell n ++ written symbols = _
      rw [hbytes, List.flatMap_cons]
    · show n :: codes symbols = _
      rw [hcodes]

/-! ## §2. Nulls in their plain form. -/

theorem plainNullsFrom_append (bytes done before : List UInt8) :
    plainNullsFrom bytes (done ++ before) = before.reverse ++ plainNullsFrom bytes done := by
  fun_induction plainNullsFrom bytes done with
  | case1 a b rest done hnull ih =>
    rw [plainNullsFrom, if_pos hnull]
    exact ih
  | case2 a b rest done hnull ih =>
    rw [plainNullsFrom, if_neg hnull]
    exact ih
  | case3 a done => simp [plainNullsFrom]
  | case4 done => simp [plainNullsFrom]

theorem plainNulls_null (rest : List UInt8) :
    plainNulls (0xC0 :: 0x80 :: rest) = 0 :: plainNulls rest :=
  plainNullsFrom_append rest [] [0]

theorem plainNulls_cons {a : UInt8} {rest : List UInt8}
    (h : ∀ b ∈ rest.head?, ¬ (a == 0xC0 && b == 0x80) = true) :
    plainNulls (a :: rest) = a :: plainNulls rest := by
  cases rest with
  | nil => rfl
  | cons b rest =>
    show plainNullsFrom (a :: b :: rest) [] = _
    rw [plainNullsFrom, if_neg (h b rfl)]
    exact plainNullsFrom_append (b :: rest) [] [a]

/-- Bytes without `C0` stay as they are. -/
theorem plainNulls_append {front : List UInt8} (h : ∀ b ∈ front, b ≠ 0xC0) (rest : List UInt8) :
    plainNulls (front ++ rest) = front ++ plainNulls rest := by
  induction front with
  | nil => rfl
  | cons a front ih =>
    have ha : ¬ (a == 0xC0) = true := by simpa using h a List.mem_cons_self
    rw [List.cons_append, plainNulls_cons, ih fun b hb => h b (List.mem_cons_of_mem a hb),
      List.cons_append]
    intro b _ hnull
    exact ha (Bool.and_eq_true_iff.mp hnull).1

/-- No symbol but the null has a byte `C0`, so nulls are found where they are and nowhere else. -/
theorem plainNulls_written (symbols : List Symbol) :
    plainNulls (written symbols) = (codes symbols).flatMap spell := by
  induction symbols with
  | nil => rfl
  | cons symbol symbols ih =>
    show plainNulls (symbol.bytes ++ written symbols)
      = spell symbol.code ++ (codes symbols).flatMap spell
    rw [← ih]
    cases symbol with
    | point n => exact plainNulls_append (fun b hb => ne_C0_of_mem_spell n.isLt hb) _
    | null => exact plainNulls_null _

/-- The first byte behind the replacement was there before, or is a null that was replaced. -/
theorem plainNulls_cases (raw : List UInt8) :
    raw = [] ∨ (∃ a rest, raw = a :: rest ∧ plainNulls raw = a :: plainNulls rest)
      ∨ ∃ rest, raw = 0xC0 :: 0x80 :: rest ∧ plainNulls raw = 0 :: plainNulls rest := by
  cases raw with
  | nil => exact .inl rfl
  | cons a rest =>
    by_cases hnull : ∃ tail, a :: rest = 0xC0 :: 0x80 :: tail
    · obtain ⟨tail, hraw⟩ := hnull
      exact .inr (.inr ⟨tail, hraw, by rw [hraw, plainNulls_null]⟩)
    · refine .inr (.inl ⟨a, rest, rfl, plainNulls_cons fun b hb hboth => hnull ?_⟩)
      rw [Bool.and_eq_true, beq_iff_eq, beq_iff_eq] at hboth
      cases rest with
      | nil => cases hb
      | cons c tail =>
        cases hb
        exact ⟨tail, by rw [hboth.1, hboth.2]⟩

theorem eq_nil_of_plainNulls {raw : List UInt8} (h : plainNulls raw = []) : raw = [] := by
  rcases plainNulls_cases raw with hnil | ⟨a, rest, -, hcons⟩ | ⟨rest, -, hnull⟩
  · exact hnil
  · rw [hcons] at h
    cases h
  · rw [hnull] at h
    cases h

theorem cons_of_plainNulls {raw more : List UInt8} {b : UInt8} (h : plainNulls raw = b :: more) :
    (∃ rest, raw = b :: rest ∧ plainNulls rest = more)
      ∨ b = 0 ∧ ∃ rest, raw = 0xC0 :: 0x80 :: rest ∧ plainNulls rest = more := by
  rcases plainNulls_cases raw with rfl | ⟨a, rest, hraw, hcons⟩ | ⟨rest, hraw, hnull⟩
  · cases h
  · rw [hcons] at h
    injection h with hb hmore
    exact .inl ⟨rest, by rw [hraw, hb], hmore⟩
  · rw [hnull] at h
    injection h with hb hmore
    exact .inr ⟨hb.symm, rest, hraw, hmore⟩

/-- Bytes other than `00` were there before. -/
theorem append_of_plainNulls {front raw more : List UInt8} (hfront : ∀ b ∈ front, b ≠ 0)
    (h : plainNulls raw = front ++ more) : ∃ rest, raw = front ++ rest ∧ plainNulls rest = more := by
  induction front generalizing raw with
  | nil => exact ⟨raw, rfl, h⟩
  | cons b front ih =>
    rcases cons_of_plainNulls h with ⟨rest, hraw, hrest⟩ | ⟨hzero, -⟩
    · obtain ⟨tail, htail, hmore⟩ := ih (fun c hc => hfront c (List.mem_cons_of_mem b hc)) hrest
      exact ⟨tail, by rw [hraw, htail, List.cons_append], hmore⟩
    · exact absurd hzero (hfront b List.mem_cons_self)

/-- If the bytes are those of code points once nulls are plain, they are those of symbols. -/
theorem written_of_plainNulls {points : List Nat} (hpoints : ∀ n ∈ points, n < 0x110000)
    {raw : List UInt8} (h : plainNulls raw = points.flatMap spell) :
    ∃ symbols, raw = written symbols ∧ codes symbols = points := by
  induction points generalizing raw with
  | nil => exact ⟨[], eq_nil_of_plainNulls h, rfl⟩
  | cons n points ih =>
    have hn : n < 0x110000 := hpoints n List.mem_cons_self
    have hrest : ∀ m ∈ points, m < 0x110000 := fun m hm => hpoints m (List.mem_cons_of_mem n hm)
    rw [List.flatMap_cons] at h
    by_cases hzero : n = 0
    · subst hzero
      rcases cons_of_plainNulls h with ⟨rest, hraw, htail⟩ | ⟨-, rest, hraw, htail⟩
      · obtain ⟨symbols, hsymbols, hcodes⟩ := ih hrest htail
        exact ⟨.point 0 :: symbols, by rw [hraw, hsymbols]; rfl, by rw [← hcodes]; rfl⟩
      · obtain ⟨symbols, hsymbols, hcodes⟩ := ih hrest htail
        exact ⟨.null :: symbols, by rw [hraw, hsymbols]; rfl, by rw [← hcodes]; rfl⟩
    · obtain ⟨rest, hraw, htail⟩ :=
        append_of_plainNulls (fun b hb => ne_zero_of_mem_spell hzero hn hb) h
      obtain ⟨symbols, hsymbols, hcodes⟩ := ih hrest htail
      exact ⟨.point ⟨n, hn⟩ :: symbols, by rw [hraw, hsymbols]; rfl, by rw [← hcodes]; rfl⟩

/-! ## §3. The two ways to decode. -/

theorem codePoints_written (symbols : List Symbol) :
    codePoints? true (plainNulls (written symbols)) = some (codes symbols) := by
  rw [codePoints?_eq_some_iff]
  exact ⟨fun n hn => ⟨codes_lt symbols n hn, .inl rfl⟩, plainNulls_written symbols⟩

/-- The detour decodes symbols. -/
theorem indirect_written (symbols : List Symbol) :
    indirect? (written symbols) = some (joined (codes symbols)) := by
  rw [indirect?, codePoints_written, Option.map_some, Utf16.lossy_encode (codes_lt symbols)]

/-- The detour decodes nothing else. -/
theorem written_of_indirect {raw : List UInt8} {chars : List Char} (h : indirect? raw = some chars) :
    ∃ symbols, raw = written symbols := by
  obtain ⟨points, hpoints, -⟩ := Option.map_eq_some_iff.mp h
  rw [codePoints?_eq_some_iff] at hpoints
  obtain ⟨symbols, hraw, -⟩ := written_of_plainNulls (fun n hn => (hpoints.1 n hn).1) hpoints.2
  exact ⟨symbols, hraw⟩

/-- Whatever is decoded directly is decoded to the same text by the detour. -/
theorem indirect_of_plain {raw : List UInt8} {chars : List Char} (h : plain? raw = some chars) :
    indirect? raw = some chars := by
  obtain ⟨points, hpoints, hchars⟩ := Option.map_eq_some_iff.mp h
  rw [codePoints?_eq_some_iff] at hpoints
  have hbound : ∀ n ∈ points, n < 0x110000 := fun n hn => (hpoints.1 n hn).1
  obtain ⟨symbols, hwritten, hcodes⟩ := exists_symbols hbound
  rw [hpoints.2, ← hwritten, indirect_written, hcodes, Utf16.joined_eq_map hpoints.1, hchars]

/-- The detour alone would do. -/
theorem decode_eq_indirect (raw : List UInt8) : decode? raw = (indirect? raw).map String.ofList := by
  unfold decode?
  cases h : plain? raw with
  | none => rfl
  | some chars =>
    rw [indirect_of_plain h]
    rfl

theorem decode_written (symbols : List Symbol) :
    decode? (written symbols) = some (String.ofList (joined (codes symbols))) := by
  rw [decode_eq_indirect, indirect_written, Option.map_some]

theorem written_of_decode {raw : List UInt8} {text : String} (h : decode? raw = some text) :
    ∃ symbols, raw = written symbols := by
  rw [decode_eq_indirect] at h
  obtain ⟨chars, hchars, -⟩ := Option.map_eq_some_iff.mp h
  exact written_of_indirect hchars

/-! ## §4. Symbols are told apart by their bytes. -/

theorem codes_eq_of_written_eq {symbols others : List Symbol} (h : written symbols = written others) :
    codes symbols = codes others := by
  have hcodes := codePoints_written symbols
  rw [h, codePoints_written] at hcodes
  injection hcodes with hcodes
  exact hcodes.symm

/-- Only the null has two symbols, and they begin differently. -/
theorem Symbol.eq_of_code_eq {symbol other : Symbol} {more rest : List UInt8}
    (hcode : symbol.code = other.code) (h : symbol.bytes ++ more = other.bytes ++ rest) :
    symbol = other := by
  match symbol, other with
  | .point n, .point m => exact congrArg point (Fin.ext hcode)
  | .null, .null => rfl
  | .point n, .null =>
    have hzero : (n : Nat) = 0 := hcode
    simp [bytes, hzero, spell] at h
  | .null, .point n =>
    have hzero : 0 = (n : Nat) := hcode
    simp [bytes, ← hzero, spell] at h

/-- No bytes are those of two different sequences of symbols. -/
theorem eq_of_written_eq {symbols others : List Symbol} (h : written symbols = written others) :
    symbols = others := by
  have hcodes := codes_eq_of_written_eq h
  induction symbols generalizing others with
  | nil => exact (List.map_eq_nil_iff.mp hcodes.symm).symm
  | cons symbol symbols ih =>
    cases others with
    | nil => cases hcodes
    | cons other others =>
      injection hcodes with hcode hcodes
      have hbytes : symbol.bytes ++ written symbols = other.bytes ++ written others := h
      obtain rfl : symbol = other := Symbol.eq_of_code_eq hcode hbytes
      rw [ih (List.append_cancel_left hbytes) hcodes]

/-- **Decoding is exact.**  Bytes decode to a text if and only if they are a sequence of symbols whose
    code points, pairs of surrogates joined and other surrogates replaced, are the text; they are so in
    one way at most, and fail to decode otherwise.  Where both ways to decode apply, they agree. -/
theorem decode_iff_symbols (raw : List UInt8) :
    (∀ text : String, decode? raw = some text ↔
      ∃ symbols : List Symbol, raw = written symbols ∧ text.toList = joined (codes symbols))
    ∧ (decode? raw = none ↔ ¬ ∃ symbols : List Symbol, raw = written symbols)
    ∧ (∀ symbols others : List Symbol, raw = written symbols → raw = written others →
        symbols = others)
    ∧ ∀ direct detour : List Char, plain? raw = some direct → indirect? raw = some detour →
        direct = detour := by
  refine ⟨?_, ?_, ?_, ?_⟩
  · intro text
    constructor
    · intro h
      obtain ⟨symbols, rfl⟩ := written_of_decode h
      rw [decode_written] at h
      injection h with h
      exact ⟨symbols, rfl, by rw [← h, String.toList_ofList]⟩
    · rintro ⟨symbols, rfl, htext⟩
      rw [decode_written, ← htext, String.ofList_toList]
  · constructor
    · rintro h ⟨symbols, rfl⟩
      rw [decode_written] at h
      cases h
    · intro h
      rw [Option.eq_none_iff_forall_not_mem]
      intro text htext
      exact h (written_of_decode htext)
  · rintro symbols others rfl h
    exact eq_of_written_eq h
  · intro direct detour hdirect hdetour
    rw [indirect_of_plain hdirect] at hdetour
    injection hdetour

/-- The code point of the byte order mark in front, a null in two bytes, and two high surrogates before
    a low one; and the first of these alone, which can be decoded in both ways. -/
theorem decode_iff_symbols_mark :
    decode? [0xEF, 0xBB, 0xBF, 0xC0, 0x80, 0xED, 0xA0, 0xBD, 0xED, 0xA0, 0xBD, 0xED, 0xB8, 0x80]
        = some "\uFEFF\x00\uFFFD😀"
      ∧ ∃ direct detour : List Char, plain? [0xEF, 0xBB, 0xBF] = some direct
        ∧ indirect? [0xEF, 0xBB, 0xBF] = some detour ∧ direct = detour := by
  refine ⟨((decode_iff_symbols _).1 _).mpr ?_, ['\uFEFF'], ['\uFEFF'], by decide, by decide, ?_⟩
  · exact ⟨[.point 0xFEFF, .null, .point 0xD83D, .point 0xD83D, .point 0xDE00], by decide, by decide⟩
  · exact (decode_iff_symbols [0xEF, 0xBB, 0xBF]).2.2.2 _ _ (by decide) (by decide)

/-! ## §5. The encoding in use. -/

/-- The bytes of a character: two for the null, and three for each of the two surrogates that stand for
    a character beyond `U+FFFF`. -/
def encodeChar (c : Char) : List UInt8 :=
  if c.toNat = 0 then [0xC0, 0x80]
  else if c.toNat < 0x80 then [UInt8.ofNat c.toNat]
  else if c.toNat < 0x800 then twoBytes c.toNat
  else if c.toNat < 0x10000 then threeBytes c.toNat
  else threeBytes (Utf16.highOf c.toNat) ++ threeBytes (Utf16.lowOf c.toNat)

/-- The bytes of a text. -/
def encode (text : List Char) : List UInt8 := text.flatMap encodeChar

/-- Characters are code points, and no surrogates. -/
theorem admits_toNat (c : Char) : Admits false c.toNat := by
  have hvalid : c.toNat < 0xD800 ∨ 0xDFFF < c.toNat ∧ c.toNat < 0x110000 := c.valid
  unfold Admits IsSurrogate
  omega

/-- Apart from the null, a character is written as its units are. -/
theorem encodeChar_eq {c : Char} (h : c.toNat ≠ 0) :
    encodeChar c = (Utf16.units c.toNat).flatMap spell := by
  rw [encodeChar, if_neg h]
  by_cases hsmall : c.toNat < 0x10000
  · rw [Utf16.units_of_lt hsmall, List.flatMap_singleton, spell, if_pos hsmall, if_pos hsmall]
  · have hhigh := (Utf16.isHigh_iff _).mp (Utf16.isHigh_highOf (admits_toNat c).1)
    have hlow := (Utf16.isLow_iff _).mp (Utf16.isLow_lowOf c.toNat)
    rw [if_neg (by omega), if_neg (by omega), if_neg hsmall, Utf16.units_of_le (by omega),
      List.flatMap_cons, List.flatMap_singleton, spell_three (by omega) (by omega),
      spell_three (by omega) (by omega)]

theorem exists_symbols_char (c : Char) :
    ∃ symbols, encodeChar c = written symbols ∧ codes symbols = Utf16.units c.toNat := by
  by_cases h : c.toNat = 0
  · exact ⟨[.null], by rw [encodeChar, if_pos h]; rfl, by rw [h]; rfl⟩
  · have hbound : ∀ u ∈ Utf16.units c.toNat, u < 0x110000 := by
      intro u hu
      have := Utf16.lt_of_mem_units (admits_toNat c).1 hu
      omega
    obtain ⟨symbols, hwritten, hcodes⟩ := exists_symbols hbound
    exact ⟨symbols, by rw [encodeChar_eq h, hwritten], hcodes⟩

theorem exists_symbols_text (text : List Char) :
    ∃ symbols, encode text = written symbols
      ∧ codes symbols = (text.map Char.toNat).flatMap Utf16.units := by
  induction text with
  | nil => exact ⟨[], rfl, rfl⟩
  | cons c text ih =>
    obtain ⟨front, hfront, hfrontCodes⟩ := exists_symbols_char c
    obtain ⟨rest, hrest, hrestCodes⟩ := ih
    refine ⟨front ++ rest, ?_, ?_⟩
    · show encodeChar c ++ encode text = _
      rw [hfront, hrest, written, written, written, List.flatMap_append]
    · rw [codes, List.map_append, List.map_cons, List.flatMap_cons, ← hfrontCodes, ← hrestCodes]
      rfl

/-- **Decoding undoes encoding.** -/
theorem decode_encode (text : String) : decode? (encode text.toList) = some text := by
  obtain ⟨symbols, hwritten, hcodes⟩ := exists_symbols_text text.toList
  have hadmits : ∀ n ∈ text.toList.map Char.toNat, Admits false n := by
    intro n hn
    obtain ⟨c, -, rfl⟩ := List.mem_map.mp hn
    exact admits_toNat c
  have hback : (text.toList.map Char.toNat).map Char.ofNat = text.toList := by
    rw [List.map_map]
    exact List.map_id'' Char.ofNat_toNat text.toList
  rw [hwritten, decode_written, hcodes, Utf16.joined_flatMap_units fun n hn => (hadmits n hn).1,
    Utf16.joined_eq_map hadmits, hback, String.ofList_toList]

end JavaClass.Text.ModifiedUtf8
