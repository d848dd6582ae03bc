/-
  JavaClass.Proofs.Serial.Basic — structures as bytes, and decoders that lose nothing.

  A decoder `Inverts` a serializer if the bytes that it passes over are the ones that the serializer
  makes of its value.  This is asked of runs that end with a value, and that note no bytes left in
  the window of an attribute: those bytes are nowhere in the value.

  Serializers take counts and lengths from the lists that they write.  So a decoder that inverts
  one also reads as many rows as the count says.
-/
import JavaClass.Proofs.Byte.Run

namespace JavaClass

/-! ## §1. Numbers and tables as bytes. -/

namespace Serial

/-- The last `width` digits of a number to the base 256, the most significant first. -/
def natural : Nat → Nat → List UInt8
  | 0, _ => []
  | width + 1, n => natural width (n / 256) ++ [UInt8.ofNat n]

/-- A number of one byte. -/
def u1 (n : UInt8) : List UInt8 := natural 1 n.toNat

/-- A number of two bytes. -/
def u2 (n : UInt16) : List UInt8 := natural 2 n.toNat

/-- A number of four bytes. -/
def u4 (n : UInt32) : List UInt8 := natural 4 n.toNat

/-- A number of eight bytes. -/
def u8 (n : UInt64) : List UInt8 := natural 8 n.toNat

/-- A tag of one byte. -/
def tag (n : Nat) : List UInt8 := natural 1 n

/-- Bytes behind their length of two bytes. -/
def shortBlock (content : List UInt8) : List UInt8 :=
  u2 (UInt16.ofNat content.length) ++ content

/-- Bytes behind their length of four bytes. -/
def block (content : List UInt8) : List UInt8 := u4 (UInt32.ofNat content.length) ++ content

/-- Rows behind their count of one byte. -/
def shortTable {α : Type} (row : α → List UInt8) (rows : List α) : List UInt8 :=
  u1 (UInt8.ofNat rows.length) ++ rows.flatMap row

/-- Rows behind their count of two bytes. -/
def table {α : Type} (row : α → List UInt8) (rows : List α) : List UInt8 :=
  u2 (UInt16.ofNat rows.length) ++ rows.flatMap row

/-- Numbers of two bytes behind their count. -/
def words (numbers : List UInt16) : List UInt8 := table u2 numbers

/-- Rows with places behind their count; the places are not written. -/
def rows {α : Type} (row : α → List UInt8) (located : List (Located α)) : List UInt8 :=
  table (fun x => row x.value) located

theorem length_natural (width n : Nat) : (natural width n).length = width := by
  induction width generalizing n with
  | zero => rfl
  | succ width ih => simp only [natural, List.length_append, ih, List.length_singleton]

/-- Values that take up `size` bytes each. -/
theorem length_flatMap {α : Type} {row : α → List UInt8} {size : Nat}
    (h : ∀ a, (row a).length = size) (values : List α) :
    (values.flatMap row).length = size * values.length := by
  induction values with
  | nil => rfl
  | cons a rest ih =>
    rw [List.flatMap_cons, List.length_append, ih, h, List.length_cons, Nat.mul_succ, Nat.add_comm]

theorem bigEndian_append (bytes : List UInt8) (b : UInt8) :
    Decoder.bigEndian (bytes ++ [b]) = Decoder.bigEndian bytes * 256 + b.toNat := by
  simp only [Decoder.bigEndian, List.foldl_append, List.foldl_cons, List.foldl_nil]

/-- Bytes, one more than `width`, and their last one. -/
theorem exists_front {bytes : List UInt8} {width : Nat} (h : bytes.length = width + 1) :
    ∃ front b, bytes = front ++ [b] ∧ front.length = width := by
  have hne : bytes ≠ [] := List.ne_nil_of_length_pos (by omega)
  refine ⟨bytes.dropLast, bytes.getLast hne, (List.dropLast_concat_getLast hne).symm, ?_⟩
  rw [List.length_dropLast, h, Nat.add_sub_cancel]

theorem bigEndian_lt {bytes : List UInt8} {width : Nat} (h : bytes.length = width) :
    Decoder.bigEndian bytes < Nat.pow 256 width := by
  induction width generalizing bytes with
  | zero =>
    rw [List.length_eq_zero_iff.mp h]
    decide
  | succ width ih =>
    obtain ⟨front, b, rfl, hfront⟩ := exists_front h
    have hb := b.toNat_lt
    have := ih hfront
    rw [bigEndian_append, show Nat.pow 256 (width + 1) = Nat.pow 256 width * 256 from rfl]
    omega

/-- The digits of the number that bytes write are these bytes. -/
theorem natural_bigEndian {bytes : List UInt8} {width : Nat} (h : bytes.length = width) :
    natural width (Decoder.bigEndian bytes) = bytes := by
  induction width generalizing bytes with
  | zero => exact (List.length_eq_zero_iff.mp h).symm
  | succ width ih =>
    -- The last byte is the last digit; the digits before it are those of the quotient.
    obtain ⟨front, b, rfl, hfront⟩ := exists_front h
    have hb := b.toNat_lt
    have hquotient : (Decoder.bigEndian front * 256 + b.toNat) / 256 = Decoder.bigEndian front := by
      omega
    have hlast : UInt8.ofNat (Decoder.bigEndian front * 256 + b.toNat) = b := by
      apply UInt8.toNat_inj.mp
      rw [UInt8.toNat_ofNat']
      omega
    rw [bigEndian_append, natural, hquotient, hlast, ih hfront]

end Serial

/-! ## §2. Decoders and the bytes that they pass over. -/

/-- A notice of bytes that stay unread. -/
def Notice.isUnread : Notice → Bool
  | .unreadPayload .. => true
  | _ => false

/-- No notice says that bytes stay unread. -/
def Outcome.Thorough {α : Type} (o : Outcome α) : Prop := ∀ n ∈ o.notices, n.isUnread = false

theorem Cursor.peek_append {c : Cursor} (h : c.InBounds) {n : Nat} (hn : c.pos + n ≤ c.stop)
    (k : Nat) : c.peek n ++ (c.goto (c.pos + n)).peek k = c.peek (n + k) := by
  have hpos := h.1
  have hmid : (c.pos + n).toNat = c.pos.toNat + n := by omega
  rw [peek_eq h, peek_eq h, peek_eq (h.goto (by omega) hn), List.take_add, goto_data, goto_pos,
    hmid, List.drop_drop]

namespace Decoder

variable {α β : Type}

/-- `P` holds of each value that `d` gives and the bytes that it passed over. -/
def Yields (d : Decoder α) (P : α → List UInt8 → Prop) : Prop :=
  ∀ c : Cursor, c.InBounds → ∀ a, (d c).result = .ok a → (d c).Thorough →
    ∃ n : Nat, (d c).cursor = c.goto (c.pos + n) ∧ c.pos + n ≤ c.stop ∧ P a (c.peek n)

/-- The bytes that `d` passes over are those that `f` makes of its value. -/
def Inverts (d : Decoder α) (f : α → List UInt8) : Prop :=
  d.Yields fun a bytes => bytes = f a

/-- `d` reads nothing. -/
def Still (d : Decoder α) : Prop := ∀ c, (d c).cursor = c

variable {P : α → List UInt8 → Prop} {R : β → List UInt8 → Prop} {f : α → List UInt8}

theorem Yields.mono {Q : α → List UInt8 → Prop} {d : Decoder α} (h : d.Yields P)
    (hPQ : ∀ a bytes, P a bytes → Q a bytes) : d.Yields Q := by
  intro c hc a hresult hthorough
  obtain ⟨n, hcursor, hstop, hP⟩ := h c hc a hresult hthorough
  exact ⟨n, hcursor, hstop, hPQ a _ hP⟩

/-- The bytes of one run. -/
theorem Yields.of_run {d : Decoder α} (h : d.Yields P) {c : Cursor} (hc : c.InBounds) {a : α}
    {q : Int} {notices : List Notice} (hrun : d c = ⟨.ok a, c.goto q, notices⟩)
    (hnotices : ∀ n ∈ notices, n.isUnread = false) : ∃ n : Nat, q = c.pos + n ∧ P a (c.peek n) := by
  have hyields := h c hc a
  rw [hrun] at hyields
  obtain ⟨n, hcursor, -, hP⟩ := hyields rfl hnotices
  exact ⟨n, congrArg Cursor.pos hcursor, hP⟩

theorem Yields.bind {d : Decoder α} {next : α → Decoder β} (hd : d.Yields P)
    (hn : ∀ a bytes, P a bytes → (next a).Yields fun b more => R b (bytes ++ more)) :
    (d >>= next).Yields R := by
  intro c hc b hresult hthorough
  have hfirst := hd c hc
  rcases hrun : d c with ⟨fault | a, c₁, notices⟩
  · rw [bind_of_error hrun] at hresult
    cases hresult
  rw [bind_of_ok hrun] at hresult hthorough ⊢
  rw [hrun] at hfirst
  obtain ⟨n, hcursor, hstop, hP⟩ := hfirst a rfl fun m hm =>
    hthorough m (List.mem_append_left _ hm)
  obtain rfl : c₁ = c.goto (c.pos + n) := hcursor
  obtain ⟨k, hcursor', hstop', hR⟩ := hn a _ hP (c.goto (c.pos + n)) (hc.goto (by omega) hstop) b
    hresult fun m hm => hthorough m (List.mem_append_right _ hm)
  rw [Cursor.goto_pos] at hcursor' hstop'
  -- The bytes of the two parts stand one behind the other.
  refine ⟨n + k, ?_, ?_, ?_⟩
  · show (next a (c.goto (c.pos + n))).cursor = _
    rw [hcursor', Cursor.goto_goto]
    congr 1
    omega
  · have hbound : c.pos + n + k ≤ c.stop := hstop'
    omega
  · rw [← Cursor.peek_append hc hstop]
    exact hR

theorem Inverts.bind {d : Decoder α} {next : α → Decoder β} (hd : d.Inverts f)
    (hn : ∀ a, (next a).Yields fun b more => R b (f a ++ more)) : (d >>= next).Yields R :=
  Yields.bind hd fun a _ hbytes => hbytes ▸ hn a

theorem Yields.still {d : Decoder α} (hd : d.Still) (hP : ∀ a, P a []) : d.Yields P := by
  intro c hc a _ _
  have hstop : c.pos + (0 : Nat) ≤ c.stop := by
    have := hc.2.1
    omega
  have hcursor : (d c).cursor = c.goto (c.pos + (0 : Nat)) := by
    rw [hd c, Int.natCast_zero, Int.add_zero, Cursor.goto_self]
  refine ⟨0, hcursor, hstop, ?_⟩
  rw [List.length_eq_zero_iff.mp (Cursor.length_peek hc hstop)]
  exact hP a

theorem Still.bind {d : Decoder α} {next : α → Decoder β} (hd : d.Still)
    (hn : ∀ a, (next a).Yields R) : (d >>= next).Yields R :=
  Yields.bind (P := fun _ bytes => bytes = []) (.still hd fun _ => rfl)
    fun a _ hbytes => hbytes ▸ hn a

theorem Yields.pure {a : α} (h : P a []) : (pure a : Decoder α).Yields P := by
  intro c hc b hresult hthorough
  obtain rfl : a = b := Except.ok.inj hresult
  exact Yields.still (P := fun _ bytes => P a bytes) (d := Pure.pure a) (fun _ => rfl) (fun _ => h)
    c hc a rfl hthorough

theorem Yields.fail (fault : Fault) : (fail fault : Decoder α).Yields P := by
  intro c _ a hresult
  cases hresult

theorem Yields.reject (cause : Malformation) (offset : Int) :
    (reject cause offset : Decoder α).Yields P := Yields.fail _

theorem position_still : position.Still := fun _ => rfl

theorem spanFrom_still (start : Int) : (spanFrom start).Still := fun _ => rfl

theorem notice_still (n : Notice) : (notice n).Still := fun _ => rfl

theorem delegate_still (w : Cursor) (d : Decoder α) : (delegate w d).Still := fun _ => rfl

/-! ## §3. Reads. -/

theorem Yields.taking {what : String} {n : Nat} {v : Cursor → α}
    (h : ∀ c : Cursor, c.InBounds → c.pos + n ≤ c.stop → P (v c) (c.peek n)) :
    (taking what n v).Yields P := by
  intro c hc a hresult _
  by_cases hshort : c.stop < c.pos + n
  · rw [taking_of_short hshort] at hresult
    cases hresult
  · have henough : c.pos + n ≤ c.stop := by omega
    rw [taking_of_enough henough] at hresult ⊢
    obtain rfl : v c = a := Except.ok.inj hresult
    exact ⟨n, rfl, henough, h c hc henough⟩

theorem natural_yields (what : String) (width : Nat) :
    (natural what width).Yields fun n bytes =>
      bytes.length = width ∧ n = bigEndian bytes := by
  rw [Decoder.natural]
  exact Yields.taking fun c hc henough => ⟨Cursor.length_peek hc henough, rfl⟩

theorem bytes_yields (what : String) (n : Nat) :
    (bytes what n).Yields fun content bytes => content.length = n ∧ bytes = content := by
  rw [Decoder.bytes]
  refine Yields.taking fun c hc henough => ?_
  rw [Cursor.slice_eq_peek hc]
  exact ⟨Cursor.length_peek hc henough, rfl⟩

theorem window_yields (what : String) (n : Nat) :
    (window what n).Yields fun w bytes =>
      w.InBounds ∧ w.stop = w.pos + n ∧ bytes = w.peek n := by
  rw [Decoder.window]
  exact Yields.taking fun c hc henough => ⟨hc.part (by omega) henough, rfl, rfl⟩

/-- A number loses nothing if its type has room for `width` bytes. -/
theorem natural_inverts (what : String) (width : Nat) {ofNat : Nat → α} {toNat : α → Nat}
    (hroom : ∀ n, n < Nat.pow 256 width → toNat (ofNat n) = n) :
    (natural what width >>= fun n => Pure.pure (ofNat n)).Inverts fun a =>
      Serial.natural width (toNat a) := by
  refine (natural_yields what width).bind fun n bytes h => .pure ?_
  obtain ⟨hlength, rfl⟩ := h
  show bytes ++ [] = Serial.natural width (toNat (ofNat (bigEndian bytes)))
  rw [List.append_nil, hroom _ (Serial.bigEndian_lt hlength), Serial.natural_bigEndian hlength]

theorem u1_inverts (what : String) : (u1 what).Inverts Serial.u1 :=
  natural_inverts what 1 fun _ hn => UInt8.toNat_ofNat_of_lt' hn

theorem u2_inverts (what : String) : (u2 what).Inverts Serial.u2 :=
  natural_inverts what 2 fun _ hn => UInt16.toNat_ofNat_of_lt' hn

theorem u4_inverts (what : String) : (u4 what).Inverts Serial.u4 :=
  natural_inverts what 4 fun _ hn => UInt32.toNat_ofNat_of_lt' hn

theorem u8_inverts (what : String) : (u8 what).Inverts Serial.u8 :=
  natural_inverts what 8 fun _ hn => UInt64.toNat_ofNat_of_lt' hn

theorem s4_inverts (what : String) : (s4 what).Inverts fun n => Serial.u4 n.toUInt32 :=
  (u4_inverts what).bind fun _ => .pure (List.append_nil _)

theorem s8_inverts (what : String) : (s8 what).Inverts fun n => Serial.u8 n.toUInt64 :=
  (u8_inverts what).bind fun _ => .pure (List.append_nil _)

theorem f4_inverts (what : String) : (f4 what).Inverts fun x => Serial.u4 x.bits :=
  (u4_inverts what).bind fun _ => .pure (List.append_nil _)

theorem f8_inverts (what : String) : (f8 what).Inverts fun x => Serial.u8 x.bits :=
  (u8_inverts what).bind fun _ => .pure (List.append_nil _)

theorem Yields.shortBlock_bind {next : List UInt8 → Decoder β} (length what : String)
    (hn : ∀ content, (next content).Yields fun b more => R b (Serial.shortBlock content ++ more)) :
    (Decoder.u2 length >>= fun n => Decoder.bytes what n.toNat >>= next).Yields R := by
  refine (u2_inverts length).bind fun n => (bytes_yields what n.toNat).bind fun content bytes h => ?_
  obtain ⟨hlength, rfl⟩ := h
  have hblock : Serial.shortBlock bytes = Serial.u2 n ++ bytes := by
    rw [Serial.shortBlock, hlength, UInt16.ofNat_toNat]
  simpa only [hblock, List.append_assoc] using hn bytes

/-! ## §4. Tables and recursion. -/

theorem Yields.many {d : Decoder α} (count : Nat) (h : d.Inverts f) :
    (many count d).Yields fun values bytes =>
      values.length = count ∧ bytes = values.flatMap f := by
  induction count with
  | zero =>
    rw [many_zero]
    exact .pure ⟨rfl, rfl⟩
  | succ count ih =>
    rw [many_succ]
    refine h.bind fun a => ih.bind fun rest bytes hrest => .pure ?_
    obtain ⟨hlength, rfl⟩ := hrest
    exact ⟨by rw [List.length_cons, hlength], by rw [List.append_nil, List.flatMap_cons]⟩

theorem Inverts.shortTable {d : Decoder α} (what : String) (h : d.Inverts f) :
    (Decoder.u1 what >>= fun count => Decoder.many count.toNat d).Inverts (Serial.shortTable f) := by
  refine (u1_inverts what).bind fun count => (Yields.many count.toNat h).mono ?_
  rintro values bytes ⟨hlength, rfl⟩
  rw [Serial.shortTable, hlength, UInt8.ofNat_toNat]

theorem Inverts.table {d : Decoder α} (what : String) (h : d.Inverts f) :
    (Decoder.u2 what >>= fun count => Decoder.many count.toNat d).Inverts (Serial.table f) := by
  refine (u2_inverts what).bind fun count => (Yields.many count.toNat h).mono ?_
  rintro values bytes ⟨hlength, rfl⟩
  rw [Serial.table, hlength, UInt16.ofNat_toNat]

theorem Inverts.shortTable_bind {d : Decoder α} {next : List α → Decoder β} (what : String)
    (h : d.Inverts f) (hn : ∀ rows, (next rows).Yields fun b more =>
      R b (Serial.shortTable f rows ++ more)) :
    (Decoder.u1 what >>= fun count => Decoder.many count.toNat d >>= next).Yields R := by
  rw [← bind_assoc]
  exact (Inverts.shortTable what h).bind hn

theorem Inverts.table_bind {d : Decoder α} {next : List α → Decoder β} (what : String)
    (h : d.Inverts f) (hn : ∀ rows, (next rows).Yields fun b more =>
      R b (Serial.table f rows ++ more)) :
    (Decoder.u2 what >>= fun count => Decoder.many count.toNat d >>= next).Yields R := by
  rw [← bind_assoc]
  exact (Inverts.table what h).bind hn

theorem Inverts.located {d : Decoder α} (h : d.Inverts f) :
    (located d).Inverts fun x => f x.value :=
  position_still.bind fun start => h.bind fun _ => (spanFrom_still start).bind fun _ =>
    .pure (List.append_nil _)

/-- A structure inside itself loses nothing if its equation loses nothing. -/
theorem Inverts.fix {body : Decoder α → Decoder α}
    (h : ∀ inner : Decoder α, inner.Inverts f → (body inner).Inverts f) :
    (fix body).Inverts f := by
  have hunroll : ∀ depth, (unroll body depth).Inverts f := by
    intro depth
    induction depth with
    | zero =>
      intro c _ a hresult
      cases hresult
    | succ depth ih => exact h _ ih
  intro c
  exact hunroll (c.remaining.toNat + 1) c

end Decoder

end JavaClass
