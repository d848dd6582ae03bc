/-
  JavaClass.Proofs.Serial.Image — decoding a class loses nothing.

  `Image.serialize` lays a class out again: big-endian header, constants in order, interfaces, fields,
  methods and attributes, each table behind its count.  What it makes of a class that was decoded are
  the bytes that the class was decoded from.  Three kinds of bytes are lost, and are excluded:
  bytes that a payload leaves in its window, patterns of floating-point numbers that are not numbers,
  and a count of no slots, which reads as a pool with slot 0 alone.
-/
import JavaClass.Proofs.Image.Stages
import JavaClass.Proofs.Serial.Attribute
import JavaClass.Proofs.Serial.Constant

namespace JavaClass

open Decoder

/-! ## §1. Classes as bytes. -/

/-- The bytes of a field or method. -/
def Member.serialize (m : Member) : List UInt8 :=
  Serial.u2 m.access ++ Serial.u2 m.nameIndex ++ Serial.u2 m.descriptorIndex ++
    Serial.table Attribute.serialize m.attributes

namespace Image

/-- The bytes before the constants. -/
def serializeHeader (minor major count : UInt16) : List UInt8 :=
  Serial.u4 magic ++ Serial.u2 minor ++ Serial.u2 major ++ Serial.u2 count

/-- The bytes of a class. -/
def serialize (m : Image) : List UInt8 :=
  serializeHeader m.minor m.major (UInt16.ofNat m.pool.slots.size) ++ m.pool.slots.serialize ++
    Serial.u2 m.access ++ Serial.u2 m.thisClass ++ Serial.u2 m.superClass ++
    Serial.words m.interfaces ++ Serial.table Member.serialize m.fields ++
    Serial.table Member.serialize m.methods ++ Serial.table Attribute.serialize m.attributes

/-- The bytes behind the constants. -/
def Body.serialize (b : Body) : List UInt8 :=
  Serial.u2 b.access ++ Serial.u2 b.thisClass ++ Serial.u2 b.superClass ++
    Serial.words b.interfaces ++ Serial.table Member.serialize b.fields ++
    Serial.table Member.serialize b.methods ++ Serial.table Attribute.serialize b.attributes

theorem serialize_assemble (head : Head) (descriptions : Array String) (body : Body) (length : Int) :
    (assemble head descriptions body length).serialize =
      serializeHeader head.minor head.major (UInt16.ofNat head.slots.size) ++
        head.slots.serialize ++ body.serialize := by
  simp only [serialize, assemble, Body.serialize, List.append_assoc]

/-! ## §2. The stages of a class. -/

end Image

theorem Member.readWith_inverts (pool : Pool) (disassemble : Bool)
    (declare : UInt16 → String → Option String → List Attribute → String) :
    (readWith pool disassemble declare).Inverts serialize := by
  refine position_still.bind fun start => (u2_inverts _).bind fun access =>
    (u2_inverts _).bind fun nameIndex => (u2_inverts _).bind fun descriptorIndex =>
    (Attribute.readAll_inverts pool disassemble).bind fun attributes =>
    (spanFrom_still start).bind fun _ => .pure ?_
  simp only [serialize, List.append_nil, List.append_assoc]

namespace Image

theorem readMagic_inverts : readMagic.Inverts fun _ => Serial.u4 magic := by
  refine position_still.bind fun start => (u4_inverts _).bind fun found => ?_
  by_cases hfound : found = magic
  · rw [if_pos hfound]
    exact .pure (by rw [List.append_nil, hfound])
  · rw [if_neg hfound]
    exact .reject _ _

/-- The head loses nothing but patterns that are not numbers; a count of no slots counts as one. -/
theorem readHead_yields :
    readHead.Yields fun head bytes => ∃ count : UInt16,
      head.slots.size = count.toNat - 1 + 1 ∧
      ((∀ slot ∈ head.slots, slot.isNaN = false) →
        bytes = serializeHeader head.minor head.major count ++ head.slots.serialize) := by
  refine readMagic_inverts.bind fun _ => (u2_inverts _).bind fun minor =>
    (u2_inverts _).bind fun major => (u2_inverts _).bind fun count =>
    position_still.bind fun start => (Slots.readAll_yields _ _).bind fun slots bytes hslots =>
    (spanFrom_still start).bind fun _ => .pure ⟨count, ?_⟩
  obtain ⟨more, hmore, hlength, hbytes⟩ := hslots
  refine ⟨?_, ?_⟩
  · show slots.size = _
    rw [← Array.length_toList, hmore, List.length_append, hlength]
    simp only [List.length_singleton]
    omega
  · intro hnumbers
    have hin : ∀ slot ∈ more, slot.isNaN = false := by
      intro slot hslot
      apply hnumbers slot
      rw [Array.mem_def, hmore]
      exact List.mem_append_right _ hslot
    simp only [serializeHeader, Slots.serialize, hmore, hbytes hin, List.flatMap_append,
      List.append_nil, List.append_assoc]
    rfl

theorem readBody_inverts (pool : Pool) (disassemble : Bool) :
    (readBody pool disassemble).Inverts Body.serialize := by
  have hmember := Member.readWith_inverts pool disassemble
  refine (u2_inverts _).bind fun access => (u2_inverts _).bind fun thisClass =>
    (u2_inverts _).bind fun superClass => (u2_inverts _).table_bind _ fun interfaces =>
    (hmember _).table_bind _ fun fields => (hmember _).table_bind _ fun methods =>
    (Attribute.readAll_inverts pool disassemble).bind fun attributes => .pure ?_
  simp only [Body.serialize, Serial.words, List.append_nil, List.append_assoc]

/-! ## §3. Whole classes. -/

theorem peek_ofBytes (data : Array UInt8) (n : Nat) :
    (Cursor.ofBytes data).peek n = (data.extract 0 n).toList := by
  have hindex : (Cursor.ofBytes data).index 0 = 0 := Cursor.index_of_nonneg _ (Int.le_refl 0)
  show (data.extract ((Cursor.ofBytes data).index 0) ((Cursor.ofBytes data).index 0 + n)).toList = _
  rw [hindex, Nat.zero_add]

/-- The count of slots stands behind the magic number and the versions. -/
theorem count_of_header {data : Array UInt8} {n : Nat} {minor major count : UInt16}
    {rest : List UInt8}
    (h : (data.extract 0 n).toList = serializeHeader minor major count ++ rest) :
    (data.extract 8 10).toList = Serial.u2 count := by
  have hcount : (Serial.u2 count).length = 2 := Serial.length_natural 2 _
  have hfront : (Serial.u4 magic ++ Serial.u2 minor ++ Serial.u2 major).length = 8 := by
    simp only [Serial.u4, Serial.u2, List.length_append, Serial.length_natural]
  have hn : 10 ≤ n := by
    have hlength := congrArg List.length h
    simp only [serializeHeader, List.length_append, hcount] at hlength hfront
    rw [Array.length_toList, Array.size_extract] at hlength
    omega
  have htake : data.toList.take n = serializeHeader minor major count ++ rest := by
    rw [← h, Array.toList_extract, List.extract_eq_take_drop, List.drop_zero, Nat.sub_zero]
  have hsame : ((data.toList.take n).drop 8).take 2 = (data.toList.drop 8).take 2 := by
    rw [List.drop_take, List.take_take, Nat.min_eq_left (by omega)]
  rw [Array.toList_extract, List.extract_eq_take_drop, ← hsame, htake, serializeHeader,
    List.append_assoc, List.drop_left' hfront, List.take_left' hcount]

section

variable {data : Array UInt8} {disassemble : Bool} (st : Staged data disassemble)

/-- The head of a class, laid out again, if it counts a slot and its numbers are numbers. -/
theorem Staged.head_bytes (hcount : data.extract 8 10 ≠ #[0, 0])
    (hread : ∀ n ∈ st.headNotices, n.isUnread = false)
    (hnumbers : ∀ slot ∈ st.head.slots, slot.isNaN = false) :
    ∃ n : Nat, st.headEnd = n ∧
      serializeHeader st.head.minor st.head.major (UInt16.ofNat st.head.slots.size) ++
        st.head.slots.serialize = (Cursor.ofBytes data).peek n := by
  obtain ⟨n, hn, count, hsize, hhead⟩ := readHead_yields.of_run (Cursor.InBounds.ofBytes data)
    st.readHead_eq hread
  have hbytes := hhead hnumbers
  have hnonzero : count.toNat ≠ 0 := by
    intro hzero
    apply hcount
    rw [peek_ofBytes] at hbytes
    have hcountBytes := count_of_header hbytes
    rw [Serial.u2, hzero] at hcountBytes
    exact Array.toList_inj.mp hcountBytes
  have hslots : UInt16.ofNat st.head.slots.size = count := by
    rw [hsize, Nat.sub_add_cancel (by omega), UInt16.ofNat_toNat]
  exact ⟨n, hn.trans (Int.zero_add _), by rw [hslots, hbytes]⟩

/-- The body of a class, laid out again. -/
theorem Staged.body_bytes (hread : ∀ n ∈ st.bodyNotices, n.isUnread = false) :
    ∃ k : Nat, st.bodyEnd = st.headEnd + k ∧
      st.body.serialize = ((Cursor.ofBytes data).goto st.headEnd).peek k := by
  have hin := (Cursor.InBounds.ofBytes data).goto st.headStart_le
    (Int.le_trans st.headEnd_le st.bodyEnd_le)
  obtain ⟨k, hk, hbody⟩ := (readBody_inverts _ disassemble).of_run hin st.readBody_eq hread
  exact ⟨k, hk, hbody.symm⟩

end

/-- Decoding loses nothing: serializing the class gives back the bytes that it takes up. -/
theorem serialize_decode (data : Array UInt8) (disassemble : Bool) (m : Image)
    (hcount : data.extract 8 10 ≠ #[0, 0]) (h : (decode data disassemble).result = .ok m)
    (hread : ∀ name start unread declared,
      Notice.unreadPayload name start unread declared ∉ (decode data disassemble).notices)
    (hnumbers : ∀ slot ∈ m.pool.slots, slot.isNaN = false) :
    m.serialize = (data.extract 0 m.length.toNat).toList := by
  obtain ⟨st, rfl⟩ := staged_of_decode h
  have hall : ∀ n ∈ (decode data disassemble).notices, n.isUnread = false := by
    intro n hn
    cases n with
    | unreadPayload name start unread declared => exact absurd hn (hread name start unread declared)
    | _ => rfl
  rw [decode_of_stages st.readHead_eq st.all_eq st.readBody_eq] at hall
  obtain ⟨n, hn, hhead⟩ := st.head_bytes hcount
    (fun x hx => hall x (List.mem_append_left _ hx)) hnumbers
  obtain ⟨k, hk, hbody⟩ := st.body_bytes fun x hx =>
    hall x (List.mem_append_right _ (List.mem_append_right _ (List.mem_append_left _ hx)))
  calc st.image.serialize
      = (Cursor.ofBytes data).peek n ++ ((Cursor.ofBytes data).goto (0 + n)).peek k := by
        rw [Staged.image, serialize_assemble, hhead, hbody, hn, Int.zero_add]
    _ = (Cursor.ofBytes data).peek (n + k) := by
        refine Cursor.peek_append (Cursor.InBounds.ofBytes data) ?_ k
        show (0 : Int) + n ≤ data.size
        have := st.bodyEnd_le
        omega
    _ = (data.extract 0 st.image.length.toNat).toList := by
        rw [peek_ofBytes]
        congr 2
        show n + k = st.bodyEnd.toNat
        omega

theorem serialize_specimen :
    ∃ m, (decode specimen true).result = .ok m ∧
      (∀ slot ∈ m.pool.slots, slot.isNaN = false) ∧
      m.serialize = (specimen.extract 0 91).toList := by
  have hcount : specimen.extract 8 10 ≠ #[0, 0] := by decide +kernel
  have hnotices : ∀ n ∈ (decode specimen true).notices, n.isUnread = false := by decide +kernel
  have hslots : (decode specimen true).result.toOption.all fun m =>
      m.pool.slots.all fun slot => !slot.isNaN := by decide +kernel
  obtain ⟨m, hm, hlength⟩ := specimen_decodes
  have hnumbers : ∀ slot ∈ m.pool.slots, slot.isNaN = false := by
    intro slot hslot
    rw [hm] at hslots
    have hall : m.pool.slots.all (fun slot => !slot.isNaN) = true := hslots
    have := Array.all_eq_true_iff_forall_mem.mp hall slot hslot
    simpa using this
  refine ⟨m, hm, hnumbers, ?_⟩
  have hserial := serialize_decode specimen true m hcount hm
    (fun _ _ _ _ hmem => Bool.noConfusion (hnotices _ hmem)) hnumbers
  rw [hlength] at hserial
  exact hserial

end Image

end JavaClass
