/-
  JavaClass.Proofs.Image.Extent — a class is decided by the bytes that it takes up.

  What stands behind a class does not change what is read, and a class that is cut anywhere is
  reported as cut.  The second needs an argument: a lack of bytes inside an attribute is reported as
  a malformed attribute, and inside code it is only noted.  But each of these has a window, and the
  window itself has to fit first.  So a run over a cut class either lacks bytes outside all windows,
  or it is the run over the whole class, which ends behind the cut.
-/
import JavaClass.Proofs.Image.Stages

namespace JavaClass

open Decoder

namespace Image

/-! ## §1. Classes followed by other bytes. -/

variable {data : Array UInt8} {disassemble : Bool} {m : Image}

theorem length_of_decode (h : (decode data disassemble).result = .ok m) :
    0 ≤ m.length ∧ m.length ≤ data.size := by
  obtain ⟨st, rfl⟩ := staged_of_decode h
  exact ⟨Int.le_trans st.headStart_le st.headEnd_le, st.bodyEnd_le⟩

/-- Data that starts with the bytes of a class decodes to that class. -/
theorem decode_of_same_bytes (h : (decode data disassemble).result = .ok m) {other : Array UInt8}
    (hsize : m.length ≤ other.size) (hbytes : ∀ i : Nat, i < m.length → other[i]? = data[i]?) :
    (decode other disassemble).result = .ok m := by
  obtain ⟨st, rfl⟩ := staged_of_decode h
  have hsize : st.bodyEnd ≤ other.size := hsize
  have hend := st.headEnd_le
  have hsame : ∀ i : Int, 0 ≤ i → i < st.bodyEnd →
      (Cursor.ofBytes other).byte? i = (Cursor.ofBytes data).byte? i := by
    intro i hi hiq
    exact hbytes i.toNat (show (i.toNat : Int) < st.bodyEnd by omega)
  have hin := Cursor.InBounds.ofBytes data
  have hin' := Cursor.InBounds.ofBytes other
  have hroom : st.headEnd ≤ (other.size : Int) := Int.le_trans hend hsize
  -- Both stages that read pass over bytes of the class only.
  have hhead := readHead_stable.same hin hin' rfl (by rw [st.readHead_eq]; exact Outcome.not_starved_ok)
    (by rw [st.readHead_eq]; exact hroom)
    (by rw [st.readHead_eq]; exact fun i hi hiq => hsame i hi (Int.lt_of_lt_of_le hiq hend))
  rw [st.readHead_eq] at hhead
  have hbody := (readBody_stable _ disassemble).same
    (hin.goto st.headStart_le (Int.le_trans hend st.bodyEnd_le)) (hin'.goto st.headStart_le hroom)
    rfl (by rw [st.readBody_eq]; exact Outcome.not_starved_ok) (by rw [st.readBody_eq]; exact hsize)
    (by rw [st.readBody_eq]; exact fun i hi hiq => hsame i (Int.le_trans st.headStart_le hi) hiq)
  rw [st.readBody_eq] at hbody
  rw [decode_of_stages hhead st.all_eq hbody]
  rfl

/-! ## §2. Classes that are cut. -/

/-- Data that ends inside a class lacks bytes. -/
theorem starved_of_cut (h : (decode data disassemble).result = .ok m) {k : Nat}
    (hk : k < m.length) :
    ∃ what size left offset,
      (decode (data.extract 0 k) disassemble).result =
        .error (.truncated what size left offset) ∧ 0 ≤ offset ∧ offset ≤ k := by
  obtain ⟨st, rfl⟩ := staged_of_decode h
  have hk : (k : Int) < st.bodyEnd := hk
  have hend := st.bodyEnd_le
  have hcut := Cursor.Cuts.ofBytes data (show k ≤ data.size by omega)
  have hstop : (Cursor.ofBytes (data.extract 0 k)).stop = k := by
    show ((data.extract 0 k).size : Int) = k
    rw [Array.size_extract]
    omega
  obtain hstarved | hsame := readHead_stable.of_cut hcut
  · obtain ⟨what, size, left, offset, hresult, hle, hoff⟩ :=
      readHead_stable.starved_offset hcut.inBounds hstarved
    exact ⟨what, size, left, offset, decode_of_head_error hresult, hle, hstop ▸ hoff⟩
  -- The head is the one of the whole class, so the body starts at the same place.
  obtain ⟨q, hq, hle, hqs, -⟩ := readHead_stable.orderly hcut.inBounds
  rcases hhead : readHead (Cursor.ofBytes (data.extract 0 k)) with ⟨result, c, notices⟩
  rw [hhead] at hsame hq
  obtain rfl : c = (Cursor.ofBytes (data.extract 0 k)).goto q := hq
  rw [st.readHead_eq] at hsame
  obtain ⟨rfl, rfl, -⟩ : .ok st.head = result ∧ st.headEnd = q ∧ st.headNotices = notices := by
    simpa [Cursor.goto] using hsame
  have hcut' := hcut.goto hle hqs
  obtain hstarved | hsame' := (readBody_stable ⟨st.head.span, st.head.slots, st.descriptions⟩
    disassemble).of_cut hcut'
  · obtain ⟨what, size, left, offset, hresult, hle', hoff⟩ :=
      (readBody_stable _ disassemble).starved_offset hcut'.inBounds hstarved
    exact ⟨what, size, left, offset, decode_of_body_error hhead st.all_eq hresult,
      Int.le_trans st.headStart_le hle', hstop ▸ hoff⟩
  -- The body is the one of the whole class, which ends behind the cut.
  exfalso
  obtain ⟨q, hq, -, hqs', -⟩ := (readBody_stable ⟨st.head.span, st.head.slots, st.descriptions⟩
    disassemble).orderly hcut'.inBounds
  rw [st.readBody_eq, hq] at hsame'
  have hbodyEnd : st.bodyEnd = q := congrArg (fun o : Outcome Body => o.cursor.pos) hsame'
  have hqk : q ≤ (k : Int) := hstop ▸ hqs'
  omega

/-! ## §3. The extent of a class. -/

/-- A class is decided by the bytes that it takes up: whatever follows them, they decode to the
    same class, and no shorter start of them decodes to anything; it is reported as cut, at a place
    inside the data. -/
theorem decode_determined_by_extent (data : Array UInt8) (disassemble : Bool) (m : Image)
    (h : (decode data disassemble).result = .ok m) :
    0 ≤ m.length ∧ m.length ≤ data.size ∧
    (∀ tail : Array UInt8,
      (decode (data.extract 0 m.length.toNat ++ tail) disassemble).result = .ok m) ∧
    ∀ k : Nat, k < m.length → ∃ what size left offset,
      (decode (data.extract 0 k) disassemble).result =
        .error (.truncated what size left offset) ∧ 0 ≤ offset ∧ offset ≤ k := by
  obtain ⟨hle, hsize⟩ := length_of_decode h
  refine ⟨hle, hsize, ?_, fun k hk => starved_of_cut h hk⟩
  intro tail
  have htake : (data.extract 0 m.length.toNat).size = m.length.toNat := by
    rw [Array.size_extract]
    omega
  apply decode_of_same_bytes h
  · rw [Array.size_append, htake]
    omega
  · intro i hi
    rw [Array.getElem?_append_left (by omega), Array.getElem?_extract, if_pos (by omega),
      Nat.zero_add]

theorem specimen_determined_by_extent :
    ∃ m, (decode specimen true).result = .ok m ∧ m.length = 91 ∧
      (∀ tail : Array UInt8, (decode (specimen.extract 0 91 ++ tail) true).result = .ok m) ∧
      ∀ k : Nat, k < 91 → ∃ what size left offset,
        (decode (specimen.extract 0 k) true).result =
          .error (.truncated what size left offset) ∧ 0 ≤ offset ∧ offset ≤ k := by
  obtain ⟨m, hm, hlength⟩ := specimen_decodes
  obtain ⟨-, -, htail, hcut⟩ := decode_determined_by_extent specimen true m hm
  rw [hlength] at htail hcut
  exact ⟨m, hm, hlength, htail, fun k hk => hcut k (by omega)⟩

end Image

end JavaClass
