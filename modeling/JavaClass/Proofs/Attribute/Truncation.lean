/-
  JavaClass.Proofs.Attribute.Truncation — when an attribute lacks bytes.

  An attribute lacks bytes if the bytes left do not hold its name, its length or the payload that it
  declares, and for no other reason.  Behind that, everything happens in the window of the payload:
  whatever lacks bytes there, in whatever depth, is reported once, as a malformed payload, and the
  cursor is behind the window in any case (`Attribute.read_ends`).
-/
import JavaClass.Proofs.Attribute.Envelope
import JavaClass.Proofs.Serial.Basic

namespace JavaClass

open Decoder

/-! ## §1. Reads that fail. -/

namespace Decoder

variable {α β : Type} {what : String} {width : Nat} {f : Nat → α} {c : Cursor}

/-- A sequence fails where its first part fails. -/
theorem bind_of_result_error {d : Decoder α} {next : α → Decoder β} {fault : Fault}
    (h : (d c).result = .error fault) :
    (d >>= next) c = ⟨.error fault, (d c).cursor, (d c).notices⟩ := by
  apply bind_of_error
  rw [← h]

theorem number_of_short (h : c.stop < c.pos + width) :
    (natural what width >>= fun n => pure (f n)) c = ⟨.error (shortage c what width), c, []⟩ := by
  apply bind_of_error
  rw [Decoder.natural, taking_of_short h]

theorem number_of_enough (h : c.pos + width ≤ c.stop) :
    (natural what width >>= fun n => pure (f n)) c =
      ⟨.ok (f (bigEndian (c.peek width))), c.goto (c.pos + width), []⟩ := by
  have hnatural : natural what width c =
      ⟨.ok (bigEndian (c.peek width)), c.goto (c.pos + width), []⟩ := by
    rw [Decoder.natural, taking_of_enough h]
  rw [bind_of_ok hnatural]
  rfl

end Decoder

namespace Attribute

/-! ## §2. The three lengths. -/

/-- The length that an attribute at the cursor declares for its payload. -/
def declaredAt (c : Cursor) : Nat := bigEndian ((c.goto (c.pos + 2)).peek 4)

variable {c : Cursor}

theorem readEnvelope_apply (c : Cursor) :
    readEnvelope c = (do
      let nameIndex ← u2 "attribute_name_index"
      return (c.pos, nameIndex, ← u4 "attribute_length") : Decoder (Int × UInt16 × UInt32)) c := rfl

theorem readEnvelope_of_short_name (h : c.remaining < 2) :
    readEnvelope c = ⟨.error (shortage c "attribute_name_index" 2), c, []⟩ := by
  have hshort : c.stop < c.pos + (2 : Nat) := by
    unfold Cursor.remaining at h
    omega
  have hname : u2 "attribute_name_index" c =
      ⟨.error (shortage c "attribute_name_index" 2), c, []⟩ := number_of_short hshort
  rw [readEnvelope_apply, bind_of_error hname]

/-- Behind a name that is there stands the length. -/
theorem readEnvelope_of_name (h : 2 ≤ c.remaining) :
    readEnvelope c = (do
      let declared ← u4 "attribute_length"
      return (c.pos, UInt16.ofNat (bigEndian (c.peek 2)), declared) :
        Decoder (Int × UInt16 × UInt32)) (c.goto (c.pos + 2)) := by
  have henough : c.pos + (2 : Nat) ≤ c.stop := by
    unfold Cursor.remaining at h
    omega
  have hname : u2 "attribute_name_index" c =
      ⟨.ok (UInt16.ofNat (bigEndian (c.peek 2))), c.goto (c.pos + 2), []⟩ :=
    number_of_enough henough
  rw [readEnvelope_apply, bind_of_ok hname, Outcome.behind_nil]

theorem readEnvelope_of_short_length (h : 2 ≤ c.remaining) (hshort : c.remaining < 6) :
    readEnvelope c =
      ⟨.error (shortage (c.goto (c.pos + 2)) "attribute_length" 4), c.goto (c.pos + 2), []⟩ := by
  have hshort : (c.goto (c.pos + 2)).stop < (c.goto (c.pos + 2)).pos + (4 : Nat) := by
    unfold Cursor.remaining at hshort
    show c.stop < c.pos + 2 + 4
    omega
  have hlength : u4 "attribute_length" (c.goto (c.pos + 2)) =
      ⟨.error (shortage (c.goto (c.pos + 2)) "attribute_length" 4), c.goto (c.pos + 2), []⟩ :=
    number_of_short hshort
  rw [readEnvelope_of_name h, bind_of_error hlength]

theorem readEnvelope_of_enough (hc : c.InBounds) (h : 6 ≤ c.remaining) :
    ∃ nameIndex declared, declared.toNat = declaredAt c ∧
      readEnvelope c = ⟨.ok (c.pos, nameIndex, declared), c.goto (c.pos + 6), []⟩ := by
  have hroom : c.pos + 6 ≤ c.stop := by
    unfold Cursor.remaining at h
    omega
  have henough : (c.goto (c.pos + 2)).pos + (4 : Nat) ≤ (c.goto (c.pos + 2)).stop := by
    show c.pos + 2 + 4 ≤ c.stop
    omega
  have hlength : u4 "attribute_length" (c.goto (c.pos + 2)) =
      ⟨.ok (UInt32.ofNat (declaredAt c)), c.goto (c.pos + 2 + 4), []⟩ := number_of_enough henough
  have hbytes : ((c.goto (c.pos + 2)).peek 4).length = 4 :=
    Cursor.length_peek (hc.goto (by omega) (by omega)) henough
  refine ⟨UInt16.ofNat (bigEndian (c.peek 2)), UInt32.ofNat (declaredAt c), ?_, ?_⟩
  -- Four bytes write a number that fits in 32 bits.
  · exact UInt32.toNat_ofNat_of_lt' (Serial.bigEndian_lt hbytes)
  · rw [readEnvelope_of_name (by omega), bind_of_ok hlength, Int.add_assoc c.pos 2 4]
    rfl

/-! ## §3. Attributes. -/

variable (pool : Pool) (disassemble : Bool)

theorem read_of_short_envelope (hc : c.InBounds) {fault : Fault} {after : Cursor}
    (h : readEnvelope c = ⟨.error fault, after, []⟩) :
    read pool disassemble c = ⟨.error fault, after, []⟩ := by
  rw [read_eq_body pool disassemble hc, body_eq_envelope, bind_of_error h]

theorem read_of_short_payload (hc : c.InBounds) (h : 6 ≤ c.remaining)
    (hshort : c.remaining < 6 + declaredAt c) :
    ∃ what, read pool disassemble c =
      ⟨.error (shortage (c.goto (c.pos + 6)) what (declaredAt c)), c.goto (c.pos + 6), []⟩ := by
  obtain ⟨nameIndex, declared, hdeclared, henvelope⟩ := readEnvelope_of_enough hc h
  have hover : (c.goto (c.pos + 6)).stop < (c.goto (c.pos + 6)).pos + declared.toNat := by
    unfold Cursor.remaining at hshort
    show c.stop < c.pos + 6 + declared.toNat
    omega
  have henclosed := readEnclosed_of_short (pool.utf8? nameIndex.toNat)
    (Payload.read disassemble (read pool disassemble)) c.pos nameIndex declared hover
  refine ⟨payloadLabel (pool.utf8? nameIndex.toNat), ?_⟩
  rw [read_eq_body pool disassemble hc, body_eq_envelope, bind_of_ok henvelope, Outcome.behind_nil,
    bind_of_error henclosed, hdeclared]

/-- An attribute that has all its bytes is read, or it is malformed at a place in its window. -/
theorem read_of_enough (hc : c.InBounds) (h : 6 + declaredAt c ≤ c.remaining) :
    (read pool disassemble c).cursor = c.goto (c.pos + 6 + declaredAt c) ∧
      ((∃ a, (read pool disassemble c).result = .ok a) ∨
        ∃ cause offset, (read pool disassemble c).result = .error (.malformed cause offset) ∧
          c.pos + 6 ≤ offset ∧ offset ≤ c.pos + 6 + declaredAt c) := by
  obtain ⟨nameIndex, declared, hdeclared, henvelope⟩ := readEnvelope_of_enough hc (by omega)
  have hroom : c.pos + 6 + declared.toNat ≤ c.stop := by
    unfold Cursor.remaining at h
    omega
  have hin : (c.goto (c.pos + 6)).InBounds := hc.goto (by omega) (by omega)
  have hfits : (c.goto (c.pos + 6)).pos + declared.toNat ≤ (c.goto (c.pos + 6)).stop := hroom
  have hcursor := readEnclosed_cursor (pool.utf8? nameIndex.toNat)
    (Payload.read disassemble (read pool disassemble)) c.pos nameIndex declared hfits
  rw [← hdeclared, read_eq_body pool disassemble hc, body_eq_envelope, bind_of_ok henvelope,
    Outcome.behind_nil]
  obtain ⟨payload, notices, hrun⟩ | ⟨cause, offset, hresult, hplace⟩ :=
    readEnclosed_settles disassemble (read_stable pool disassemble) (pool.utf8? nameIndex.toNat)
      c.pos nameIndex declared hin hfits
  · rw [bind_of_ok hrun]
    exact ⟨rfl, .inl ⟨_, rfl⟩⟩
  · rw [bind_of_result_error hresult, hcursor]
    exact ⟨rfl, .inr ⟨cause, offset, rfl, hplace⟩⟩

/-- **When an attribute lacks bytes.**  An attribute lacks bytes for its name, for its length or for
    the payload that it declares, and the place where these start is blamed.  In every other case
    the cursor ends behind the payload, and the attribute is read, or its payload is malformed at a
    place in it, however deep. -/
theorem read_ends (pool : Pool) (disassemble : Bool) {c : Cursor} (hc : c.InBounds) :
    (∀ offset, (∃ what size left,
        (read pool disassemble c).result = .error (.truncated what size left offset)) ↔
      c.remaining < 2 ∧ offset = c.pos ∨
      2 ≤ c.remaining ∧ c.remaining < 6 ∧ offset = c.pos + 2 ∨
      6 ≤ c.remaining ∧ c.remaining < 6 + declaredAt c ∧ offset = c.pos + 6) ∧
    (6 + declaredAt c ≤ c.remaining →
      (read pool disassemble c).cursor = c.goto (c.pos + 6 + declaredAt c) ∧
      ((∃ a, (read pool disassemble c).result = .ok a) ∨
        ∃ cause offset, (read pool disassemble c).result = .error (.malformed cause offset) ∧
          c.pos + 6 ≤ offset ∧ offset ≤ c.pos + 6 + declaredAt c)) := by
  refine ⟨fun offset => ⟨?_, ?_⟩, read_of_enough pool disassemble hc⟩
  · rintro ⟨what, size, left, hresult⟩
    by_cases hname : c.remaining < 2
    · rw [read_of_short_envelope pool disassemble hc (readEnvelope_of_short_name hname)] at hresult
      cases hresult
      exact .inl ⟨hname, rfl⟩
    by_cases hlength : c.remaining < 6
    · have hshort := readEnvelope_of_short_length (by omega) hlength
      rw [read_of_short_envelope pool disassemble hc hshort] at hresult
      cases hresult
      exact .inr (.inl ⟨by omega, hlength, rfl⟩)
    by_cases hpayload : c.remaining < 6 + declaredAt c
    · obtain ⟨what', hrun⟩ := read_of_short_payload pool disassemble hc (by omega) hpayload
      rw [hrun] at hresult
      cases hresult
      exact .inr (.inr ⟨by omega, hpayload, rfl⟩)
    -- With all its bytes there, an attribute does not lack any.
    · obtain ⟨-, ⟨a, hok⟩ | ⟨cause, offset', hbad, -⟩⟩ :=
        read_of_enough pool disassemble hc (by omega)
      · rw [hok] at hresult
        cases hresult
      · rw [hbad] at hresult
        cases hresult
  · rintro (⟨hname, rfl⟩ | ⟨hname, hlength, rfl⟩ | ⟨hlength, hpayload, rfl⟩)
    · rw [read_of_short_envelope pool disassemble hc (readEnvelope_of_short_name hname)]
      exact ⟨_, _, _, rfl⟩
    · rw [read_of_short_envelope pool disassemble hc (readEnvelope_of_short_length hname hlength)]
      exact ⟨_, _, _, rfl⟩
    · obtain ⟨what, hrun⟩ := read_of_short_payload pool disassemble hc hlength hpayload
      rw [hrun]
      exact ⟨_, _, _, rfl⟩

/-- Constants that name records. -/
def recordPool : Pool := ⟨⟨0, 0⟩, #[.unused, .constant ⟨⟨0, 0⟩, .utf8 "Record" []⟩], #[]⟩

/-- A record inside a record, which declares more bytes than the outer one has left, though the data
    goes on. -/
def overrun : Array UInt8 :=
  #[0, 1, 0, 0, 0, 14, 0, 1, 0, 0, 0, 0, 0, 1, 0, 1, 0, 0, 0, 9, 0, 0, 0, 0, 0, 0, 0, 0, 0, 0]

/-- The inner record lacks bytes, which makes the outer one malformed.  With a byte less, it is the
    outer one that lacks bytes. -/
theorem read_ends_overrun :
    ((read recordPool true (.ofBytes overrun)).result =
        .error (.malformed (.payload "Record" 14) 20) ∧
      (read recordPool true (.ofBytes overrun)).cursor = (Cursor.ofBytes overrun).goto 20) ∧
    ∃ what size left, (read recordPool true (.ofBytes (overrun.extract 0 19))).result =
      .error (.truncated what size left 6) := by
  have hwhole := read_ends recordPool true (Cursor.InBounds.ofBytes overrun)
  have hcut := read_ends recordPool true (Cursor.InBounds.ofBytes (overrun.extract 0 19))
  refine ⟨⟨rfl, (hwhole.2 (by decide)).1⟩, (hcut.1 6).mpr (.inr (.inr (by decide)))⟩

end Attribute

end JavaClass
