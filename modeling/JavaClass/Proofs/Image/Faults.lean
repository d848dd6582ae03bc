/-
  JavaClass.Proofs.Image.Faults — the ways in which decoding a class ends.

  Whatever the data is, decoding gives a class, or a fault that points at a place in the data, or it
  stops at a number that is too large to be written.  The last is decided by the constants alone, as
  soon as all of them are read (`Image.decode_ends`).
-/
import JavaClass.Proofs.Constant.Description
import JavaClass.Proofs.Constant.Layout
import JavaClass.Proofs.Image.Stages

namespace JavaClass

open Decoder

namespace Image

/-! ## §1. Slot 0. -/

theorem readHead_first : readHead.Always fun head => head.slots.constant? 0 = none := by
  refine .bind fun _ => .bind fun minor => .bind fun major => .bind fun count => .bind fun start =>
    .bind_of (Slots.readAll_first _ _ rfl) fun slots hfirst => .bind fun span => .pure ?_
  simp [Slots.constant?, Slots.located?, hfirst]

/-! ## §2. The three ways. -/

/-- The head of a class is read, and one of its constants is a number that no text stands for. -/
def Overflows (data : Array UInt8) : Prop :=
  ∃ head, (readHead (Cursor.ofBytes data)).result = .ok head ∧
    ∃ (index : Nat) (number : Number.Single),
      head.slots.constant? index = some (.float number) ∧ number.value.displaySingle? = none

/-- Numbers aside, decoding gives a class or points at a place in the data. -/
theorem decode_of_no_overflow {data : Array UInt8} (disassemble : Bool) (h : ¬ Overflows data) :
    (∃ m, (decode data disassemble).result = .ok m) ∨
    ∃ fault offset, (decode data disassemble).result = .error fault ∧
      fault.offset? = some offset ∧ 0 ≤ offset ∧ offset ≤ data.size := by
  have hin := Cursor.InBounds.ofBytes data
  obtain ⟨q, hq, hle, hstop, -⟩ := readHead_stable.orderly hin
  rcases hhead : readHead (Cursor.ofBytes data) with ⟨fault | head, c₁, notices⟩
  -- The head fails, at a place that it was allowed to read.
  · have hresult : (readHead (Cursor.ofBytes data)).result = .error fault := by rw [hhead]
    obtain ⟨offset, hoffset, hlo, hhi⟩ := readHead_stable.fault_offset hin hresult
    exact .inr ⟨fault, offset, decode_of_head_error hresult, hoffset, hlo, hhi⟩
  rw [hhead] at hq
  obtain rfl : c₁ = (Cursor.ofBytes data).goto q := hq
  rcases hall : Description.all head.slots with ⟨described, more⟩
  obtain ⟨-, descriptions, hok⟩ | ⟨⟨index, _, hconstant, number, rfl, htext⟩, -⟩ :=
    Description.all_result (readHead_first _ head (by rw [hhead]))
  · rw [hall] at hok
    obtain rfl : described = .ok descriptions := hok
    -- The constants are described, and the body starts behind them.
    have hbody := readBody_stable ⟨head.span, head.slots, descriptions⟩ disassemble
    rcases hrun : readBody ⟨head.span, head.slots, descriptions⟩ disassemble
      ((Cursor.ofBytes data).goto q) with ⟨fault | body, c₂, last⟩
    · have hresult : (readBody ⟨head.span, head.slots, descriptions⟩ disassemble
          ((Cursor.ofBytes data).goto q)).result = .error fault := by rw [hrun]
      obtain ⟨offset, hoffset, hlo, hhi⟩ := hbody.fault_offset (hin.goto hle hstop) hresult
      exact .inr ⟨fault, offset, decode_of_body_error hhead hall hresult, hoffset,
        Int.le_trans hle hlo, hhi⟩
    · exact .inl ⟨_, by rw [decode_of_stages hhead hall hrun]⟩
  · exact absurd ⟨head, by rw [hhead], index, number, hconstant, htext⟩ h

/-- A number that no text stands for stops decoding before anything behind the constants is read. -/
theorem decode_of_overflow {data : Array UInt8} (disassemble : Bool) (h : Overflows data) :
    (decode data disassemble).result = .error .tooLarge := by
  obtain ⟨head, hresult, index, number, hconstant, htext⟩ := h
  rcases hhead : readHead (Cursor.ofBytes data) with ⟨result, c₁, notices⟩
  have hfirst := readHead_first _ head hresult
  rw [hhead] at hresult
  obtain rfl : result = .ok head := hresult
  rcases hall : Description.all head.slots with ⟨described, more⟩
  obtain ⟨hnone, -⟩ | ⟨-, herror⟩ := Description.all_result hfirst
  · exact absurd ⟨number, rfl, htext⟩ (hnone index _ hconstant)
  · rw [hall] at herror
    obtain rfl : described = .error .tooLarge := herror
    exact decode_of_description_error hhead hall

/-- Decoding gives a class, or a fault that points at a place in the data, or it stops at a number
    that is too large; the last happens exactly if all constants are read and one of them is such a
    number.  (A number that is too large points at no place, so the three exclude each other.) -/
theorem decode_ends (data : Array UInt8) (disassemble : Bool) :
    ((∃ m, (decode data disassemble).result = .ok m) ∨
      (∃ fault offset, (decode data disassemble).result = .error fault ∧
        fault.offset? = some offset ∧ 0 ≤ offset ∧ offset ≤ data.size) ∨
      (decode data disassemble).result = .error .tooLarge) ∧
    ((decode data disassemble).result = .error .tooLarge ↔ Overflows data) := by
  by_cases hoverflow : Overflows data
  · have hresult := decode_of_overflow disassemble hoverflow
    exact ⟨.inr (.inr hresult), fun _ => hoverflow, fun _ => hresult⟩
  obtain ⟨m, hm⟩ | ⟨fault, offset, hfault, hoffset, hbounds⟩ :=
    decode_of_no_overflow disassemble hoverflow
  · refine ⟨.inl ⟨m, hm⟩, fun hlarge => ?_, fun h => absurd h hoverflow⟩
    rw [hm] at hlarge
    cases hlarge
  · refine ⟨.inr (.inl ⟨fault, offset, hfault, hoffset, hbounds⟩), fun hlarge => ?_,
      fun h => absurd h hoverflow⟩
    rw [hfault] at hlarge
    cases hlarge
    cases hoffset

/-- The largest finite number: its first digits, rounded up, are beyond it. -/
example : (decode #[0xCA, 0xFE, 0xBA, 0xBE, 0, 0, 0, 52, 0, 2, 4, 0x7F, 0x7F, 0xFF, 0xFF]
    false).result = .error .tooLarge := rfl

end Image

end JavaClass
