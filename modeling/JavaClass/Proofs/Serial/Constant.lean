/-
  JavaClass.Proofs.Serial.Constant — constants as bytes.

  Text is written from its raw bytes, and floating-point numbers from their values, so patterns that
  are not numbers do not come back.  The second slot of a constant takes no bytes.
-/
import JavaClass.Constant.Pool
import JavaClass.Proofs.Number.Pattern
import JavaClass.Proofs.Serial.Basic

namespace JavaClass

open Decoder

/-! ## §1. Constants as bytes. -/

/-- The tag of a reference to a member. -/
def MemberKind.tag : MemberKind → Nat
  | field => 9
  | method => 10
  | interfaceMethod => 11

namespace Constant

/-- The bytes of a constant. -/
def serialize : Constant → List UInt8
  | utf8 _ raw => Serial.tag 1 ++ Serial.shortBlock raw
  | integer value => Serial.tag 3 ++ Serial.u4 value.toUInt32
  | float value =>
    Serial.tag 4 ++ Serial.u4 (UInt32.ofNat (Number.Format.single.pattern value.value))
  | long value => Serial.tag 5 ++ Serial.u8 value.toUInt64
  | double value =>
    Serial.tag 6 ++ Serial.u8 (UInt64.ofNat (Number.Format.double.pattern value.value))
  | cls name => Serial.tag 7 ++ Serial.u2 name
  | string text => Serial.tag 8 ++ Serial.u2 text
  | member kind owner reference =>
    Serial.tag kind.tag ++ Serial.u2 owner ++ Serial.u2 reference
  | nameAndType name descriptor => Serial.tag 12 ++ Serial.u2 name ++ Serial.u2 descriptor
  | methodHandle kind reference => Serial.tag 15 ++ Serial.u1 kind ++ Serial.u2 reference
  | methodType descriptor => Serial.tag 16 ++ Serial.u2 descriptor
  | dynamic bootstrap reference =>
    Serial.tag 17 ++ Serial.u2 bootstrap ++ Serial.u2 reference
  | invokeDynamic bootstrap reference =>
    Serial.tag 18 ++ Serial.u2 bootstrap ++ Serial.u2 reference
  | moduleName name => Serial.tag 19 ++ Serial.u2 name
  | packageName name => Serial.tag 20 ++ Serial.u2 name

/-- A floating-point constant that is not a number. -/
def isNaN : Constant → Bool
  | float value => value.value = .nan
  | double value => value.value = .nan
  | _ => false

end Constant

namespace Slot

/-- The bytes of a slot. -/
def serialize : Slot → List UInt8
  | unused => []
  | constant c => c.value.serialize
  | upper _ => []

/-- A slot with a constant that is not a number. -/
def isNaN : Slot → Bool
  | constant c => c.value.isNaN
  | _ => false

end Slot

/-- The bytes of slots, one behind the other. -/
def Slots.serialize (slots : Slots) : List UInt8 := slots.toList.flatMap Slot.serialize

/-! ## §2. Reading. -/

namespace Constant

theorem readUtf8_yields (start : Int) :
    (readUtf8 start).Yields fun c bytes =>
      c.isNaN = false → Serial.tag 1 ++ bytes = c.serialize := by
  refine .shortBlock_bind _ _ fun raw => ?_
  cases Text.ModifiedUtf8.decode? raw with
  | none => exact .reject _ _
  | some text => exact .pure fun _ => by rw [List.append_nil, serialize]

theorem readMember_yields (kind : MemberKind) :
    (readMember kind).Yields fun c bytes =>
      c.isNaN = false → Serial.tag kind.tag ++ bytes = c.serialize := by
  refine (u2_inverts _).bind fun owner => (u2_inverts _).bind fun nameAndType => .pure fun _ => ?_
  simp only [serialize, List.append_nil, List.append_assoc]

/-- A constant that is a number, or no floating-point constant, loses nothing. -/
theorem read_yields (slot : Nat) :
    (read slot).Yields fun c bytes => c.isNaN = false → bytes = c.serialize := by
  refine position_still.bind fun start => (u1_inverts _).bind fun tag => ?_
  show Yields _ fun (c : Constant) more => c.isNaN = false → Serial.tag tag.toNat ++ more = c.serialize
  generalize tag.toNat = n
  -- One case for each tag, in the order in which they are told apart.
  split
  · exact readUtf8_yields start
  · refine (s4_inverts _).bind fun value => .pure fun _ => ?_
    rw [List.append_nil, serialize]
  · refine (f4_inverts _).bind fun value => .pure fun hnumber => ?_
    have hvalue : value.value ≠ .nan := of_decide_eq_false hnumber
    rw [List.append_nil, serialize, Number.Single.pattern_value hvalue]
  · refine (s8_inverts _).bind fun value => .pure fun _ => ?_
    rw [List.append_nil, serialize]
  · refine (f8_inverts _).bind fun value => .pure fun hnumber => ?_
    have hvalue : value.value ≠ .nan := of_decide_eq_false hnumber
    rw [List.append_nil, serialize, Number.Double.pattern_value hvalue]
  · exact (u2_inverts _).bind fun _ => .pure fun _ => by rw [List.append_nil, serialize]
  · exact (u2_inverts _).bind fun _ => .pure fun _ => by rw [List.append_nil, serialize]
  · exact readMember_yields .field
  · exact readMember_yields .method
  · exact readMember_yields .interfaceMethod
  · refine (u2_inverts _).bind fun name => (u2_inverts _).bind fun descriptor => .pure fun _ => ?_
    simp only [serialize, List.append_nil, List.append_assoc]
  · refine (u1_inverts _).bind fun kind => (u2_inverts _).bind fun reference => .pure fun _ => ?_
    simp only [serialize, List.append_nil, List.append_assoc]
  · exact (u2_inverts _).bind fun _ => .pure fun _ => by rw [List.append_nil, serialize]
  · refine (u2_inverts _).bind fun _ => (u2_inverts _).bind fun _ => .pure fun _ => ?_
    simp only [serialize, List.append_nil, List.append_assoc]
  · refine (u2_inverts _).bind fun _ => (u2_inverts _).bind fun _ => .pure fun _ => ?_
    simp only [serialize, List.append_nil, List.append_assoc]
  · exact (u2_inverts _).bind fun _ => .pure fun _ => by rw [List.append_nil, serialize]
  · exact (u2_inverts _).bind fun _ => .pure fun _ => by rw [List.append_nil, serialize]
  · exact .reject _ _

end Constant

namespace Slots

/-- One step reads one slot. -/
theorem readNext_yields (slots : Slots) :
    (readNext slots).Yields fun after bytes =>
      ∃ slot, after = slots.push slot ∧ (slot.isNaN = false → bytes = slot.serialize) := by
  unfold readNext
  split
  · exact position_still.bind fun position => .pure ⟨.upper position, rfl, fun _ => rfl⟩
  · unfold located
    simp only [bind_assoc, pure_bind]
    refine position_still.bind fun start => (Constant.read_yields slots.size).bind
      fun c bytes hbytes => (spanFrom_still start).bind fun span =>
      .pure ⟨.constant ⟨span, c⟩, rfl, fun hnumber => ?_⟩
    rw [List.append_nil]
    exact hbytes hnumber

/-- As many slots are read as there are steps, and their bytes are the ones passed over. -/
theorem readAll_yields (count : Nat) (slots : Slots) :
    (repeated count readNext slots).Yields fun after bytes =>
      ∃ more : List Slot, after.toList = slots.toList ++ more ∧ more.length = count ∧
        ((∀ slot ∈ more, slot.isNaN = false) → bytes = more.flatMap Slot.serialize) := by
  induction count generalizing slots with
  | zero =>
    rw [repeated_zero]
    exact .pure ⟨[], (List.append_nil _).symm, rfl, fun _ => rfl⟩
  | succ count ih =>
    rw [repeated_succ]
    refine (readNext_yields slots).bind fun next bytes hnext => (ih next).mono ?_
    obtain ⟨slot, rfl, hslot⟩ := hnext
    rintro after rest ⟨more, hafter, hlength, hrest⟩
    refine ⟨slot :: more, ?_, by rw [List.length_cons, hlength], ?_⟩
    · rw [hafter, Array.toList_push, List.append_assoc, List.singleton_append]
    · intro hnumbers
      rw [List.flatMap_cons, hslot (hnumbers slot List.mem_cons_self),
        hrest fun s hs => hnumbers s (List.mem_cons_of_mem _ hs)]

end Slots

end JavaClass
