/-
  JavaClass.Proofs.Relocation.Constant — constants read elsewhere.

  Constants hold no positions.  The slots of a pool do: each constant has its place, and the second
  slot of a constant that takes two lies behind it.
-/
import JavaClass.Constant.Pool
import JavaClass.Proofs.Relocation.Basic

namespace JavaClass

open Decoder

variable {lo : Int} {S : Setting}

/-! ## §1. Constants. -/

namespace Constant

theorem readUtf8_relocates :
    Relocates lo S id (readUtf8 lo) (readUtf8 (lo + S.shift)) := by
  refine .bind (.u2 _) fun size => .bind (.bytes _ size.toNat) fun raw => ?_
  simp only [id_eq]
  split
  · exact .pure rfl
  · exact .reject _

theorem readMember_relocates (kind : MemberKind) :
    Relocates lo S id (readMember kind) (readMember kind) :=
  .bind (.u2 _) fun _ => .bind (.u2 _) fun _ => .pure rfl

theorem read_relocates (slot : Nat) : Relocates lo S id (read slot) (read slot) := by
  refine .position_bind fun start => .bind (.u1 _) fun tag => ?_
  simp only [id_eq]
  split
  · exact readUtf8_relocates
  · exact .bind (.s4 _) fun _ => .pure rfl
  · exact .bind (.f4 _) fun _ => .pure rfl
  · exact .bind (.s8 _) fun _ => .pure rfl
  · exact .bind (.f8 _) fun _ => .pure rfl
  · exact .bind (.u2 _) fun _ => .pure rfl
  · exact .bind (.u2 _) fun _ => .pure rfl
  · exact readMember_relocates .field
  · exact readMember_relocates .method
  · exact readMember_relocates .interfaceMethod
  · exact .bind (.u2 _) fun _ => .bind (.u2 _) fun _ => .pure rfl
  · exact .bind (.u1 _) fun _ => .bind (.u2 _) fun _ => .pure rfl
  · exact .bind (.u2 _) fun _ => .pure rfl
  · exact .bind (.u2 _) fun _ => .bind (.u2 _) fun _ => .pure rfl
  · exact .bind (.u2 _) fun _ => .bind (.u2 _) fun _ => .pure rfl
  · exact .bind (.u2 _) fun _ => .pure rfl
  · exact .bind (.u2 _) fun _ => .pure rfl
  · exact .reject _

end Constant

/-! ## §2. Slots. -/

/-- What a slot holds, `p` bytes further on. -/
def Slot.shift (p : Int) : Slot → Slot
  | .unused => .unused
  | .constant c => .constant (c.shift p id)
  | .upper position => .upper (position + p)

namespace Slots

/-- All slots, `p` bytes further on. -/
def shift (p : Int) (slots : Slots) : Slots := Array.map (Slot.shift p) slots

theorem shift_zero (slots : Slots) : shift 0 slots = slots := by
  have hslot : ∀ slot : Slot, slot.shift 0 = slot := by
    intro slot
    cases slot with
    | unused => rfl
    | constant c => rw [Slot.shift, Located.shift, Span.shift_zero, id]
    | upper position => rw [Slot.shift, Int.add_zero]
  rw [shift, funext hslot, Array.map_id']

theorem shift_push (p : Int) (slots : Slots) (slot : Slot) :
    shift p (slots.push slot) = (shift p slots).push (slot.shift p) := by
  simp [shift]

theorem isHalfway_shift (p : Int) (slots : Slots) : (shift p slots).isHalfway = slots.isHalfway := by
  unfold isHalfway shift
  rw [Array.back?_map]
  rcases slots.back? with _ | (_ | _ | _) <;> rfl

theorem readNext_relocates (slots : Slots) :
    Relocates lo S (shift S.shift) (readNext slots) (readNext (shift S.shift slots)) := by
  unfold readNext
  rw [isHalfway_shift, show (shift S.shift slots).size = slots.size from Array.size_map]
  split
  · refine .bind .position fun position => .pure ?_
    rw [shift_push]
    rfl
  · refine .bind (.located (Constant.read_relocates slots.size)) fun c => .pure ?_
    rw [shift_push]
    rfl

theorem readAll_relocates (count : Nat) :
    Relocates lo S (shift S.shift) (repeated count readNext #[.unused])
      (repeated count readNext #[.unused]) := by
  have hstart : shift S.shift #[.unused] = #[.unused] := by simp [shift, Slot.shift]
  have h : Relocates lo S (shift S.shift) (repeated count readNext #[.unused])
      (repeated count readNext (shift S.shift #[.unused])) :=
    .repeated count readNext_relocates #[.unused]
  rwa [hstart] at h

end Slots

end JavaClass
