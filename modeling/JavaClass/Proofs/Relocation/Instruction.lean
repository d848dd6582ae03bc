/-
  JavaClass.Proofs.Relocation.Instruction — code read elsewhere.

  Instructions count from the start of their code, so code that stands `p` bytes further on has the
  very same instructions: switches are aligned within the code and not within the data.  Only the
  fault within which a listing ends names a position of the data.

  A single instruction depends on its own bytes.  A listing goes on to the bound, so it depends on
  where that is.
-/
import JavaClass.Instruction.Decoder
import JavaClass.Proofs.Relocation.Basic

namespace JavaClass

open Decoder

variable {lo : Int} {S : Setting}

/-! ## §1. Instructions. -/

theorem Operand.padding_nonneg (offset : Int) : 0 ≤ padding offset := by
  unfold padding
  omega

theorem Operand.readTableSwitch_relocates (offset : Int) :
    Relocates lo S id (readTableSwitch offset) (readTableSwitch offset) :=
  .bind (.skip _ (padding_nonneg offset)) fun _ => .bind (.s4 _) fun _ => .bind (.s4 _) fun _ =>
    .bind (.s4 _) fun _ => .bind (.many_id _ (.bind (.s4 _) fun _ => .pure rfl)) fun _ => .pure rfl

theorem Operand.readPair_relocates : Relocates lo S id readPair readPair :=
  .bind (.s4 _) fun _ => .bind (.s4 _) fun _ => .pure rfl

theorem Operand.readLookupSwitch_relocates (offset : Int) :
    Relocates lo S id (readLookupSwitch offset) (readLookupSwitch offset) :=
  .bind (.skip _ (padding_nonneg offset)) fun _ => .bind (.s4 _) fun _ => .bind (.s4 _) fun _ =>
    .bind (.many_id _ readPair_relocates) fun _ => .pure rfl

theorem Operand.read_relocates (offset : Int) (layout : Opcode.Layout) :
    Relocates lo S id (read offset layout) (read offset layout) := by
  cases layout with
  | bare => exact .pure rfl
  | immediate1 => exact .bind (.s1 _) fun _ => .pure rfl
  | immediate2 => exact .bind (.s2 _) fun _ => .pure rfl
  | constant1 => exact .bind (.u1 _) fun _ => .pure rfl
  | constant2 => exact .bind (.u2 _) fun _ => .pure rfl
  | localSlot => exact .bind (.u1 _) fun _ => .pure rfl
  | increment => exact .bind (.u1 _) fun _ => .bind (.s1 _) fun _ => .pure rfl
  | branch2 => exact .bind (.s2 _) fun _ => .pure rfl
  | branch4 => exact .bind (.s4 _) fun _ => .pure rfl
  | interfaceCall =>
    exact .bind (.u2 _) fun _ => .bind (.u1 _) fun _ => .bind (.skip _ (by decide)) fun _ =>
      .pure rfl
  | dynamicCall => exact .bind (.u2 _) fun _ => .bind (.skip _ (by decide)) fun _ => .pure rfl
  | arrayCode => exact .bind (.u1 _) fun _ => .pure rfl
  | multiArray => exact .bind (.u2 _) fun _ => .bind (.u1 _) fun _ => .pure rfl
  | tableSwitch => exact .bind (readTableSwitch_relocates offset) fun _ => .pure rfl
  | lookupSwitch => exact .bind (readLookupSwitch_relocates offset) fun _ => .pure rfl
  | wide => exact .pure rfl

theorem Instruction.readWidened_relocates (offset : Int) :
    Relocates lo S id (readWidened offset) (readWidened offset) := by
  refine .bind (.u1 _) fun target => ?_
  simp only [id_eq]
  split
  · refine .bind (.u2 _) fun index => ?_
    split
    · exact .bind (.s2 _) fun _ => .pure rfl
    · exact .pure rfl
  · exact .pure rfl

theorem Instruction.read_relocates (codeStart : Int) :
    Relocates lo S id (read codeStart) (read (codeStart + S.shift)) := by
  refine .bind .position fun start => .bind (.u1 _) fun opcode => ?_
  -- Offsets count from the start of the code, which moves along.
  have hoffset : start + S.shift - (codeStart + S.shift) = start - codeStart := by omega
  have hlength : ∀ span : Span, (span.shift S.shift).length = span.length := fun _ => rfl
  simp only [id_eq, hoffset]
  split
  · exact readWidened_relocates _
  · exact .bind (Operand.read_relocates _ _) fun _ => .bind (.spanFrom start) fun _ => .pure rfl

/-! ## §2. Listings. -/

/-- A listing `p` bytes further on. -/
def Listing.shift (p : Int) (l : Listing) : Listing := ⟨l.instructions, l.stopped.map (Fault.shift p)⟩

/-- Code is read to the end, or up to the instruction that its end cuts; it never fails. -/
theorem Listing.readFrom_orderly (codeStart : Int) (count : Nat) (done : List Instruction) :
    (readFrom codeStart count done).Orderly lo := by
  induction count generalizing done with
  | zero =>
    intro c hc _
    refine ⟨c.pos, rfl, Int.le_refl _, hc.2.1, ?_⟩
    intro fault hfault
    cases hfault
  | succ count ih =>
    intro c hc hlo
    have hread := (Instruction.read_relocates (S := ⟨0, 0, 0⟩) codeStart).orderly c hc hlo
    obtain ⟨q, hq, hle, hstop, -⟩ := hread
    rw [readFrom]
    split
    · refine ⟨c.pos, rfl, Int.le_refl _, hc.2.1, ?_⟩
      intro fault hfault
      cases hfault
    · rcases hrun : Instruction.read codeStart c with ⟨fault | instruction, c₁, _⟩ <;>
        rw [hrun] at hq <;> simp only at hq <;> subst hq
      -- An instruction that is cut ends the listing, at the place where its reading stopped.
      · refine ⟨q, rfl, hle, hstop, ?_⟩
        intro fault hfault
        cases hfault
      · obtain ⟨q', hq', hle', hstop', hfault'⟩ :=
          ih (instruction :: done) (c.goto q) (hc.goto hle hstop) (Int.le_trans hlo hle)
        exact ⟨q', hq', Int.le_trans hle hle', hstop', hfault'⟩

theorem Listing.readFrom_relocates (codeStart : Int) (count : Nat) (done : List Instruction) :
    RelocatesWithin lo S (Listing.shift S.shift) (readFrom codeStart count done)
      (readFrom (codeStart + S.shift) count done) := by
  refine ⟨readFrom_orderly codeStart count done, ?_⟩
  intro c₁ c₂ htwins hlo
  induction count generalizing done c₁ c₂ with
  | zero =>
    show (⟨.ok ⟨done.reverse, none⟩, c₂, []⟩ : Outcome Listing) = _
    rw [readFrom, Outcome.moved_ok, ← htwins.pos, Cursor.goto_self]
    rfl
  | succ count ih =>
    have hatEnd : c₂.atEnd = c₁.atEnd := Cursor.atEnd_congr htwins.remaining
    have hread := (Instruction.read_relocates codeStart).within.moves c₁ c₂ htwins hlo
    obtain ⟨q, hq, hle, hstop, -⟩ :=
      (Instruction.read_relocates (S := S) codeStart).orderly c₁ htwins.left hlo
    rw [readFrom, readFrom, hatEnd]
    split
    · rw [Outcome.moved_ok, ← htwins.pos, Cursor.goto_self]
      rfl
    · rcases hrun : Instruction.read codeStart c₁ with ⟨fault | instruction, c, notices⟩ <;>
        rw [hrun] at hq hread <;> simp only at hq <;> subst hq
      · rw [Outcome.moved_error] at hread
        rw [hread]
        rfl
      · rw [Outcome.moved_ok] at hread
        rw [hread]
        exact ih (instruction :: done) (c₁.goto q) (c₂.goto (q + S.shift)) (htwins.goto hle hstop)
          (Int.le_trans hlo hle)

theorem Listing.read_relocates :
    RelocatesWithin lo S (Listing.shift S.shift) Listing.read Listing.read := by
  refine ⟨fun c hc hlo => readFrom_orderly c.pos c.remaining.toNat [] c hc hlo, ?_⟩
  intro c₁ c₂ htwins hlo
  show readFrom c₂.pos c₂.remaining.toNat [] c₂ = _
  rw [htwins.remaining, htwins.pos]
  exact (readFrom_relocates c₁.pos c₁.remaining.toNat []).moves c₁ c₂ htwins hlo

end JavaClass
