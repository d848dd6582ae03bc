/-
  JavaClass.Proofs.Relocation.Slice — a part of a buffer, read in place or on its own.

  A cursor with a bound shows a part of its buffer.  Reading that part in place gives what reading
  it as a buffer of its own gives, with every position moved to where the part starts
  (`decoding_independent_of_position`).  Positions are all that moves: constants, instructions,
  declared lengths and names stay, so switches are aligned within their code wherever it stands, and
  the bytes around the part are of no influence.

  Code and attributes relocate as decoders (`Relocates`).  A pool does not quite: describing its
  constants may fail with a number that no text stands for, and such a fault blames no place.  So
  the slots relocate, and their descriptions are the same because the constants are (`all_shift`).
-/
import JavaClass.Proofs.Constant.Description
import JavaClass.Proofs.Relocation.Attribute
import JavaClass.Proofs.Relocation.Constant

namespace JavaClass

open Decoder

/-! ## §1. Slots described elsewhere. -/

namespace Slots

variable (p : Int) (slots : Slots)

/-- A number names the same constant wherever the constants stand. -/
theorem constant?_shift (index : Int) :
    (shift p slots).constant? index = slots.constant? index := by
  unfold constant? located? shift
  by_cases hneg : index < 0
  · rw [if_pos hneg, if_pos hneg]
  · rw [if_neg hneg, if_neg hneg, Array.getElem?_map]
    rcases slots[index.toNat]? with _ | (_ | _ | _) <;> rfl

theorem utf8?_shift (index : Int) : (shift p slots).utf8? index = slots.utf8? index := by
  unfold utf8?
  rw [constant?_shift]

end Slots

namespace Description

variable (p : Int) (slots : Slots)

theorem plain_shift : plain (slots.shift p) = plain slots := by
  funext c
  cases c <;> simp only [plain, textAt, Slots.utf8?_shift]

theorem memberText_shift (kind : MemberKind) (owner : String) (nameAndType : UInt16) :
    memberText (slots.shift p) kind owner nameAndType =
      memberText slots kind owner nameAndType := by
  unfold memberText
  simp only [Slots.constant?_shift, Slots.utf8?_shift]

theorem follow_shift (describe : Constant → Describing String) (accepts : Constant → Bool) :
    follow (slots.shift p) describe accepts = follow slots describe accepts := by
  funext index
  unfold follow
  rw [Slots.constant?_shift]

theorem compound_shift : compound (slots.shift p) = compound slots := by
  funext c
  unfold compound
  simp only [plain_shift, follow_shift, memberText_shift]

theorem any_shift : any (slots.shift p) = any slots := by
  funext c
  unfold any
  simp only [compound_shift, follow_shift]

theorem fill_shift (count index : Nat) (t : Table) :
    fill (slots.shift p) count index t = fill slots count index t := by
  induction count generalizing index t with
  | zero => rfl
  | succ count ih =>
    rw [fill, fill, any_shift, follow_shift]
    simp only [ih]

/-- What slots stand for does not depend on where their constants stand. -/
theorem all_shift : all (slots.shift p) = all slots := by
  have hsize : (slots.shift p).size = slots.size := Array.size_map
  unfold all
  rw [hsize, fill_shift]

end Description

/-! ## §2. Pools. -/

namespace Pool

/-- A pool `p` bytes further on. -/
def shift (p : Int) (pool : Pool) : Pool :=
  ⟨pool.span.shift p, Slots.shift p pool.slots, pool.descriptions⟩

/-- Read the slots below `count`, and note their place. -/
def readSlots (count : Int) : Decoder (Span × Slots) := do
  let start ← position
  let slots ← repeated (count - 1).toNat Slots.readNext #[.unused]
  return (← spanFrom start, slots)

theorem read_eq_readSlots (count : Int) :
    read count = readSlots count >>= fun placed =>
      describeSlots placed.2 >>= fun descriptions => pure ⟨placed.1, placed.2, descriptions⟩ := by
  simp only [read, readSlots, bind_assoc, pure_bind]

theorem readSlots_relocates {lo : Int} {S : Setting} (count : Int) :
    Relocates lo S (fun placed => (placed.1.shift S.shift, Slots.shift S.shift placed.2))
      (readSlots count) (readSlots count) :=
  .bind .position fun start => .bind (Slots.readAll_relocates _) fun _ =>
    .bind (.spanFrom start) fun _ => .pure rfl

/-- Descriptions of slots further on: neither the texts nor the notices move, and the only fault
    blames no place. -/
theorem describeSlots_moved (p : Int) (span : Span) (slots : Slots) (c₁ c₂ : Cursor) :
    (describeSlots (Slots.shift p slots) >>= fun descriptions =>
      pure ⟨span.shift p, Slots.shift p slots, descriptions⟩ : Decoder Pool)
        (c₂.goto (c₁.pos + p)) =
      ((describeSlots slots >>= fun descriptions => pure ⟨span, slots, descriptions⟩ :
        Decoder Pool) c₁).moved p (shift p) c₂ := by
  have hnotices : (Description.all slots).2.map (Notice.shift p) = (Description.all slots).2 := by
    rw [List.map_congr_left (g := id), List.map_id]
    intro n hn
    obtain ⟨slot, rfl⟩ := Description.all_notices slots n hn
    rfl
  have hdescribe : ∀ (slots : Slots) (c : Cursor), describeSlots slots c =
      ⟨(Description.all slots).1, c, (Description.all slots).2⟩ := fun _ _ => rfl
  have hhere := hdescribe slots c₁
  have hthere := hdescribe (Slots.shift p slots) (c₂.goto (c₁.pos + p))
  rw [Description.all_shift] at hthere
  rcases hresult : (Description.all slots).1 with fault | descriptions <;>
    rw [hresult] at hhere hthere
  · obtain rfl : fault = .tooLarge := Description.all_fault hresult
    rw [bind_of_error hhere, bind_of_error hthere, Outcome.moved_error, hnotices]
    rfl
  · rw [bind_of_ok hhere, bind_of_ok hthere, Outcome.moved_behind, hnotices]
    rfl

/-- A pool further on has its constants and its place moved, and nothing else. -/
theorem read_moved {S : Setting} {c₁ c₂ : Cursor} (h : Twins S c₁ c₂) (count : Int) :
    read count c₂ = (read count c₁).moved S.shift (shift S.shift) c₂ := by
  have hslots := (readSlots_relocates count).within.moves c₁ c₂ h (Int.le_refl _)
  rw [read_eq_readSlots]
  rcases hrun : readSlots count c₁ with ⟨fault | ⟨span, slots⟩, c, notices⟩ <;> rw [hrun] at hslots
  · rw [Outcome.moved_error] at hslots
    rw [bind_of_error hrun, bind_of_error hslots, Outcome.moved_error]
  · rw [Outcome.moved_ok] at hslots
    rw [bind_of_ok hrun, bind_of_ok hslots, Outcome.moved_behind, describeSlots_moved]

end Pool

/-! ## §3. Parts of a buffer. -/

/-- A part of a buffer shows in place what it shows on its own. -/
theorem Cursor.twins_extract (data : Array UInt8) {p e : Nat} (hpe : p ≤ e) (he : e ≤ data.size) :
    Twins ⟨p, e - p + 1, e - p + 1⟩ (Cursor.ofBytes (data.extract p e))
      (Cursor.bounded data p (some e)) := by
  have hsize : (data.extract p e).size = e - p := by
    rw [Array.size_extract]
    omega
  have hstop : (Cursor.bounded data p (some e)).stop = e := by
    show min (e : Int) data.size = e
    omega
  refine ⟨⟨InBounds.ofBytes _, ⟨?_, ?_, ?_⟩, ?_, ?_⟩, ?_, ?_, ?_⟩
  · show (0 : Int) ≤ p
    omega
  · rw [hstop]
    show (p : Int) ≤ e
    omega
  · rw [hstop]
    show (e : Int) ≤ data.size
    omega
  · show ((data.extract p e).size : Int) - 0 < (e - p + 1 : Nat)
    omega
  · show (Cursor.bounded data p (some e)).stop - p < (e - p + 1 : Nat)
    omega
  · show (p : Int) = 0 + p
    omega
  · rw [hstop]
    show (e : Int) = (data.extract p e).size + p
    omega
  · intro i hi hie
    have hi : 0 ≤ i := hi
    have hie : i < ((data.extract p e).size : Int) := hie
    show data[(i + p).toNat]? = (data.extract p e)[i.toNat]?
    rw [Array.getElem?_extract, if_pos (by omega)]
    congr 1
    omega

/-- **A part of a buffer decodes in place as it decodes on its own**, with every position moved to
    where the part starts: code, an attribute, a list of attributes and a pool. -/
theorem decoding_independent_of_position (data : Array UInt8) (p e : Nat) (hpe : p ≤ e)
    (he : e ≤ data.size) (pool : Pool) (count : Int) (disassemble : Bool) :
    let here := Cursor.bounded data p (some e)
    let alone := Cursor.ofBytes (data.extract p e)
    Listing.read here = (Listing.read alone).moved p (Listing.shift p) here ∧
    Attribute.read pool disassemble here =
      (Attribute.read pool disassemble alone).moved p (Attribute.shift p) here ∧
    Attribute.readAll pool disassemble here =
      (Attribute.readAll pool disassemble alone).moved p (List.map (Attribute.shift p)) here ∧
    Pool.read count here = (Pool.read count alone).moved p (Pool.shift p) here := by
  intro here alone
  have htwins : Twins ⟨p, e - p + 1, e - p + 1⟩ alone here := Cursor.twins_extract data hpe he
  refine ⟨?_, ?_, ?_, ?_⟩
  · exact Listing.read_relocates.moves alone here htwins (Int.le_refl _)
  · exact (Attribute.read_relocates pool disassemble).within.moves alone here htwins (Int.le_refl _)
  · exact (Attribute.readAll_relocates pool disassemble).within.moves alone here htwins
      (Int.le_refl _)
  · exact Pool.read_moved htwins count

/-- Code at position 1 between two other bytes: a switch that is aligned within the code and not
    within the buffer, and one that is cut in its padding. -/
def unaligned : Array UInt8 := #[0xC4, 0, 0xAB, 7, 7, 0, 0, 0, 9, 0, 0, 0, 0, 0xAB, 0, 0x57]

theorem decoding_independent_of_position_unaligned :
    let instructions : List Instruction :=
      [⟨0, 0, "nop", 1, none, false, false⟩,
        ⟨1, 0xAB, "lookupswitch", 11, some (.lookupSwitch 9 []), false, false⟩]
    (Listing.read (Cursor.ofBytes (unaligned.extract 1 15))).result =
      .ok ⟨instructions, some (.truncated "switch padding" 3 1 13)⟩ ∧
    (Listing.read (Cursor.bounded unaligned 1 (some 15))).result =
      .ok ⟨instructions, some (.truncated "switch padding" 3 1 14)⟩ := by
  intro instructions
  obtain ⟨hcode, -, -, -⟩ := decoding_independent_of_position unaligned 1 15 (by decide) (by decide)
    ⟨⟨0, 0⟩, #[], #[]⟩ 1 true
  have halone : (Listing.read (Cursor.ofBytes (unaligned.extract 1 15))).result =
      .ok ⟨instructions, some (.truncated "switch padding" 3 1 13)⟩ := by
    set_option maxRecDepth 2000 in rfl
  refine ⟨halone, ?_⟩
  have hhere := congrArg Outcome.result hcode
  rw [Outcome.moved, halone] at hhere
  exact hhere

end JavaClass
