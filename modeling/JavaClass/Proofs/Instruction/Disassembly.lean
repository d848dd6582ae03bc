/-
  JavaClass.Proofs.Instruction.Disassembly — code and its instructions decide each other.

  Code that is read to its end is made of instructions that stand one behind the other, each with the
  operand that its operation takes and under the name of its operation, and each written as the bytes
  that it was read from (`Instruction.read_settles`).  What is read of an instruction leaves open only
  what means nothing in it: written again, it is the same byte for byte, but for its blanks, and for a
  negative count.

  `Listing.read_assembleAll` states both directions.
-/
import JavaClass.Proofs.Instruction.Assembly

namespace JavaClass

open Decoder

/-! ## §1. Operands as they are read. -/

theorem within_int8 (x : Int8) : Within 0x80 x.toInt := ⟨x.le_toInt, x.toInt_lt⟩
theorem within_int16 (x : Int16) : Within 0x8000 x.toInt := ⟨x.le_toInt, x.toInt_lt⟩
theorem within_int32 (x : Int32) : Within 0x80000000 x.toInt := ⟨x.le_toInt, x.toInt_lt⟩

namespace Operand

variable {p : Int}

theorem s1_yieldsAt (what : String) :
    (s1 what).YieldsAt p fun x bytes => bytes = Serial.s1 x.toInt :=
  (u1_yieldsAt what).bind fun _ _ h => .pure (by rw [h, List.append_nil, Serial.s1_toInt]; rfl)

theorem s2_yieldsAt (what : String) :
    (s2 what).YieldsAt p fun x bytes => bytes = Serial.s2 x.toInt :=
  (u2_yieldsAt what).bind fun _ _ h => .pure (by rw [h, List.append_nil, Serial.s2_toInt]; rfl)

theorem s4_yieldsAt (what : String) :
    (s4 what).YieldsAt p fun x bytes => bytes = Serial.s4 x.toInt :=
  (Decoder.s4_yieldsAt what).mono fun x _ h => by rw [h, Serial.s4_toInt]

/-- The operand is one that the layout asks for, and it is written as these bytes. -/
def Settled (offset : Int) (layout : Opcode.Layout) (operand : Option Operand)
    (bytes : List UInt8) : Prop :=
  Takes layout operand ∧ ∃ blank count, blank.length = blankSize offset layout ∧
    Counted count operand ∧ bytes = assemble blank count layout operand

theorem readPair_settles :
    readPair.YieldsAt p fun e bytes => (Within 0x80000000 e.1 ∧ Within 0x80000000 e.2) ∧
      bytes = Serial.s4 e.1 ++ Serial.s4 e.2 := by
  refine (s4_yieldsAt _).bind fun key b₁ h₁ => (s4_yieldsAt _).bind fun relative b₂ h₂ => .pure ?_
  refine ⟨⟨within_int32 key, within_int32 relative⟩, ?_⟩
  rw [h₁, h₂, List.append_nil]

theorem readTableSwitch_settles (offset : Int) :
    (readTableSwitch offset).YieldsAt p fun o bytes => Settled offset .tableSwitch (some o) bytes := by
  unfold readTableSwitch
  rw [padding_eq]
  have hoffset : ∀ q, (do return (← s4 "tableswitch offset").toInt : Decoder Int).YieldsAt q
      fun relative bytes => Within 0x80000000 relative ∧ bytes = Serial.s4 relative := by
    intro q
    refine (s4_yieldsAt _).bind fun x bytes h => .pure ⟨within_int32 x, ?_⟩
    rw [h, List.append_nil]
  refine (skip_yieldsAt _ _).bind fun _ blank hblank => (s4_yieldsAt _).bind fun default b₁ h₁ =>
    (s4_yieldsAt _).bind fun low b₂ h₂ => (s4_yieldsAt _).bind fun high b₃ h₃ =>
    (YieldsAt.many _ hoffset _).bind fun offsets b₄ h₄ => .pure ?_
  obtain ⟨hlength, hseries⟩ := h₄
  refine ⟨⟨within_int32 default, within_int32 low, within_int32 high, ?_,
    hseries.all fun _ _ _ h => h.1⟩, blank, 0, hblank, trivial, ?_⟩
  · omega
  · rw [h₁, h₂, h₃, hseries.eq_flatMap fun _ _ _ h => h.2, List.append_nil]
    rfl

theorem readLookupSwitch_settles (offset : Int) :
    (readLookupSwitch offset).YieldsAt p fun o bytes =>
      Settled offset .lookupSwitch (some o) bytes := by
  unfold readLookupSwitch
  rw [padding_eq]
  refine (skip_yieldsAt _ _).bind fun _ blank hblank => (s4_yieldsAt _).bind fun default b₁ h₁ =>
    (s4_yieldsAt _).bind fun count b₂ h₂ =>
    (YieldsAt.many _ (fun _ => readPair_settles) _).bind fun pairs b₃ h₃ => .pure ?_
  obtain ⟨hlength, hseries⟩ := h₃
  have hcount := within_int32 count
  refine ⟨⟨within_int32 default, ?_, hseries.all fun _ _ _ h => h.1⟩, blank, count.toInt, hblank,
    ⟨hcount, ?_⟩, ?_⟩
  · have := hcount.2
    omega
  · omega
  · rw [h₁, h₂, hseries.eq_flatMap fun _ _ _ h => h.2, List.append_nil]
    rfl

/-- An operand without blanks is written as it was read. -/
theorem settled_of_eq {offset : Int} {layout : Opcode.Layout} {operand : Option Operand}
    {bytes : List UInt8} (htakes : Takes layout operand) (hblank : blankSize offset layout = 0)
    (hcounted : Counted 0 operand) (hbytes : bytes = assemble [] 0 layout operand) :
    Settled offset layout operand bytes :=
  ⟨htakes, [], 0, hblank.symm, hcounted, hbytes⟩

/-- An operand that is one number is written as it was read. -/
theorem settles_of_number {α : Type} {d : Decoder α} {write : α → List UInt8}
    {f : α → Option Operand} {offset : Int} {layout : Opcode.Layout}
    (hd : d.YieldsAt p fun x bytes => bytes = write x) (hblank : blankSize offset layout = 0)
    (hf : ∀ x, Takes layout (f x) ∧ Counted 0 (f x) ∧ write x = assemble [] 0 layout (f x)) :
    (d >>= fun x => pure (f x)).YieldsAt p (Settled offset layout) := by
  refine hd.bind fun x bytes hbytes => .pure ?_
  obtain ⟨htakes, hcounted, hwrite⟩ := hf x
  refine settled_of_eq htakes hblank hcounted ?_
  rw [hbytes, hwrite, List.append_nil]

/-- Operands are written as they were read. -/
theorem read_settles (offset : Int) {layout : Opcode.Layout} (h : layout ≠ .wide) :
    (read offset layout).YieldsAt p (Settled offset layout) := by
  cases layout with
  | bare => exact .pure (settled_of_eq trivial rfl trivial rfl)
  | immediate1 => exact settles_of_number (s1_yieldsAt _) rfl fun x => ⟨within_int8 x, trivial, rfl⟩
  | immediate2 => exact settles_of_number (s2_yieldsAt _) rfl fun x => ⟨within_int16 x, trivial, rfl⟩
  | constant1 => exact settles_of_number (u1_yieldsAt _) rfl fun x => ⟨x.toNat_lt, trivial, rfl⟩
  | constant2 => exact settles_of_number (u2_yieldsAt _) rfl fun x => ⟨x.toNat_lt, trivial, rfl⟩
  | localSlot => exact settles_of_number (u1_yieldsAt _) rfl fun x => ⟨x.toNat_lt, trivial, rfl⟩
  | increment =>
    refine (u1_yieldsAt _).bind fun x b₁ h₁ => (s1_yieldsAt _).bind fun y b₂ h₂ =>
      .pure (settled_of_eq ⟨x.toNat_lt, within_int8 y⟩ rfl trivial ?_)
    rw [h₁, h₂, List.append_nil]
    rfl
  | branch2 => exact settles_of_number (s2_yieldsAt _) rfl fun x => ⟨within_int16 x, trivial, rfl⟩
  | branch4 => exact settles_of_number (s4_yieldsAt _) rfl fun x => ⟨within_int32 x, trivial, rfl⟩
  | interfaceCall =>
    refine (u2_yieldsAt _).bind fun x b₁ h₁ => (u1_yieldsAt _).bind fun y b₂ h₂ =>
      (skip_yieldsAt _ 1).bind fun _ blank hblank => .pure
        ⟨⟨x.toNat_lt, y.toNat_lt⟩, blank, 0, hblank, trivial, ?_⟩
    rw [h₁, h₂, List.append_nil]
    rfl
  | dynamicCall =>
    refine (u2_yieldsAt _).bind fun x b₁ h₁ => (skip_yieldsAt _ 2).bind fun _ blank hblank => .pure
      ⟨x.toNat_lt, blank, 0, hblank, trivial, ?_⟩
    rw [h₁, List.append_nil]
    rfl
  | arrayCode => exact settles_of_number (u1_yieldsAt _) rfl fun x => ⟨x.toNat_lt, trivial, rfl⟩
  | multiArray =>
    refine (u2_yieldsAt _).bind fun x b₁ h₁ => (u1_yieldsAt _).bind fun y b₂ h₂ =>
      .pure (settled_of_eq ⟨x.toNat_lt, y.toNat_lt⟩ rfl trivial ?_)
    rw [h₁, h₂, List.append_nil]
    rfl
  | tableSwitch =>
    refine (readTableSwitch_settles offset).bind fun o bytes h => .pure ?_
    rw [List.append_nil]
    exact h
  | lookupSwitch =>
    refine (readLookupSwitch_settles offset).bind fun o bytes h => .pure ?_
    rw [List.append_nil]
    exact h
  | wide => exact absurd rfl h

/-- The number of pairs is a count of them. -/
theorem Takes.counted {layout : Opcode.Layout} {operand : Option Operand} (h : Takes layout operand) :
    Counted (pairCount operand) operand := by
  unfold Counted
  split
  next default pairs =>
    have hpairs : pairs.length < 0x80000000 := by
      cases layout with
      | lookupSwitch => exact h.2.1
      | _ => cases h
    show Within 0x80000000 pairs.length ∧ _ = max 0 (pairs.length : Int)
    unfold Within
    omega
  next => trivial

/-- Widened operations count nothing. -/
theorem TakesWide.counted {layout : Opcode.Layout} {operand : Option Operand}
    (h : TakesWide layout operand) (count : Int) : Counted count operand := by
  unfold TakesWide at h
  split at h
  · trivial
  · trivial
  · exact absurd h id

end Operand

/-! ## §2. Instructions as they are read. -/

namespace Instruction

variable {p codeStart : Int}

/-- What was read of an instruction at `p` settles it. -/
theorem settled_of_written {i : Instruction} {bytes : List UInt8} (hoffset : i.offset = p - codeStart)
    (hmnemonic : i.mnemonic = i.title) (hreserved : i.reserved = i.isReserved)
    (hlength : i.length = bytes.length) (hfits : i.Fits) (hwritten : i.WrittenAs bytes) :
    Settled codeStart p i bytes := by
  refine ⟨⟨hfits, hmnemonic, hreserved, ?_⟩, hoffset, hwritten⟩
  rw [hlength, hwritten.length_eq]

theorem settled_narrow {opcode : UInt8} {operand : Option Operand} {bytes : List UInt8}
    (hopcode : opcode ≠ Opcode.widener)
    (h : Operand.Settled (p - codeStart) (Opcode.layout opcode) operand bytes) :
    Settled codeStart p
      ⟨p - codeStart, opcode, Opcode.mnemonic opcode.toNat, (opcode :: bytes).length, operand, false,
        Opcode.isReserved opcode⟩ (opcode :: bytes) := by
  obtain ⟨htakes, blank, count, hblank, hcounted, rfl⟩ := h
  rw [← Opcode.ofName_name] at htakes hblank ⊢
  rw [Opcode.mnemonic_eq_name, Opcode.isReserved_eq]
  refine settled_of_written rfl rfl rfl rfl ⟨hopcode, htakes⟩
    ⟨blank, count, hblank, hcounted, ?_, rfl⟩
  intro hstray
  cases hstray.1

theorem settled_wide {opcode : UInt8} {operand : Option Operand} {length : Int}
    (hwidenable : Opcode.isWidenable opcode = true)
    (htakes : Operand.TakesWide (Opcode.layout opcode) operand)
    (hlength : length = 2 + (Operand.assembleWide operand).length) :
    Settled codeStart p
      ⟨p - codeStart, opcode, "wide " ++ Opcode.mnemonic opcode.toNat, length, operand, true, false⟩
      (Opcode.widener :: opcode :: Operand.assembleWide operand) := by
  have hopcode : opcode ≠ Opcode.widener := by
    rintro rfl
    cases hwidenable
  rw [← Opcode.ofName_name] at htakes
  rw [Opcode.mnemonic_eq_name]
  refine settled_of_written rfl ?_ rfl ?_ ?_ ⟨[], Operand.pairCount operand, ?_, ?_, ?_, ?_⟩
  · unfold title
    rw [if_pos rfl, if_neg hopcode]
  · show length = _
    rw [hlength, List.length_cons, List.length_cons]
    omega
  · unfold Fits
    rw [if_pos rfl, if_neg hopcode]
    exact htakes
  · unfold blankSize
    rw [if_pos rfl, if_neg hopcode]
    rfl
  · exact htakes.counted _
  · intro hstray
    exact absurd hstray.2 hopcode
  · unfold assembleWith
    rw [if_pos rfl, if_neg hopcode]

theorem settled_stray {target : UInt8} (htarget : Opcode.isWidenable target = false) :
    Settled codeStart p ⟨p - codeStart, Opcode.widener, "wide <unknown>", 2, none, true, false⟩
      [Opcode.widener, target] := by
  refine settled_of_written rfl rfl rfl rfl rfl ⟨[target], 0, rfl, trivial, ?_, rfl⟩
  intro _ b hb
  rw [List.mem_singleton.mp hb, htarget]

/-- What follows a widener at `p` settles the instruction there. -/
theorem readWidened_settles {q : Int} :
    (readWidened (p - codeStart)).YieldsAt q fun i bytes =>
      Settled codeStart p i (Opcode.widener :: bytes) := by
  refine (u1_yieldsAt _).bind fun target b₁ h₁ => ?_
  obtain rfl : b₁ = [target] := by rw [h₁, Serial.u1_eq]
  cases hwidenable : Opcode.isWidenable target with
  | true =>
    rw [if_pos rfl]
    refine (u2_yieldsAt _).bind fun index b₂ h₂ => ?_
    by_cases hlayout : Opcode.layout target = .increment
    · rw [if_pos hlayout]
      refine (Operand.s2_yieldsAt _).bind fun amount b₃ h₃ => .pure ?_
      rw [h₂, h₃, List.append_nil]
      refine settled_wide hwidenable ?_ rfl
      rw [hlayout]
      exact ⟨index.toNat_lt, within_int16 amount⟩
    · rw [if_neg hlayout]
      refine .pure ?_
      rw [h₂, List.append_nil]
      refine settled_wide hwidenable ?_ rfl
      -- What can be widened and is no increment works on a local variable.
      have hslot : Opcode.layout target = .localSlot := by
        unfold Opcode.isWidenable at hwidenable
        simpa [hlayout] using hwidenable
      rw [hslot]
      exact index.toNat_lt
  | false =>
    rw [if_neg Bool.false_ne_true]
    exact .pure (settled_stray hwidenable)

/-- Instructions are written as they were read. -/
theorem read_settles : (read codeStart).YieldsAt p (Settled codeStart p) := by
  refine .position_bind ((u1_yieldsAt _).bind fun opcode b₁ h₁ => ?_)
  obtain rfl : b₁ = [opcode] := by rw [h₁, Serial.u1_eq]
  by_cases hopcode : opcode = Opcode.widener
  · rw [if_pos hopcode, hopcode]
    exact readWidened_settles
  · rw [if_neg hopcode]
    have hlayout : Opcode.layout opcode ≠ .wide := fun hwide =>
      hopcode ((Opcode.layout_eq_wide_iff opcode).mp hwide)
    refine (Operand.read_settles _ hlayout).bind fun operand b₂ h₂ =>
      .spanFrom_bind (n := (opcode :: b₂).length) ?_ (.pure ?_)
    · simp only [List.length_cons, List.length_nil]
      omega
    · rw [List.append_nil]
      exact settled_narrow hopcode h₂

end Instruction

/-! ## §3. Code as it is read. -/

namespace Listing

theorem MadeOf.nil {codeStart : Int} {c : Cursor} (hc : c.InBounds) (hend : c.atEnd = true) :
    MadeOf codeStart c [] := by
  refine ⟨[], .nil hc, ?_, rfl⟩
  have hle := hc.2.1
  have hge := c.atEnd_iff.mp hend
  rw [List.length_nil]
  omega

theorem MadeOf.cons {codeStart : Int} {c : Cursor} {i : Instruction} {first : List UInt8}
    {rest : List Instruction} (hfirst : c.Holds first)
    (hi : Instruction.Settled codeStart c.pos i first)
    (hrest : MadeOf codeStart (c.goto (c.pos + first.length)) rest) :
    MadeOf codeStart c (i :: rest) := by
  obtain ⟨later, hlater, hstop, hseries⟩ := hrest
  refine ⟨first ++ later, .append hfirst hlater, ?_, first, later, rfl, hi, hseries⟩
  have hstop : c.stop = c.pos + first.length + later.length := hstop
  rw [List.length_append]
  omega

/-- At the end of the code, nothing more is read. -/
theorem madeOf_atEnd {codeStart : Int} {count : Nat} {done list : List Instruction} {c : Cursor}
    (hc : c.InBounds) (hend : c.atEnd = true)
    (h : (readFrom codeStart count done c).result = .ok ⟨list, none⟩) :
    ∃ rest, list = done.reverse ++ rest ∧ MadeOf codeStart c rest := by
  rw [readFrom_atEnd _ _ _ hend] at h
  obtain rfl : done.reverse = list := congrArg Listing.instructions (Except.ok.inj h)
  exact ⟨[], (List.append_nil _).symm, .nil hc hend⟩

/-- Code that is read to its end is made of the instructions that are read. -/
theorem readFrom_settles (codeStart : Int) {count : Nat} {done list : List Instruction} {c : Cursor}
    (hc : c.InBounds) (hcount : c.stop - c.pos ≤ count)
    (h : (readFrom codeStart count done c).result = .ok ⟨list, none⟩) :
    ∃ rest, list = done.reverse ++ rest ∧ MadeOf codeStart c rest := by
  induction count generalizing done c with
  | zero => exact madeOf_atEnd hc (c.atEnd_iff.mpr (by omega)) h
  | succ count ih =>
    by_cases hend : c.atEnd = true
    · exact madeOf_atEnd hc hend h
    rw [readFrom, if_neg hend] at h
    rcases hrun : Instruction.read codeStart c with ⟨fault | i, c₁, notices⟩ <;> rw [hrun] at h
    · cases h
    · obtain ⟨first, rfl, hroom, hpeek, hi⟩ := Instruction.read_settles.of_run hc hrun
      -- An instruction takes up a byte, so the count still covers what is left.
      have hfirst := hi.2.2.length_pos
      have hleft : c.stop - (c.pos + first.length) ≤ count := by omega
      obtain ⟨rest, rfl, hrest⟩ := ih (hc.goto (by omega) hroom) hleft h
      refine ⟨i :: rest, ?_, .cons ⟨hc, hroom, hpeek.symm⟩ hi hrest⟩
      rw [List.reverse_cons, List.append_assoc, List.singleton_append]

/-- Code is read as the instructions that it is made of, and as no others. -/
theorem read_eq_iff {c : Cursor} (hc : c.InBounds) (list : List Instruction) :
    (read c).result = .ok ⟨list, none⟩ ↔ MadeOf c.pos c list := by
  refine ⟨fun h => ?_, read_written⟩
  obtain ⟨rest, rfl, hrest⟩ := readFrom_settles c.pos hc (Int.self_le_toNat c.remaining) h
  exact hrest

end Listing

/-! ## §4. What instructions leave open. -/

/-- Bytes around a hole do not depend on what stands in it. -/
theorem getElem?_replace (before after : List UInt8) {hole hole' : List UInt8}
    (h : hole.length = hole'.length) {k : Nat}
    (hk : ¬ (before.length ≤ k ∧ k < before.length + hole.length)) :
    (before ++ (hole ++ after))[k]? = (before ++ (hole' ++ after))[k]? := by
  by_cases hbefore : k < before.length
  · rw [List.getElem?_append_left hbefore, List.getElem?_append_left hbefore]
  · have hbehind : hole.length ≤ k - before.length := by omega
    rw [List.getElem?_append_right (by omega), List.getElem?_append_right hbehind,
      List.getElem?_append_right (by omega), List.getElem?_append_right (h ▸ hbehind), h]

theorem Operand.eq_of_takes_lookupSwitch {operand : Option Operand} (h : Takes .lookupSwitch operand) :
    ∃ default pairs, operand = some (.lookupSwitch default pairs) := by
  match operand with
  | some (.lookupSwitch default pairs) => exact ⟨default, pairs, rfl⟩

/-- A negative number starts with a byte of the upper half. -/
theorem Serial.s4_of_neg {v : Int} (h : Within 0x80000000 v) (hneg : v < 0) :
    ∃ b, (Serial.s4 v)[0]? = some b ∧ 0x80 ≤ b := by
  obtain ⟨x, rfl⟩ := exists_int32 h
  have hlarge : 0x80000000 ≤ x.toUInt32.toNat := by
    have := BitVec.toInt_neg_iff.mp hneg
    show 0x80000000 ≤ x.toBitVec.toNat
    omega
  have hsmall := x.toUInt32.toNat_lt
  rw [Serial.s4_toInt]
  refine ⟨UInt8.ofNat (x.toUInt32.toNat / 256 / 256 / 256), rfl, ?_⟩
  rw [UInt8.le_iff_toNat_le, UInt8.toNat_ofNat']
  show 128 ≤ _
  omega

/-- The bytes of an operand depend on the blanks only where these stand, and on the count only where
    this is written. -/
theorem Operand.getElem?_assemble (layout : Opcode.Layout) (operand : Option Operand)
    {blank blank' : List UInt8} (hblank : blank.length = blank'.length) {count count' : Int} {k : Nat}
    (hk : ¬ (blankStart layout ≤ k ∧ k < blankStart layout + blank.length))
    (hcount : count = count' ∨
      ¬ (layout = .lookupSwitch ∧ blank.length + 4 ≤ k ∧ k < blank.length + 8)) :
    (assemble blank count layout operand)[k]? = (assemble blank' count' layout operand)[k]? := by
  unfold assemble
  -- Four layouts have blanks: the two calls and the two switches.
  split
  case h_9 index arguments =>
    have h := getElem?_replace (Serial.natural 2 index ++ Serial.natural 1 arguments) [] hblank hk
    simpa only [List.append_nil, List.append_assoc] using h
  case h_10 index =>
    have h := getElem?_replace (Serial.natural 2 index) [] hblank hk
    simpa only [List.append_nil] using h
  case h_13 => exact getElem?_replace [] _ hblank hk
  case h_14 default pairs =>
    -- First the blanks are replaced, then the count.
    refine (getElem?_replace [] _ hblank hk).trans ?_
    obtain rfl | hoff := hcount
    · rfl
    have hlength : (Serial.s4 count).length = (Serial.s4 count').length := rfl
    have h := getElem?_replace (blank' ++ Serial.s4 default)
      (pairs.flatMap fun e => Serial.s4 e.1 ++ Serial.s4 e.2) hlength (k := k) ?_
    · simpa only [List.nil_append, List.append_assoc] using h
    · simp only [List.length_append, Serial.length_s4, ← hblank]
      intro hin
      exact hoff ⟨rfl, by omega, by omega⟩
  all_goals rfl

namespace Instruction

/-- The place of the count of a switch over single keys. -/
def countStart (i : Instruction) : Int := i.offset + 5 + i.blankSize

/-- The byte at `k` of code means nothing for the instruction: it is blank, or part of a negative
    count. -/
def Ignores (code : List UInt8) (i : Instruction) (k : Int) : Prop :=
  (i.offset + i.blankStart ≤ k ∧ k < i.offset + i.blankStart + i.blankSize) ∨
  (i.form = .lookupSwitch ∧ i.countStart ≤ k ∧ k < i.countStart + 4 ∧
    ∃ b, code[i.countStart.toNat]? = some b ∧ 0x80 ≤ b)

/-- A count that is not the number of pairs is negative, and means nothing. -/
theorem ignores_of_count_ne {i : Instruction} (hwide : i.wide = false) (hform : i.form = .lookupSwitch)
    (hfits : i.Fits) {blank : List UInt8} {count : Int} (hblank : blank.length = i.blankSize)
    (hcounted : Operand.Counted count i.operand) (hne : Operand.pairCount i.operand ≠ count)
    {before : List UInt8} (hoffset : i.offset = before.length) (after : List UInt8) {k : Int}
    (hk : i.countStart ≤ k ∧ k < i.countStart + 4) :
    i.Ignores (before ++ (i.assembleWith blank count ++ after)) k := by
  refine .inr ⟨hform, hk.1, hk.2, ?_⟩
  unfold Fits at hfits
  unfold assembleWith
  rw [hwide, if_neg Bool.false_ne_true, hform] at hfits ⊢
  obtain ⟨default, pairs, hoperand⟩ := Operand.eq_of_takes_lookupSwitch hfits.2
  rw [hoperand] at hcounted hne ⊢
  -- The number of pairs is the count or zero, so a count that is neither is negative.
  have hnumber : (pairs.length : Int) ≠ count := hne
  obtain ⟨hwithin, hlength⟩ := hcounted
  obtain ⟨b, hb, hlarge⟩ := Serial.s4_of_neg hwithin (by omega)
  refine ⟨b, ?_, hlarge⟩
  have hplace : i.countStart.toNat = (before ++ (i.opcode :: (blank ++ Serial.s4 default))).length := by
    unfold countStart
    simp only [List.length_append, List.length_cons, Serial.length_s4]
    omega
  have hbytes : before ++ (i.opcode :: Operand.assemble blank count .lookupSwitch
      (some (.lookupSwitch default pairs)) ++ after) =
      (before ++ (i.opcode :: (blank ++ Serial.s4 default))) ++ (Serial.s4 count ++
        ((pairs.flatMap fun e => Serial.s4 e.1 ++ Serial.s4 e.2) ++ after)) := by
    simp only [Operand.assemble, List.append_assoc, List.cons_append]
  rw [hbytes, hplace, List.getElem?_append_right (Nat.le_refl _), Nat.sub_self,
    List.getElem?_append_left (by rw [Serial.length_s4]; decide), hb]

/-- The bytes of an instruction depend on the blanks only where these stand, and on the count only
    where this is written. -/
theorem getElem?_assembleWith (i : Instruction) {blank blank' : List UInt8}
    (hblank : blank.length = i.blankSize) (hblank' : blank'.length = i.blankSize) {count count' : Int}
    {k : Nat} (hk : ¬ (i.blankStart ≤ k ∧ k < i.blankStart + i.blankSize))
    (hcount : count = count' ∨ ¬ (i.wide = false ∧ i.form = .lookupSwitch ∧
      i.blankSize + 5 ≤ k ∧ k < i.blankSize + 9)) :
    (i.assembleWith blank count)[k]? = (i.assembleWith blank' count')[k]? := by
  rw [← hblank] at hk hcount
  have hlength : blank.length = blank'.length := by rw [hblank, hblank']
  unfold blankStart at hk
  unfold assembleWith
  cases hwide : i.wide with
  | true =>
    rw [hwide, if_pos rfl] at hk
    rw [if_pos rfl, if_pos rfl]
    by_cases hwidener : i.opcode = Opcode.widener
    · rw [if_pos hwidener, if_pos hwidener]
      have h := getElem?_replace [Opcode.widener] [] hlength hk
      simpa only [List.append_nil, List.singleton_append] using h
    · rw [if_neg hwidener, if_neg hwidener]
  | false =>
    rw [hwide, if_neg Bool.false_ne_true] at hk
    rw [if_neg Bool.false_ne_true, if_neg Bool.false_ne_true]
    cases k with
    | zero => rfl
    | succ k =>
      rw [List.getElem?_cons_succ, List.getElem?_cons_succ]
      refine Operand.getElem?_assemble _ _ hlength (by omega) (hcount.imp id ?_)
      rintro hoff ⟨hform, hlo, hhi⟩
      exact hoff ⟨hwide, hform, by omega, by omega⟩

/-- Written again, an instruction is the same where its bytes mean something. -/
theorem Settled.getElem?_assemble {p : Int} {i : Instruction} {bytes : List UInt8}
    (h : Settled 0 p i bytes) {before : List UInt8} (hp : p = before.length) (after : List UInt8)
    {k : Nat} (hk : ¬ i.Ignores (before ++ (bytes ++ after)) (before.length + k)) :
    i.assemble[k]? = bytes[k]? := by
  obtain ⟨⟨hfits, -⟩, hoffset, blank, count, hblank, hcounted, -, rfl⟩ := h
  rw [hp, Int.sub_zero] at hoffset
  refine i.getElem?_assembleWith List.length_replicate hblank ?_ ?_
  · intro hin
    exact hk (.inl (by omega))
  · by_cases hne : Operand.pairCount i.operand = count
    · exact .inl hne
    refine .inr fun ⟨hwide, hform, hlo, hhi⟩ => ?_
    refine hk (ignores_of_count_ne hwide hform hfits hblank hcounted hne hoffset after ?_)
    unfold countStart
    omega

/-! ## §5. Code and instructions. -/

/-- The place of an instruction in its code. -/
def place (i : Instruction) : Span := ⟨i.offset, i.length⟩

/-- The bytes of instructions, one behind the other. -/
def assembleAll (list : List Instruction) : List UInt8 := list.flatMap assemble

variable {p : Int} {list : List Instruction}

theorem Fits.counted {i : Instruction} (h : i.Fits) :
    Operand.Counted (Operand.pairCount i.operand) i.operand := by
  unfold Fits at h
  split at h
  · split at h
    · rw [h]
      trivial
    · exact h.counted _
  · exact h.2.counted

theorem Assemblable.settled {i : Instruction} (h : i.Assemblable) (hoffset : i.offset = p) :
    Settled 0 p i i.assemble := by
  refine ⟨h, by omega, List.replicate i.blankSize 0, Operand.pairCount i.operand,
    List.length_replicate, h.fits.counted, ?_, rfl⟩
  intro _ b hb
  rw [List.eq_of_mem_replicate hb]
  decide

/-- Instructions that stand one behind the other make up code. -/
theorem series_assembleAll {stop : Int} (hall : ∀ i ∈ list, i.Assemblable)
    (h : Tiles place p list stop) : Series (Settled 0) p list (assembleAll list) := by
  induction list generalizing p with
  | nil => rfl
  | cons i rest ih =>
    have hi := hall i List.mem_cons_self
    refine ⟨i.assemble, assembleAll rest, List.flatMap_cons, hi.settled h.1, ?_⟩
    have hrest : Tiles place (p + i.length) rest stop := h.2
    rw [hi.length] at hrest
    exact ih (fun j hj => hall j (List.mem_cons_of_mem i hj)) hrest

theorem Settled.place_eq {i : Instruction} {bytes : List UInt8} (h : Settled 0 p i bytes) :
    i.place = ⟨p, bytes.length⟩ := by
  unfold place
  rw [h.1.length, h.2.2.length_eq, h.2.1, Int.sub_zero]

theorem length_assembleAll {content : List UInt8} (h : Series (Settled 0) p list content) :
    (assembleAll list).length = content.length := by
  induction list generalizing p content with
  | nil =>
    obtain rfl : content = [] := h
    rfl
  | cons i rest ih =>
    obtain ⟨first, later, rfl, hfirst, hrest⟩ := h
    unfold assembleAll at ih ⊢
    rw [List.flatMap_cons, List.length_append, List.length_append, ih hrest, hfirst.2.2.length_eq]

/-- Written again, code is the same where its bytes mean something. -/
theorem getElem?_assembleAll (before : List UInt8) {content : List UInt8}
    (h : Series (Settled 0) p list content) (hp : p = before.length) {k : Nat}
    (hk : ∀ i ∈ list, ¬ i.Ignores (before ++ content) (before.length + k)) :
    (assembleAll list)[k]? = content[k]? := by
  induction list generalizing p before content k with
  | nil =>
    obtain rfl : content = [] := h
    rfl
  | cons i rest ih =>
    obtain ⟨first, later, rfl, hfirst, hrest⟩ := h
    have hlength := hfirst.2.2.length_eq
    show (i.assemble ++ assembleAll rest)[k]? = _
    by_cases hin : k < first.length
    · rw [List.getElem?_append_left hin, List.getElem?_append_left (hlength ▸ hin)]
      exact hfirst.getElem?_assemble hp later (hk i List.mem_cons_self)
    -- The byte belongs to a later instruction, for which the first one stands before.
    · rw [List.getElem?_append_right (by omega), List.getElem?_append_right (by omega), hlength]
      refine ih (before ++ first) hrest ?_ ?_
      · rw [List.length_append]
        omega
      · intro j hj
        have hplace : ((before ++ first).length : Int) + (k - first.length : Nat) =
            before.length + k := by
          rw [List.length_append]
          omega
        rw [hplace, List.append_assoc]
        exact hk j (List.mem_cons_of_mem i hj)

end Instruction

namespace Listing

/-- The instructions of code and the code decide each other.  Instructions that stand one behind the
    other, each with the operand that its operation takes, its name, the mark of reserved operations and
    its own length, come back when the code that they are written as is read.  Code that is read to its
    end yields such instructions, and written again they are that code, but for the bytes that mean
    nothing. -/
theorem read_assembleAll :
    (∀ (list : List Instruction) (stop : Int), (∀ i ∈ list, i.Assemblable) →
      Tiles Instruction.place 0 list stop →
      (read (.ofBytes (Instruction.assembleAll list).toArray)).result = .ok ⟨list, none⟩) ∧
    ∀ (code : Array UInt8) (list : List Instruction),
      (read (.ofBytes code)).result = .ok ⟨list, none⟩ →
      (∀ i ∈ list, i.Assemblable) ∧ Tiles Instruction.place 0 list code.size ∧
        (Instruction.assembleAll list).length = code.size ∧
        ∀ k : Nat, (∀ i ∈ list, ¬ i.Ignores code.toList k) →
          (Instruction.assembleAll list)[k]? = code[k]? := by
  refine ⟨fun list stop hall htiles => ?_, fun code list h => ?_⟩
  · refine read_written ⟨Instruction.assembleAll list, ?_, ?_,
      Instruction.series_assembleAll hall htiles⟩
    · have hholds := Cursor.Holds.middle [] (Instruction.assembleAll list) []
      rw [List.append_nil] at hholds
      exact hholds
    · exact (Int.zero_add _).symm
  · obtain ⟨content, hholds, hstop, hseries⟩ := (read_eq_iff (Cursor.InBounds.ofBytes code) list).mp h
    have hsize : code.size = content.length := by
      have hstop : (code.size : Int) = 0 + content.length := hstop
      omega
    obtain rfl := hholds.eq_toList hsize
    refine ⟨hseries.all fun _ _ _ hi => hi.1, ?_, ?_, fun k hk => ?_⟩
    · exact (Tiles.of_series (fun _ _ _ hi => hi.place_eq) hseries).cast rfl (Int.zero_add _)
    · exact Instruction.length_assembleAll hseries
    · rw [← Array.getElem?_toList]
      refine Instruction.getElem?_assembleAll [] hseries rfl fun i hi => ?_
      rw [List.nil_append, List.length_nil, Int.natCast_zero, Int.zero_add]
      exact hk i hi

/-- Code with blanks that are not zero, a switch with a negative count, a widened operation, a reserved
    one, and an opcode without a name. -/
def oddCode : Array UInt8 :=
  #[0x10, 0xFB, 0xAB, 1, 0, 0, 0, 9, 0xFF, 0xFF, 0xFF, 0xFE, 0xBA, 0, 7, 2, 3, 0xC4, 0x84, 1,
    0x2C, 0xFF, 0xFE, 0xCA, 0xCB]

/-- The instructions of that code. -/
def oddList : List Instruction := [
  ⟨0, 0x10, "bipush", 2, some (.immediate (-5)), false, false⟩,
  ⟨2, 0xAB, "lookupswitch", 10, some (.lookupSwitch 9 []), false, false⟩,
  ⟨12, 0xBA, "invokedynamic", 5, some (.poolIndex 7), false, false⟩,
  ⟨17, 0x84, "wide iinc", 6, some (.localIncrement 300 (-2)), true, false⟩,
  ⟨23, 0xCA, "breakpoint", 1, none, false, true⟩,
  ⟨24, 0xCB, "unknown", 1, none, false, false⟩]

theorem read_oddCode : (read (.ofBytes oddCode)).result = .ok ⟨oddList, none⟩ := by
  set_option maxRecDepth 2000 in rfl

/-- That code, cut in the blanks of its switch. -/
theorem read_oddCode_cut : (read (.ofBytes (oddCode.extract 0 3))).result =
    .ok ⟨oddList.take 1, some (.truncated "switch padding" 1 0 3)⟩ := by
  set_option maxRecDepth 2000 in rfl

theorem read_assembleAll_odd :
    (read (.ofBytes oddCode)).result = .ok ⟨oddList, none⟩ ∧
      Instruction.assembleAll oddList = [0x10, 0xFB, 0xAB, 0, 0, 0, 0, 9, 0, 0, 0, 0, 0xBA, 0, 7, 0, 0,
        0xC4, 0x84, 1, 0x2C, 0xFF, 0xFE, 0xCA, 0xCB] ∧
      (read (.ofBytes (Instruction.assembleAll oddList).toArray)).result = .ok ⟨oddList, none⟩ ∧
      ∀ k : Nat, (∀ i ∈ oddList, ¬ i.Ignores oddCode.toList k) →
        (Instruction.assembleAll oddList)[k]? = oddCode[k]? := by
  obtain ⟨hall, htiles, -, hsame⟩ := read_assembleAll.2 oddCode oddList read_oddCode
  exact ⟨read_oddCode, by decide +kernel, read_assembleAll.1 oddList _ hall htiles, hsame⟩

end Listing

end JavaClass
