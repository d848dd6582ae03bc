/-
  JavaClass.Proofs.Instruction.Assembly — instructions written as code.

  Which operand an operation takes is listed here by the names of the operations (`Layout.ofName`), and
  an instruction is written as its operation and its operand.  Its name and its mark are those that its
  operation has by the system of names (`Nomenclature`).  Some bytes of an instruction mean
  nothing: the padding of a switch, the bytes behind a call of an interface or of a call site, and the
  operation that a widener could not widen.  They are blank, and written as zeros; `assembleWith` writes
  any bytes in their place.  The count of a switch over single keys means nothing either if it is
  negative: the switch has no keys then.

  `Listing.read_written` reads such code: whatever stands in the blanks, the instructions come back.
-/
import JavaClass.Instruction.Decoder
import JavaClass.Proofs.Instruction.Nomenclature
import JavaClass.Proofs.Serial.Account

namespace JavaClass

open Decoder

/-! ## §1. What operations take. -/

namespace Opcode

/-- What follows an operation, by its name. -/
def Layout.ofName : String → Layout
  | "bipush" => .immediate1
  | "sipush" => .immediate2
  | "ldc" => .constant1
  | "ldc_w" | "ldc2_w" | "getstatic" | "putstatic" | "getfield" | "putfield" | "invokevirtual"
  | "invokespecial" | "invokestatic" | "new" | "anewarray" | "checkcast" | "instanceof" => .constant2
  | "iload" | "lload" | "fload" | "dload" | "aload" | "istore" | "lstore" | "fstore" | "dstore"
  | "astore" | "ret" => .localSlot
  | "iinc" => .increment
  | "ifeq" | "ifne" | "iflt" | "ifge" | "ifgt" | "ifle" | "if_icmpeq" | "if_icmpne" | "if_icmplt"
  | "if_icmpge" | "if_icmpgt" | "if_icmple" | "if_acmpeq" | "if_acmpne" | "goto" | "jsr" | "ifnull"
  | "ifnonnull" => .branch2
  | "goto_w" | "jsr_w" => .branch4
  | "invokeinterface" => .interfaceCall
  | "invokedynamic" => .dynamicCall
  | "newarray" => .arrayCode
  | "multianewarray" => .multiArray
  | "tableswitch" => .tableSwitch
  | "lookupswitch" => .lookupSwitch
  | "wide" => .wide
  | _ => .bare

/-- The operations are told apart by number as they are by name. -/
theorem ofName_name (opcode : UInt8) : Layout.ofName (Nomenclature.name opcode) = layout opcode := by
  have hall : ∀ n : Fin 256,
      Layout.ofName (mnemonic (UInt8.ofNat n).toNat) = layout (UInt8.ofNat n) := by
    decide +kernel
  have h := hall ⟨opcode.toNat, opcode.toNat_lt⟩
  rwa [UInt8.ofNat_toNat, mnemonic_eq_name] at h

theorem layout_eq_wide_iff (opcode : UInt8) : layout opcode = .wide ↔ opcode = widener := by
  have hall : ∀ n : Fin 256, layout (UInt8.ofNat n) = .wide ↔ UInt8.ofNat n = widener := by
    decide +kernel
  have h := hall ⟨opcode.toNat, opcode.toNat_lt⟩
  rwa [UInt8.ofNat_toNat] at h

end Opcode

/-- The number is a signed one, of which `half` are negative. -/
def Within (half v : Int) : Prop := -half ≤ v ∧ v < half

namespace Operand

open Opcode (Layout)

/-- The operand is one that a layout asks for. -/
def Takes : Layout → Option Operand → Prop
  | .bare, none => True
  | .immediate1, some (.immediate value) => Within 0x80 value
  | .immediate2, some (.immediate value) => Within 0x8000 value
  | .constant1, some (.poolIndex index) => index < 0x100
  | .constant2, some (.poolIndex index) => index < 0x10000
  | .localSlot, some (.localIndex index) => index < 0x100
  | .increment, some (.localIncrement index amount) => index < 0x100 ∧ Within 0x80 amount
  | .branch2, some (.branch relative) => Within 0x8000 relative
  | .branch4, some (.branch relative) => Within 0x80000000 relative
  | .interfaceCall, some (.poolIndexCount index count) => index < 0x10000 ∧ count < 0x100
  | .dynamicCall, some (.poolIndex index) => index < 0x10000
  | .arrayCode, some (.arrayType code) => code < 0x100
  | .multiArray, some (.poolIndexCount index count) => index < 0x10000 ∧ count < 0x100
  | .tableSwitch, some (.tableSwitch default low high offsets) =>
    Within 0x80000000 default ∧ Within 0x80000000 low ∧ Within 0x80000000 high ∧
      (offsets.length : Int) = max 0 (high - low + 1) ∧
      ∀ relative ∈ offsets, Within 0x80000000 relative
  | .lookupSwitch, some (.lookupSwitch default pairs) =>
    Within 0x80000000 default ∧ pairs.length < 0x80000000 ∧
      ∀ e ∈ pairs, Within 0x80000000 e.1 ∧ Within 0x80000000 e.2
  | _, _ => False

/-- The operand is one that a widened operation asks for. -/
def TakesWide : Layout → Option Operand → Prop
  | .localSlot, some (.localIndex index) => index < 0x10000
  | .increment, some (.localIncrement index amount) => index < 0x10000 ∧ Within 0x8000 amount
  | _, _ => False

/-- The number of pairs can be written as `count`: a negative count stands for none. -/
def Counted (count : Int) : Option Operand → Prop
  | some (.lookupSwitch _ pairs) => Within 0x80000000 count ∧ (pairs.length : Int) = max 0 count
  | _ => True

/-- The number of pairs of a switch. -/
def pairCount : Option Operand → Int
  | some (.lookupSwitch _ pairs) => pairs.length
  | _ => 0

end Operand

/-! ## §2. Bytes. -/

namespace Serial

/-- A signed number of one byte. -/
def s1 (v : Int) : List UInt8 := u1 (Int8.ofInt v).toUInt8

/-- A signed number of two bytes. -/
def s2 (v : Int) : List UInt8 := u2 (Int16.ofInt v).toUInt16

/-- A signed number of four bytes. -/
def s4 (v : Int) : List UInt8 := u4 (Int32.ofInt v).toUInt32

@[simp] theorem length_s1 (v : Int) : (s1 v).length = 1 := length_u1 _
@[simp] theorem length_s2 (v : Int) : (s2 v).length = 2 := length_u2 _
@[simp] theorem length_s4 (v : Int) : (s4 v).length = 4 := length_u4 _

end Serial

namespace Operand

open Opcode (Layout)

/-- The number of blank bytes of an operand behind an operation at `offset`: up to the next multiple of
    four for switches. -/
def blankSize (offset : Int) : Layout → Nat
  | .interfaceCall => 1
  | .dynamicCall => 2
  | .tableSwitch | .lookupSwitch => (-(offset + 1) % 4).toNat
  | _ => 0

/-- The place of the blank bytes in an operand. -/
def blankStart : Layout → Nat
  | .interfaceCall => 3
  | .dynamicCall => 2
  | _ => 0

/-- The bytes of an operand, with the given blanks and count of pairs. -/
def assemble (blank : List UInt8) (count : Int) : Layout → Option Operand → List UInt8
  | .immediate1, some (.immediate value) => Serial.s1 value
  | .immediate2, some (.immediate value) => Serial.s2 value
  | .constant1, some (.poolIndex index) => Serial.natural 1 index
  | .constant2, some (.poolIndex index) => Serial.natural 2 index
  | .localSlot, some (.localIndex index) => Serial.natural 1 index
  | .increment, some (.localIncrement index amount) => Serial.natural 1 index ++ Serial.s1 amount
  | .branch2, some (.branch relative) => Serial.s2 relative
  | .branch4, some (.branch relative) => Serial.s4 relative
  | .interfaceCall, some (.poolIndexCount index count) =>
    Serial.natural 2 index ++ (Serial.natural 1 count ++ blank)
  | .dynamicCall, some (.poolIndex index) => Serial.natural 2 index ++ blank
  | .arrayCode, some (.arrayType code) => Serial.natural 1 code
  | .multiArray, some (.poolIndexCount index count) => Serial.natural 2 index ++ Serial.natural 1 count
  | .tableSwitch, some (.tableSwitch default low high offsets) =>
    blank ++ (Serial.s4 default ++ (Serial.s4 low ++ (Serial.s4 high ++ offsets.flatMap Serial.s4)))
  | .lookupSwitch, some (.lookupSwitch default pairs) =>
    blank ++ (Serial.s4 default ++ (Serial.s4 count ++
      pairs.flatMap fun e => Serial.s4 e.1 ++ Serial.s4 e.2))
  | _, _ => []

/-- The bytes of the operand of a widened operation. -/
def assembleWide : Option Operand → List UInt8
  | some (.localIndex index) => Serial.natural 2 index
  | some (.localIncrement index amount) => Serial.natural 2 index ++ Serial.s2 amount
  | _ => []

end Operand

namespace Instruction

/-- What follows the operation of an instruction. -/
def form (i : Instruction) : Opcode.Layout := .ofName (Nomenclature.name i.opcode)

/-- The name under which an instruction is listed. -/
def title (i : Instruction) : String :=
  if i.wide then
    if i.opcode = Opcode.widener then "wide <unknown>" else "wide " ++ Nomenclature.name i.opcode
  else Nomenclature.name i.opcode

/-- The instruction is that of a reserved operation; these cannot be widened. -/
def isReserved (i : Instruction) : Bool := !i.wide && Nomenclature.isReserved i.opcode

/-- The instruction is a widener behind which nothing stands that it can widen. -/
def IsStray (i : Instruction) : Prop := i.wide = true ∧ i.opcode = Opcode.widener

instance (i : Instruction) : Decidable i.IsStray := inferInstanceAs (Decidable (_ ∧ _))

/-- The place of the blank bytes in an instruction. -/
def blankStart (i : Instruction) : Nat := if i.wide then 1 else 1 + Operand.blankStart i.form

/-- The number of blank bytes of an instruction. -/
def blankSize (i : Instruction) : Nat :=
  if i.wide then if i.opcode = Opcode.widener then 1 else 0
  else Operand.blankSize i.offset i.form

/-- The bytes of an instruction, with the given blanks and count of pairs. -/
def assembleWith (blank : List UInt8) (count : Int) (i : Instruction) : List UInt8 :=
  if i.wide then
    if i.opcode = Opcode.widener then Opcode.widener :: blank
    else Opcode.widener :: i.opcode :: Operand.assembleWide i.operand
  else i.opcode :: Operand.assemble blank count i.form i.operand

/-- The bytes of an instruction. -/
def assemble (i : Instruction) : List UInt8 :=
  i.assembleWith (List.replicate i.blankSize 0) (Operand.pairCount i.operand)

/-- The instruction has the operand that its operation takes. -/
def Fits (i : Instruction) : Prop :=
  if i.wide then
    if i.opcode = Opcode.widener then i.operand = none else Operand.TakesWide i.form i.operand
  else i.opcode ≠ Opcode.widener ∧ Operand.Takes i.form i.operand

/-- The instruction has the operand that its operation takes, the name and the mark of its operation, and
    its own length. -/
structure Assemblable (i : Instruction) : Prop where
  fits : i.Fits
  mnemonic : i.mnemonic = i.title
  reserved : i.reserved = i.isReserved
  length : i.length = i.assemble.length

/-- The instruction can be written as these bytes. -/
def WrittenAs (i : Instruction) (bytes : List UInt8) : Prop :=
  ∃ blank count, blank.length = i.blankSize ∧ Operand.Counted count i.operand ∧
    (i.IsStray → ∀ b ∈ blank, Opcode.isWidenable b = false) ∧ bytes = i.assembleWith blank count

/-! ## §3. Lengths. -/

theorem form_eq (i : Instruction) : i.form = Opcode.layout i.opcode := Opcode.ofName_name i.opcode

end Instruction

/-- Blanks and counts do not change the length of an operand. -/
theorem Operand.length_assemble (layout : Opcode.Layout) (operand : Option Operand)
    {blank blank' : List UInt8} (h : blank.length = blank'.length) (count count' : Int) :
    (assemble blank count layout operand).length =
      (assemble blank' count' layout operand).length := by
  unfold assemble
  split <;> simp [h]

namespace Instruction

theorem length_assembleWith (i : Instruction) {blank blank' : List UInt8}
    (h : blank.length = blank'.length) (count count' : Int) :
    (i.assembleWith blank count).length = (i.assembleWith blank' count').length := by
  unfold assembleWith
  split
  · split
    · rw [List.length_cons, List.length_cons, h]
    · rfl
  · rw [List.length_cons, List.length_cons, Operand.length_assemble _ _ h count count']

/-- An instruction is as long as the bytes that it is written as. -/
theorem WrittenAs.length_eq {i : Instruction} {bytes : List UInt8} (h : i.WrittenAs bytes) :
    i.assemble.length = bytes.length := by
  obtain ⟨blank, count, hblank, -, -, rfl⟩ := h
  exact i.length_assembleWith (by rw [List.length_replicate, hblank]) _ _

end Instruction

/-! ## §4. Reading operands. -/

theorem exists_uint8 {n : Nat} (h : n < 0x100) : ∃ x : UInt8, x.toNat = n :=
  ⟨UInt8.ofNat n, UInt8.toNat_ofNat_of_lt h⟩

theorem exists_uint16 {n : Nat} (h : n < 0x10000) : ∃ x : UInt16, x.toNat = n :=
  ⟨UInt16.ofNat n, UInt16.toNat_ofNat_of_lt h⟩

theorem exists_int8 {v : Int} (h : Within 0x80 v) : ∃ x : Int8, x.toInt = v :=
  ⟨Int8.ofInt v, Int8.toInt_ofInt_of_le h.1 h.2⟩

theorem exists_int16 {v : Int} (h : Within 0x8000 v) : ∃ x : Int16, x.toInt = v :=
  ⟨Int16.ofInt v, Int16.toInt_ofInt_of_le h.1 h.2⟩

theorem exists_int32 {v : Int} (h : Within 0x80000000 v) : ∃ x : Int32, x.toInt = v :=
  ⟨Int32.ofInt v, Int32.toInt_ofInt_of_le h.1 h.2⟩

namespace Serial

theorem u1_eq (n : UInt8) : u1 n = [n] := by
  show [UInt8.ofNat n.toNat] = [n]
  rw [UInt8.ofNat_toNat]

theorem s1_toInt (x : Int8) : s1 x.toInt = u1 x.toUInt8 := by rw [s1, Int8.ofInt_toInt]
theorem s2_toInt (x : Int16) : s2 x.toInt = u2 x.toUInt16 := by rw [s2, Int16.ofInt_toInt]
theorem s4_toInt (x : Int32) : s4 x.toInt = u4 x.toUInt32 := by rw [s4, Int32.ofInt_toInt]

end Serial

namespace Operand

variable {p : Int} {offset : Int} {blank : List UInt8} {count : Int}

theorem s1_recovers (what : String) (x : Int8) : (s1 what).Recovers p (Serial.s1 x.toInt) x := by
  rw [Serial.s1_toInt]
  exact (Recovers.u1 what x.toUInt8).map UInt8.toInt8

theorem s2_recovers (what : String) (x : Int16) : (s2 what).Recovers p (Serial.s2 x.toInt) x := by
  rw [Serial.s2_toInt]
  exact (Recovers.u2 what x.toUInt16).map UInt16.toInt16

theorem s4_recovers (what : String) (x : Int32) : (s4 what).Recovers p (Serial.s4 x.toInt) x := by
  rw [Serial.s4_toInt]
  exact .s4 what x

theorem readPair_recovers {e : Int × Int} (h : Within 0x80000000 e.1 ∧ Within 0x80000000 e.2) :
    readPair.Recovers p (Serial.s4 e.1 ++ Serial.s4 e.2) e := by
  obtain ⟨key, relative⟩ := e
  obtain ⟨key, rfl⟩ := exists_int32 h.1
  obtain ⟨relative, rfl⟩ := exists_int32 h.2
  exact (s4_recovers _ key).bind ((s4_recovers _ relative).map fun x => (key.toInt, x.toInt))

theorem readTableSwitch_recovers {default low high : Int} {offsets : List Int}
    (hblank : (blank.length : Int) = padding offset)
    (h : Takes .tableSwitch (some (.tableSwitch default low high offsets))) :
    (readTableSwitch offset).Recovers p
      (assemble blank count .tableSwitch (some (.tableSwitch default low high offsets)))
      (.tableSwitch default low high offsets) := by
  obtain ⟨hdefault, hlow, hhigh, hlength, hoffsets⟩ := h
  obtain ⟨default, rfl⟩ := exists_int32 hdefault
  obtain ⟨low, rfl⟩ := exists_int32 hlow
  obtain ⟨high, rfl⟩ := exists_int32 hhigh
  have hcount : (high.toInt - low.toInt + 1).toNat = offsets.length := by omega
  unfold readTableSwitch
  rw [← hblank]
  refine (Recovers.skip _ blank).bind ((s4_recovers _ default).bind ((s4_recovers _ low).bind
    ((s4_recovers _ high).bind ?_)))
  simp only [hcount]
  refine (Recovers.many offsets ?_ _).map _
  intro relative hrelative q
  obtain ⟨relative, rfl⟩ := exists_int32 (hoffsets relative hrelative)
  exact (s4_recovers _ relative).map Int32.toInt

theorem readLookupSwitch_recovers {default : Int} {pairs : List (Int × Int)}
    (hblank : (blank.length : Int) = padding offset)
    (h : Takes .lookupSwitch (some (.lookupSwitch default pairs)))
    (hcounted : Counted count (some (.lookupSwitch default pairs))) :
    (readLookupSwitch offset).Recovers p
      (assemble blank count .lookupSwitch (some (.lookupSwitch default pairs)))
      (.lookupSwitch default pairs) := by
  obtain ⟨hdefault, -, hpairs⟩ := h
  obtain ⟨hcount, hlength⟩ := hcounted
  obtain ⟨default, rfl⟩ := exists_int32 hdefault
  obtain ⟨count, rfl⟩ := exists_int32 hcount
  have hsize : count.toInt.toNat = pairs.length := by omega
  unfold readLookupSwitch
  rw [← hblank]
  refine (Recovers.skip _ blank).bind ((s4_recovers _ default).bind ((s4_recovers _ count).bind ?_))
  rw [hsize]
  refine (Recovers.many pairs ?_ _).map _
  intro e he q
  exact readPair_recovers (hpairs e he)

theorem padding_eq (offset : Int) : padding offset = ((-(offset + 1) % 4).toNat : Int) := by
  unfold padding
  omega

/-- An operand is recovered from its bytes, whatever stands in the blanks. -/
theorem read_recovers {layout : Opcode.Layout} {operand : Option Operand}
    (hblank : blank.length = blankSize offset layout) (h : Takes layout operand)
    (hcounted : Counted count operand) :
    (read offset layout).Recovers p (assemble blank count layout operand) operand := by
  unfold Takes at h
  -- One case for each layout, in the order of `Takes`.
  split at h
  next => exact .pure none
  next value =>
    obtain ⟨value, rfl⟩ := exists_int8 h
    exact (s1_recovers _ value).map fun x => some (immediate x.toInt)
  next value =>
    obtain ⟨value, rfl⟩ := exists_int16 h
    exact (s2_recovers _ value).map fun x => some (immediate x.toInt)
  next index =>
    obtain ⟨index, rfl⟩ := exists_uint8 h
    exact (Recovers.u1 _ index).map fun x => some (poolIndex x.toNat)
  next index =>
    obtain ⟨index, rfl⟩ := exists_uint16 h
    exact (Recovers.u2 _ index).map fun x => some (poolIndex x.toNat)
  next index =>
    obtain ⟨index, rfl⟩ := exists_uint8 h
    exact (Recovers.u1 _ index).map fun x => some (localIndex x.toNat)
  next index amount =>
    obtain ⟨index, rfl⟩ := exists_uint8 h.1
    obtain ⟨amount, rfl⟩ := exists_int8 h.2
    exact (Recovers.u1 _ index).bind
      ((s1_recovers _ amount).map fun x => some (localIncrement index.toNat x.toInt))
  next relative =>
    obtain ⟨relative, rfl⟩ := exists_int16 h
    exact (s2_recovers _ relative).map fun x => some (branch x.toInt)
  next relative =>
    obtain ⟨relative, rfl⟩ := exists_int32 h
    exact (s4_recovers _ relative).map fun x => some (branch x.toInt)
  next index arguments =>
    obtain ⟨index, rfl⟩ := exists_uint16 h.1
    obtain ⟨arguments, rfl⟩ := exists_uint8 h.2
    have hskip := Recovers.skip (p := p + (Serial.u2 index).length + (Serial.u1 arguments).length)
      "invokeinterface zero byte" blank
    rw [hblank] at hskip
    exact (Recovers.u2 _ index).bind ((Recovers.u1 _ arguments).bind (hskip.map _))
  next index =>
    obtain ⟨index, rfl⟩ := exists_uint16 h
    have hskip := Recovers.skip (p := p + (Serial.u2 index).length) "invokedynamic zero bytes" blank
    rw [hblank] at hskip
    exact (Recovers.u2 _ index).bind (hskip.map _)
  next code =>
    obtain ⟨code, rfl⟩ := exists_uint8 h
    exact (Recovers.u1 _ code).map fun x => some (arrayType x.toNat)
  next index dimensions =>
    obtain ⟨index, rfl⟩ := exists_uint16 h.1
    obtain ⟨dimensions, rfl⟩ := exists_uint8 h.2
    exact (Recovers.u2 _ index).bind
      ((Recovers.u1 _ dimensions).map fun x => some (poolIndexCount index.toNat x.toNat))
  next default low high offsets =>
    refine (readTableSwitch_recovers ?_ h).map some
    rw [hblank, padding_eq]
    rfl
  next default pairs =>
    refine (readLookupSwitch_recovers ?_ h hcounted).map some
    rw [hblank, padding_eq]
    rfl
  next => exact absurd h id

theorem TakesWide.isWidenable {opcode : UInt8} {operand : Option Operand}
    (h : TakesWide (Opcode.layout opcode) operand) : Opcode.isWidenable opcode = true := by
  unfold TakesWide at h
  unfold Opcode.isWidenable
  split at h
  next hlayout => simp [hlayout]
  next hlayout => simp [hlayout]
  next => exact absurd h id

end Operand

/-! ## §5. Reading code. -/

namespace Instruction

variable {p codeStart : Int}

theorem spanFrom_recovers {q n : Int} (h : q = p + n) (f : Int → Instruction) :
    (spanFrom p >>= fun span => pure (f span.length)).Recovers q [] (f n) := by
  have hlength : q - p = n := by omega
  have hspan := (Recovers.spanFrom (p := q) p).map fun span => f span.length
  rwa [hlength] at hspan

theorem read_narrow_recovers {opcode : UInt8} {operand : Option Operand} {blank : List UInt8}
    {count : Int} (hopcode : opcode ≠ Opcode.widener)
    (hblank : blank.length = Operand.blankSize (p - codeStart) (Opcode.layout opcode))
    (htakes : Operand.Takes (Opcode.layout opcode) operand)
    (hcounted : Operand.Counted count operand) :
    (read codeStart).Recovers p (opcode :: Operand.assemble blank count (Opcode.layout opcode) operand)
      ⟨p - codeStart, opcode, Nomenclature.name opcode,
        1 + (Operand.assemble blank count (Opcode.layout opcode) operand).length, operand, false,
        Nomenclature.isReserved opcode⟩ := by
  rw [← List.singleton_append, ← Serial.u1_eq, ← Opcode.mnemonic_eq_name, ← Opcode.isReserved_eq]
  refine .position_bind ((Recovers.u1 _ opcode).bind ?_)
  rw [if_neg hopcode]
  refine (Operand.read_recovers hblank htakes hcounted).bind_nil ?_
  refine spanFrom_recovers ?_ fun length => ⟨p - codeStart, opcode, Opcode.mnemonic opcode.toNat, length,
    operand, false, Opcode.isReserved opcode⟩
  rw [Serial.length_u1]
  omega

/-- What follows a widener is read to the end. -/
theorem read_widener_recovers {bytes : List UInt8} {i : Instruction}
    (h : (readWidened (p - codeStart)).Recovers (p + 1) bytes i) :
    (read codeStart).Recovers p (Opcode.widener :: bytes) i := by
  rw [← List.singleton_append, ← Serial.u1_eq]
  refine .position_bind ((Recovers.u1 _ Opcode.widener).bind ?_)
  rw [if_pos rfl, Serial.length_u1]
  exact h

theorem readWidened_recovers {offset : Int} {opcode : UInt8} {operand : Option Operand}
    (htakes : Operand.TakesWide (Opcode.layout opcode) operand) :
    (readWidened offset).Recovers p (opcode :: Operand.assembleWide operand)
      ⟨offset, opcode, "wide " ++ Nomenclature.name opcode, 2 + (Operand.assembleWide operand).length,
        operand, true, false⟩ := by
  rw [← List.singleton_append, ← Serial.u1_eq, ← Opcode.mnemonic_eq_name]
  refine (Recovers.u1 _ opcode).bind ?_
  rw [if_pos htakes.isWidenable]
  unfold Operand.TakesWide at htakes
  -- The two lengths are those of two numbers of two bytes behind two opcodes, or of one.
  split at htakes
  next index hlayout =>
    obtain ⟨index, rfl⟩ := exists_uint16 htakes
    refine (Recovers.u2 _ index).bind_nil ?_
    rw [if_neg (by rw [hlayout]; decide)]
    exact .pure _
  next index amount hlayout =>
    obtain ⟨index, rfl⟩ := exists_uint16 htakes.1
    obtain ⟨amount, rfl⟩ := exists_int16 htakes.2
    refine (Recovers.u2 _ index).bind ?_
    rw [if_pos hlayout]
    exact (Operand.s2_recovers _ amount).map _
  next => exact absurd htakes id

theorem readWidened_stray_recovers {offset : Int} {target : UInt8}
    (htarget : Opcode.isWidenable target = false) :
    (readWidened offset).Recovers p [target]
      ⟨offset, Opcode.widener, "wide <unknown>", 2, none, true, false⟩ := by
  rw [← Serial.u1_eq]
  refine (Recovers.u1 _ target).bind_nil ?_
  rw [htarget, if_neg Bool.false_ne_true]
  exact .pure _

/-- An instruction is recovered from the bytes that it is written as. -/
theorem read_recovers {i : Instruction} {bytes : List UInt8} (h : i.Assemblable)
    (hoffset : i.offset = p - codeStart) (hbytes : i.WrittenAs bytes) :
    (read codeStart).Recovers p bytes i := by
  have hlength : i.length = bytes.length := by rw [h.length, hbytes.length_eq]
  obtain ⟨blank, count, hblank, hcounted, hstray, rfl⟩ := hbytes
  have hoperand := h.fits
  have hmnemonic := h.mnemonic
  have hreserved := h.reserved
  unfold Fits at hoperand
  unfold blankSize at hblank
  unfold assembleWith at hlength ⊢
  rw [form_eq] at hoperand hblank hlength ⊢
  unfold title at hmnemonic
  unfold isReserved at hreserved
  obtain ⟨offset, opcode, mnemonic, length, operand, wide, reserved⟩ := i
  obtain rfl : offset = p - codeStart := hoffset
  dsimp only at *
  -- An instruction is narrow, widened, or a widener without an operation.
  cases wide with
  | false =>
    rw [if_neg Bool.false_ne_true] at hoperand hblank hlength hmnemonic ⊢
    rw [hmnemonic, hreserved, hlength, List.length_cons, Int.natCast_add, Int.add_comm]
    exact read_narrow_recovers hoperand.1 hblank hoperand.2 hcounted
  | true =>
    rw [if_pos rfl] at hoperand hblank hlength hmnemonic ⊢
    by_cases hwidener : opcode = Opcode.widener
    · rw [if_pos hwidener] at hoperand hblank hlength hmnemonic ⊢
      subst hwidener
      subst hoperand
      obtain ⟨target, rfl⟩ := List.length_eq_one_iff.mp hblank
      rw [hmnemonic, hreserved, hlength]
      exact read_widener_recovers
        (readWidened_stray_recovers (hstray ⟨rfl, rfl⟩ target List.mem_cons_self))
    · rw [if_neg hwidener] at hoperand hblank hlength hmnemonic ⊢
      rw [hmnemonic, hreserved, hlength, List.length_cons, List.length_cons, Int.natCast_add,
        Int.natCast_add, Int.add_assoc, Int.add_comm]
      exact read_widener_recovers (readWidened_recovers hoperand)

/-- The instruction stands at `q`, in code that starts at `codeStart`, and is written as these bytes. -/
def Settled (codeStart q : Int) (i : Instruction) (bytes : List UInt8) : Prop :=
  i.Assemblable ∧ i.offset = q - codeStart ∧ i.WrittenAs bytes

theorem WrittenAs.length_pos {i : Instruction} {bytes : List UInt8} (h : i.WrittenAs bytes) :
    0 < bytes.length := by
  obtain ⟨blank, count, -, -, -, rfl⟩ := h
  unfold assembleWith
  split
  · split <;> exact Nat.zero_lt_succ _
  · exact Nat.zero_lt_succ _

end Instruction

namespace Listing

/-- From the cursor to the end, the code is made of these instructions. -/
def MadeOf (codeStart : Int) (c : Cursor) (list : List Instruction) : Prop :=
  ∃ content, c.Holds content ∧ c.stop = c.pos + content.length ∧
    Series (Instruction.Settled codeStart) c.pos list content

theorem readFrom_atEnd (codeStart : Int) (count : Nat) (done : List Instruction) {c : Cursor}
    (h : c.atEnd = true) : readFrom codeStart count done c = ⟨.ok ⟨done.reverse, none⟩, c, []⟩ := by
  cases count with
  | zero => rfl
  | succ count => rw [readFrom, if_pos h]

/-- Code is read instruction by instruction, up to its end. -/
theorem readFrom_written (codeStart : Int) {list : List Instruction} {count : Nat}
    {done : List Instruction} {c : Cursor} (hcount : list.length ≤ count)
    (h : MadeOf codeStart c list) :
    (readFrom codeStart count done c).result = .ok ⟨done.reverse ++ list, none⟩ := by
  obtain ⟨content, hc, hstop, h⟩ := h
  induction list generalizing count done c content with
  | nil =>
    obtain rfl : content = [] := h
    have hend : c.atEnd = true := by
      rw [Cursor.atEnd_iff, hstop]
      exact Int.le_of_eq (Int.add_zero _)
    rw [readFrom_atEnd _ _ _ hend, List.append_nil]
  | cons i rest ih =>
    obtain ⟨first, later, rfl, ⟨hi, hoffset, hwritten⟩, hrest⟩ := h
    have hfirst := hwritten.length_pos
    rw [List.length_append] at hstop
    have hend : ¬ c.atEnd = true := by
      rw [Cursor.atEnd_iff]
      omega
    -- The first instruction moves the cursor over its own bytes, to those of the rest.
    obtain ⟨notices, hread⟩ := Instruction.read_recovers hi hoffset hwritten c hc.left rfl
    cases count with
    | zero => cases hcount
    | succ count =>
      rw [readFrom, if_neg hend, hread]
      dsimp only
      rw [ih (Nat.le_of_succ_le_succ hcount) later hc.right ?_ hrest, List.reverse_cons,
        List.append_assoc, List.singleton_append]
      show c.stop = c.pos + first.length + later.length
      omega

/-- Whatever stands in the blanks of code, its instructions come back. -/
theorem read_written {list : List Instruction} {c : Cursor} (h : MadeOf c.pos c list) :
    (read c).result = .ok ⟨list, none⟩ := by
  have hcount : list.length ≤ c.remaining.toNat := by
    obtain ⟨content, -, hstop, hseries⟩ := h
    have := hseries.length_le fun _ _ _ hi => hi.2.2.length_pos
    unfold Cursor.remaining
    omega
  exact readFrom_written c.pos hcount h

end Listing

end JavaClass
