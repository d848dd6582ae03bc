/-
  JavaClass.Proofs.Attribute.Records — attributes hold no more records than bytes.

  Counts in the data are trusted as they stand: a table may announce 65535 rows, a switch even more
  cases, and structures nest without a limit.  What keeps a payload small is that every row, and
  every structure inside a structure, takes up bytes of its own.  So the records of a payload, at
  all depths, are no more than the bytes that the attribute declares, and structures are followed
  into themselves no deeper than there are bytes left.
-/
import JavaClass.Proofs.Attribute.Throughout
import JavaClass.Proofs.Byte.Weight
import JavaClass.Proofs.Instruction.Course

namespace JavaClass

open Decoder

/-! ## §1. Counting records. -/

mutual

/-- The records inside a value. -/
def ElementValue.records : ElementValue → Nat
  | .literal _ _ _ | .enumConstant _ _ _ | .cls _ _ => 0
  | .nested _ value => 1 + value.records
  | .array _ values => ElementValue.recordsAll values

/-- Values and the records inside them. -/
def ElementValue.recordsAll : List ElementValue → Nat
  | [] => 0
  | value :: rest => 1 + value.records + ElementValue.recordsAll rest

/-- The records inside an annotation. -/
def Annotation.records : Annotation → Nat
  | ⟨_, _, pairs⟩ => ElementPair.recordsAll pairs

/-- Named values and the records inside them. -/
def ElementPair.recordsAll : List ElementPair → Nat
  | [] => 0
  | pair :: rest => 1 + pair.records + ElementPair.recordsAll rest

/-- The records inside a named value: the value and those inside it. -/
def ElementPair.records : ElementPair → Nat
  | ⟨_, _, value⟩ => 1 + value.records

end

theorem ElementValue.recordsAll_eq (values : List ElementValue) :
    recordsAll values = recordsIn records values := by
  induction values with
  | nil => rfl
  | cons value rest ih => rw [recordsAll, recordsIn, ih]

theorem ElementPair.recordsAll_eq (pairs : List ElementPair) :
    recordsAll pairs = recordsIn records pairs := by
  induction pairs with
  | nil => rfl
  | cons pair rest ih => rw [recordsAll, recordsIn, ih]

/-- The rows of a target. -/
def Target.records : Target → Nat
  | .localVariables table => table.length
  | _ => 0

/-- The rows of the target, the steps of the path, and the named values. -/
def TypeAnnotation.records (a : TypeAnnotation) : Nat :=
  a.target.records + a.path.length + recordsIn ElementPair.records a.pairs

/-- The verification types of a frame. -/
def StackMapFrame.records (frame : StackMapFrame) : Nat := frame.locals.length + frame.stack.length

/-- The rows of a module, with the modules and classes that they name. -/
def ModuleDeclaration.records (m : ModuleDeclaration) : Nat :=
  m.requires.length + recordsIn (fun row => row.value.targets.length) m.exports +
    recordsIn (fun row => row.value.targets.length) m.opens + m.uses.length +
    recordsIn (fun row => row.value.providers.length) m.provides

/-- The cases of a switch. -/
def Operand.cases : Operand → Nat
  | .tableSwitch _ _ _ offsets => offsets.length
  | .lookupSwitch _ pairs => pairs.length
  | _ => 0

/-- The cases of an instruction. -/
def Instruction.cases (i : Instruction) : Nat := i.operand.elim 0 Operand.cases

/-- The instructions of a listing, and their cases. -/
def Listing.records (l : Listing) : Nat := recordsIn Instruction.cases l.instructions

mutual

/-- The records inside a payload, at all depths. -/
def Payload.records : Payload → Nat
  | .code code => code.records
  | .recordComponents components => RecordComponent.recordsAll components
  | .stackMapTable frames => recordsIn (fun frame => frame.value.records) frames
  | .annotations _ annotations => recordsIn Annotation.records annotations
  | .parameterAnnotations _ parameters =>
    recordsIn (fun parameter => recordsIn Annotation.records parameter.value) parameters
  | .typeAnnotations _ annotations => recordsIn (fun a => a.value.records) annotations
  | .annotationDefault value => 1 + value.records
  | .bootstrapMethods methods => recordsIn (fun method => method.value.arguments.length) methods
  | .moduleDeclaration declaration => declaration.records
  | .moduleHashes _ hashes => hashes.length
  | .innerClasses classes => classes.length
  | .lineNumbers rows => rows.length
  | .localVariables rows | .localVariableTypes rows => rows.length
  | .methodParameters parameters => parameters.length
  | .exceptions words | .modulePackages words | .nestMembers words
  | .permittedSubclasses words => words.length
  | _ => 0

/-- The instructions, handlers and attributes of code, and the records inside them. -/
def Code.records : Code → Nat
  | ⟨_, _, _, _, _, listing, handlers, attributes⟩ =>
    listing.records + handlers.length + Attribute.recordsAll attributes

/-- Components and the records inside them. -/
def RecordComponent.recordsAll : List RecordComponent → Nat
  | [] => 0
  | component :: rest => 1 + component.records + RecordComponent.recordsAll rest

/-- The attributes of a component, and the records inside them. -/
def RecordComponent.records : RecordComponent → Nat
  | ⟨_, _, _, attributes⟩ => Attribute.recordsAll attributes

/-- Attributes and the records inside them. -/
def Attribute.recordsAll : List Attribute → Nat
  | [] => 0
  | a :: rest => 1 + a.records + Attribute.recordsAll rest

/-- The records inside an attribute. -/
def Attribute.records : Attribute → Nat
  | ⟨_, _, _, _, payload⟩ => payload.records

end

theorem RecordComponent.recordsAll_eq (components : List RecordComponent) :
    recordsAll components = recordsIn records components := by
  induction components with
  | nil => rfl
  | cons component rest ih => rw [recordsAll, recordsIn, ih]

theorem Attribute.recordsAll_eq (attributes : List Attribute) :
    recordsAll attributes = recordsIn records attributes := by
  induction attributes with
  | nil => rfl
  | cons a rest ih => rw [recordsAll, recordsIn, ih]

/-! ## §2. Annotations. -/

section Annotations

variable {value : Decoder ElementValue}

theorem ElementPair.read_affords (h : value.Affords 0 fun v => 1 + v.records) :
    (read value).Affords 0 fun pair => 1 + pair.records :=
  .bind .position fun start => .bind (.u2 _) fun _ => .bind h fun _ =>
    .bind (.spanFrom start) fun _ => .pure (by simp only [records]; omega)

theorem ElementPair.readAll_affords (h : value.Affords 0 fun v => 1 + v.records) :
    (readAll value).Affords 0 (recordsIn records) :=
  .bind (.u2 _) fun count => .last (.many count.toNat (read_affords h)) fun _ => Nat.le_add_left _ _

theorem Annotation.readWith_affords (h : value.Affords 0 fun v => 1 + v.records) :
    (readWith value).Affords 0 fun a => 1 + a.records := by
  refine .bind .position fun start => .bind (.u2 _) fun _ =>
    .bind (ElementPair.readAll_affords h) fun pairs => .bind (.spanFrom start) fun _ => .pure ?_
  simp only [records, ElementPair.recordsAll_eq]
  omega

/-- A value pays with its tag and count for itself, and the values inside it pay for themselves. -/
theorem ElementValue.body_affords (h : value.Affords 0 fun v => 1 + v.records) :
    (body value).Affords 0 fun v => 1 + v.records := by
  refine .bind .position fun start => .bind (.u1 _) fun tag => ?_
  cases LiteralTag.ofLetter? (Char.ofNat tag.toNat) with
  | some literalTag =>
    refine .bind (.u2 _) fun _ => .bind (.spanFrom start) fun _ => .pure ?_
    simp only [records]
    omega
  | none =>
    dsimp only
    split
    · refine .bind (.u2 _) fun _ => .bind (.u2 _) fun _ => .bind (.spanFrom start) fun _ => .pure ?_
      simp only [records]
      omega
    · refine .bind (.u2 _) fun _ => .bind (.spanFrom start) fun _ => .pure ?_
      simp only [records]
      omega
    · have hnested := Annotation.readWith_affords h
      refine .bind hnested fun _ => .bind (.spanFrom start) fun _ => .pure ?_
      simp only [records]
      omega
    · refine .bind (.u2 _) fun count => .bind (.many count.toNat h) fun values =>
        .bind (.spanFrom start) fun _ => .pure ?_
      simp only [records, recordsAll_eq]
      omega
    · exact .fail _

end Annotations

theorem ElementValue.read_affords : read.Affords 0 fun v => 1 + v.records :=
  .fix fun _ => body_affords

theorem Annotation.readAll_affords : readAll.Affords 0 fun all => 1 + recordsIn records all :=
  .bind (.u2 _) fun count =>
    .last (.many count.toNat (readWith_affords ElementValue.read_affords)) fun _ => by omega

theorem Annotation.readParameters_affords :
    readParameters.Affords 0 (recordsIn fun parameter => recordsIn records parameter.value) :=
  .bind (.u1 _) fun count => .last (.many count.toNat readAll_affords.located) fun _ =>
    Nat.le_add_left _ _

theorem LocalRange.read_affords : read.Affords 0 fun _ => 1 :=
  .bind (.u2 _) fun _ => .bind (.u2 _) fun _ => .bind (.u2 _) fun _ => .pure (by omega)

theorem Target.read_affords (layout : Layout) : (read layout).Affords 0 records := by
  cases layout with
  | typeParameter => exact .bind (.u1 _) fun _ => .pure (Nat.zero_le _)
  | supertype => exact .bind (.u2 _) fun _ => .pure (Nat.zero_le _)
  | typeParameterBound => exact .bind (.u1 _) fun _ => .bind (.u1 _) fun _ => .pure (Nat.zero_le _)
  | empty => exact .pure (Nat.zero_le _)
  | formalParameter => exact .bind (.u1 _) fun _ => .pure (Nat.zero_le _)
  | thrown => exact .bind (.u2 _) fun _ => .pure (Nat.zero_le _)
  | localVariables =>
    exact .bind (.u2 _) fun count => .bind (.rows count.toNat LocalRange.read_affords) fun table =>
      .pure (Nat.le_add_left _ _)
  | caught => exact .bind (.u2 _) fun _ => .pure (Nat.zero_le _)
  | offset => exact .bind (.u2 _) fun _ => .pure (Nat.zero_le _)
  | typeArgument => exact .bind (.u2 _) fun _ => .bind (.u1 _) fun _ => .pure (Nat.zero_le _)

theorem PathStep.read_affords : read.Affords 0 fun _ => 1 :=
  .bind (.u1 _) fun _ => .bind (.u1 _) fun _ => .pure (by omega)

theorem TypeAnnotation.read_affords : read.Affords 0 fun a => 1 + a.records := by
  refine .bind .position fun start => .bind (.u1 _) fun targetType => ?_
  cases Target.layout? targetType with
  | none => exact .fail _
  | some layout =>
    refine .bind (Target.read_affords layout) fun target => .bind (.u1 _) fun count =>
      .bind (.rows count.toNat PathStep.read_affords) fun path => .bind (.u2 _) fun _ =>
      .bind (ElementPair.readAll_affords ElementValue.read_affords) fun pairs => .pure ?_
    simp only [records]
    omega

theorem TypeAnnotation.readAll_affords : readAll.Affords 0 (recordsIn fun a => a.value.records) :=
  .bind (.u2 _) fun count => .last (.many count.toNat read_affords.located) fun _ =>
    Nat.le_add_left _ _

/-! ## §3. Code. -/

theorem Operand.readTableSwitch_affords (offset : Int) :
    (readTableSwitch offset).Affords 0 cases := by
  refine .bind (.skip _ (padding_nonneg offset)) fun _ => .bind (.s4 _) fun _ =>
    .bind (.s4 _) fun _ => .bind (.s4 _) fun _ =>
    .bind (.rows _ (.bind (.s4 _) fun _ => .pure (by omega))) fun _ => .pure ?_
  simp only [cases]
  omega

theorem Operand.readPair_affords : readPair.Affords 0 fun _ => 1 :=
  .bind (.s4 _) fun _ => .bind (.s4 _) fun _ => .pure (by omega)

theorem Operand.readLookupSwitch_affords (offset : Int) :
    (readLookupSwitch offset).Affords 0 cases := by
  refine .bind (.skip _ (padding_nonneg offset)) fun _ => .bind (.s4 _) fun _ =>
    .bind (.s4 _) fun count => .bind (.rows _ readPair_affords) fun _ => .pure ?_
  simp only [cases]
  omega

theorem Operand.read_affords (offset : Int) (layout : Opcode.Layout) :
    (read offset layout).Affords 0 fun operand => operand.elim 0 cases := by
  cases layout with
  | bare => exact .pure (Nat.zero_le _)
  | immediate1 => exact .bind (.s1 _) fun _ => .pure (Nat.zero_le _)
  | immediate2 => exact .bind (.s2 _) fun _ => .pure (Nat.zero_le _)
  | constant1 => exact .bind (.u1 _) fun _ => .pure (Nat.zero_le _)
  | constant2 => exact .bind (.u2 _) fun _ => .pure (Nat.zero_le _)
  | localSlot => exact .bind (.u1 _) fun _ => .pure (Nat.zero_le _)
  | increment => exact .bind (.u1 _) fun _ => .bind (.s1 _) fun _ => .pure (Nat.zero_le _)
  | branch2 => exact .bind (.s2 _) fun _ => .pure (Nat.zero_le _)
  | branch4 => exact .bind (.s4 _) fun _ => .pure (Nat.zero_le _)
  | interfaceCall =>
    exact .bind (.u2 _) fun _ => .bind (.u1 _) fun _ => .bind (.skip _ (by decide)) fun _ =>
      .pure (Nat.zero_le _)
  | dynamicCall =>
    exact .bind (.u2 _) fun _ => .bind (.skip _ (by decide)) fun _ => .pure (Nat.zero_le _)
  | arrayCode => exact .bind (.u1 _) fun _ => .pure (Nat.zero_le _)
  | multiArray => exact .bind (.u2 _) fun _ => .bind (.u1 _) fun _ => .pure (Nat.zero_le _)
  | tableSwitch =>
    exact .bind (readTableSwitch_affords offset) fun _ => .pure (Nat.le_add_left _ _)
  | lookupSwitch =>
    exact .bind (readLookupSwitch_affords offset) fun _ => .pure (Nat.le_add_left _ _)
  | wide => exact .pure (Nat.zero_le _)

/-- A widened operation is no switch, and its own opcode pays for it. -/
theorem Instruction.readWidened_affords (offset : Int) :
    (readWidened offset).Affords 0 fun i => 1 + i.cases := by
  refine .bind (.u1 _) fun target => ?_
  split
  · refine .bind (.u2 _) fun index => ?_
    split
    · exact .bind (.s2 _) fun amount => .pure (by simp [cases, Operand.cases])
    · exact .pure (by simp [cases, Operand.cases])
  · exact .pure (by simp [cases])

/-- An instruction pays with its opcode for itself. -/
theorem Instruction.read_affords (codeStart : Int) :
    (read codeStart).Affords 0 fun i => 1 + i.cases := by
  refine .bind .position fun start => .bind (.u1 _) fun opcode => ?_
  split
  · exact .last (readWidened_affords _) fun _ => Nat.le_add_left _ _
  · refine .bind (Operand.read_affords _ _) fun _ => .bind (.spanFrom start) fun _ => .pure ?_
    simp only [cases]
    omega

/-- The instructions on a course, and their cases, are no more than the bytes that it passes. -/
theorem Listing.Course.records_le {codeStart : Int} {c after : Cursor} {l : Listing}
    (h : Course codeStart c l after) (hc : c.InBounds) : c.pos + l.records ≤ c.stop := by
  induction h with
  | ended | cut =>
    have := hc.2.1
    simpa only [records, recordsIn, Int.natCast_zero, Int.add_zero] using this
  | @step c after i rest stopped hi _ ih =>
    obtain ⟨notices, hrun⟩ := hi.goes
    obtain ⟨q, hq, -, -, hweight⟩ := Instruction.read_affords codeStart c hc i (by rw [hrun])
    rw [hrun] at hq
    have hq : c.pos + i.length = q := congrArg Cursor.pos hq
    have hrest := ih (hc.goto (by have := hi.pos; omega) hi.room)
    simp only [records, recordsIn, Cursor.goto_pos, Cursor.goto_stop] at hrest hweight ⊢
    omega

theorem Code.array_affords (disassemble : Bool) (n : Nat) :
    (window "code array" n >>= ofArray disassemble n).Affords 0 fun array => array.2.2.records := by
  intro c hc array hresult
  by_cases hshort : c.stop < c.pos + n
  · rw [window_bind_of_short hshort] at hresult
    cases hresult
  have hfits : c.pos + n ≤ c.stop := by omega
  rw [window_bind_of_enough hfits] at hresult ⊢
  cases disassemble with
  | false =>
    rw [ofArray_unlisted] at hresult ⊢
    cases hresult
    exact ⟨c.pos + n, rfl, by omega, hfits, by simp only [Listing.records, recordsIn]; omega⟩
  | true =>
    obtain ⟨listing, after, notices, hread⟩ := Listing.read_eq_ok (c.part n)
    obtain ⟨listing', hok, hcourse⟩ := Listing.read_course (hc.part (Int.natCast_nonneg n) hfits)
    rw [hread] at hok
    cases hok
    rw [ofArray_listed hread] at hresult ⊢
    cases hresult
    have hrecords := hcourse.records_le (hc.part (Int.natCast_nonneg n) hfits)
    simp only [Cursor.part_pos, Cursor.part_stop] at hrecords
    exact ⟨c.pos + n, rfl, by omega, hfits, by dsimp only; omega⟩

/-! ## §4. Payloads. -/

theorem readWords_affords (what : String) :
    (readWords what).Affords 0 fun words => 1 + words.length :=
  .bind (.u2 _) fun count => .last (.rows count.toNat (.last (.u2 what) fun _ => by omega)) fun _ => by
    omega

theorem readRows_affords {α : Type} {inside : α → Nat} (what : String) {row : Decoder α}
    (h : row.Affords 0 fun a => 1 + inside a) :
    (readRows what row).Affords 0 (recordsIn fun x => inside x.value) :=
  .bind (.u2 _) fun count => .last (.many count.toNat h.located) fun _ => Nat.le_add_left _ _

theorem readRows_affords_length {α : Type} (what : String) {row : Decoder α}
    (h : row.Affords 0 fun _ => 1) : (readRows what row).Affords 0 List.length := by
  rw [← funext recordsIn_zero]
  exact @readRows_affords α (fun _ => 0) what row h

theorem ExceptionHandler.read_affords : read.Affords 0 fun _ => 1 :=
  .bind (.u2 _) fun _ => .bind (.u2 _) fun _ => .bind (.u2 _) fun _ => .bind (.u2 _) fun _ =>
    .pure (by omega)

theorem VerificationType.read_affords : read.Affords 0 fun _ => 1 := by
  refine .bind .position fun start => .bind (.u1 _) fun tag => ?_
  split
  case h_8 | h_9 => exact .bind (.u2 _) fun _ => .pure (by omega)
  case h_10 => exact .fail _
  all_goals exact .pure (by omega)

theorem VerificationType.readMany_affords (count : Nat) : (readMany count).Affords 0 List.length :=
  .rows count read_affords.located

theorem StackMapFrame.read_affords : read.Affords 0 fun frame => 1 + frame.records := by
  refine .bind .position fun start => .bind (.u1 _) fun frameType => ?_
  cases FrameKind.ofType frameType <;> dsimp only
  case same => exact .pure (by simp only [records, List.length_nil]; omega)
  case sameLocalsOneItem =>
    refine .bind (VerificationType.readMany_affords 1) fun _ => .pure ?_
    simp only [records, List.length_nil]
    omega
  case reserved => exact .fail _
  case sameLocalsOneItemExtended =>
    refine .bind (.u2 _) fun _ => .bind (VerificationType.readMany_affords 1) fun _ => .pure ?_
    simp only [records, List.length_nil]
    omega
  case chop | sameExtended =>
    exact .bind (.u2 _) fun _ => .pure (by simp only [records, List.length_nil]; omega)
  case append =>
    refine .bind (.u2 _) fun _ => .bind (VerificationType.readMany_affords _) fun _ => .pure ?_
    simp only [records, List.length_nil]
    omega
  case full =>
    refine .bind (.u2 _) fun _ => .bind (.u2 _) fun _ =>
      .bind (VerificationType.readMany_affords _) fun _ => .bind (.u2 _) fun _ =>
      .bind (VerificationType.readMany_affords _) fun _ => .pure ?_
    simp only [records]
    omega

theorem InnerClass.read_affords : read.Affords 0 fun _ => 1 :=
  .bind (.u2 _) fun _ => .bind (.u2 _) fun _ => .bind (.u2 _) fun _ => .bind (.u2 _) fun _ =>
    .pure (by omega)

theorem LineNumber.read_affords : read.Affords 0 fun _ => 1 :=
  .bind (.u2 _) fun _ => .bind (.u2 _) fun _ => .pure (by omega)

theorem LocalVariable.read_affords : read.Affords 0 fun _ => 1 :=
  .bind (.u2 _) fun _ => .bind (.u2 _) fun _ => .bind (.u2 _) fun _ => .bind (.u2 _) fun _ =>
    .bind (.u2 _) fun _ => .pure (by omega)

theorem BootstrapMethod.read_affords :
    read.Affords 0 fun method => 1 + method.arguments.length :=
  .bind (.u2 _) fun _ => .bind (readWords_affords _) fun _ => .pure (by dsimp only; omega)

theorem MethodParameter.read_affords : read.Affords 0 fun _ => 1 :=
  .bind (.u2 _) fun _ => .bind (.u2 _) fun _ => .pure (by omega)

theorem ModuleRequires.read_affords : read.Affords 0 fun _ => 1 :=
  .bind (.u2 _) fun _ => .bind (.u2 _) fun _ => .bind (.u2 _) fun _ => .pure (by omega)

theorem ModuleExports.read_affords (what : String) :
    (read what).Affords 0 fun row => 1 + row.targets.length :=
  .bind (.u2 _) fun _ => .bind (.u2 _) fun _ => .bind (readWords_affords _) fun _ =>
    .pure (by dsimp only; omega)

theorem ModuleProvides.read_affords : read.Affords 0 fun row => 1 + row.providers.length :=
  .bind (.u2 _) fun _ => .bind (readWords_affords _) fun _ => .pure (by dsimp only; omega)

theorem ModuleDeclaration.read_affords : read.Affords 0 records := by
  refine .bind (.u2 _) fun _ => .bind (.u2 _) fun _ => .bind (.u2 _) fun _ =>
    .bind (readRows_affords_length _ ModuleRequires.read_affords) fun _ =>
    .bind (readRows_affords _ (ModuleExports.read_affords _)) fun _ =>
    .bind (readRows_affords _ (ModuleExports.read_affords _)) fun _ =>
    .bind (readWords_affords _) fun _ =>
    .bind (readRows_affords _ ModuleProvides.read_affords) fun _ => .pure ?_
  simp only [records]
  omega

theorem ModuleHash.read_affords : read.Affords 0 fun _ => 1 :=
  .bind (.u2 _) fun _ => .bind (.u2 _) fun size => .bind (.bytes _ size.toNat) fun _ =>
    .pure (by omega)

variable {inner : Decoder Attribute}

theorem readAttributes_affords (h : inner.Affords 0 fun a => 1 + a.records) :
    (readAttributes inner).Affords 0 (recordsIn Attribute.records) :=
  .bind (.u2 _) fun count => .last (.many count.toNat h) fun _ => Nat.le_add_left _ _

theorem Code.read_affords (disassemble : Bool) (h : inner.Affords 0 fun a => 1 + a.records) :
    (read disassemble inner).Affords 0 records := by
  rw [read_eq]
  refine .bind (.u2 _) fun _ => .bind (.u2 _) fun _ => .bind (.u4 _) fun length =>
    .bind (array_affords disassemble length.toNat) fun _ =>
    .bind (readRows_affords_length _ ExceptionHandler.read_affords) fun _ =>
    .bind (readAttributes_affords h) fun _ => .pure ?_
  simp only [records, Attribute.recordsAll_eq]
  omega

theorem RecordComponent.read_affords (h : inner.Affords 0 fun a => 1 + a.records) :
    (read inner).Affords 0 fun component => 1 + component.records := by
  refine .bind .position fun start => .bind (.u2 _) fun _ => .bind (.u2 _) fun _ =>
    .bind (readAttributes_affords h) fun _ => .bind (.spanFrom start) fun _ => .pure ?_
  simp only [records, Attribute.recordsAll_eq]
  omega

theorem Payload.debugExtension_affords (disassemble : Bool) :
    (read disassemble inner .sourceDebugExtension).Affords 0 records := by
  intro c hc payload hresult
  rw [read_debugExtension] at hresult ⊢
  cases hresult
  exact ⟨c.stop, rfl, hc.2.1, Int.le_refl _, by simp only [records]; have := hc.2.1; omega⟩

/-- The records of every kind of payload have their bytes. -/
theorem Payload.read_affords (disassemble : Bool) (h : inner.Affords 0 fun a => 1 + a.records)
    (kind : AttributeKind) : (read disassemble inner kind).Affords 0 records := by
  cases kind
  case code => exact .map (Code.read_affords disassemble h) fun _ => Nat.le_of_eq (by rw [records])
  case recordComponents =>
    refine .bind (.u2 _) fun count => .bind (.many count.toNat (RecordComponent.read_affords h))
      fun components => .pure ?_
    rw [records, RecordComponent.recordsAll_eq]
    omega
  case stackMapTable =>
    exact .map (readRows_affords _ StackMapFrame.read_affords) fun _ =>
      Nat.le_of_eq (by rw [records])
  case bootstrapMethods =>
    exact .map (readRows_affords _ BootstrapMethod.read_affords) fun _ =>
      Nat.le_of_eq (by rw [records])
  case annotations visible =>
    exact .map Annotation.readAll_affords fun _ => by rw [records]; omega
  case parameterAnnotations visible =>
    exact .map Annotation.readParameters_affords fun _ => Nat.le_of_eq (by rw [records])
  case typeAnnotations visible =>
    exact .map TypeAnnotation.readAll_affords fun _ => Nat.le_of_eq (by rw [records])
  case annotationDefault =>
    exact .map ElementValue.read_affords fun _ => Nat.le_of_eq (by rw [records])
  case moduleDeclaration =>
    exact .map ModuleDeclaration.read_affords fun _ => Nat.le_of_eq (by rw [records])
  case moduleHashes =>
    refine .bind (.u2 _) fun _ => .bind (readRows_affords_length _ ModuleHash.read_affords) fun _ =>
      .pure ?_
    rw [records]
    omega
  case innerClasses =>
    exact .map (readRows_affords_length _ InnerClass.read_affords) fun _ =>
      Nat.le_of_eq (by rw [records])
  case lineNumbers =>
    exact .map (readRows_affords_length _ LineNumber.read_affords) fun _ =>
      Nat.le_of_eq (by rw [records])
  case localVariables | localVariableTypes =>
    exact .map (readRows_affords_length _ LocalVariable.read_affords) fun _ =>
      Nat.le_of_eq (by rw [records])
  case methodParameters =>
    refine .bind (.u1 _) fun count =>
      .bind (.rows count.toNat MethodParameter.read_affords.located) fun _ => .pure ?_
    rw [records]
    omega
  case exceptions | modulePackages | nestMembers | permittedSubclasses =>
    exact .map (readWords_affords _) fun _ => by rw [records]; omega
  case sourceDebugExtension => exact debugExtension_affords disassemble
  case synthetic | deprecated => exact .pure (Nat.le_of_eq (by simp only [records]))
  case enclosingMethod =>
    exact .bind (.u2 _) fun _ => .bind (.u2 _) fun _ => .pure (by simp only [records]; omega)
  -- What is left is one number.
  all_goals exact .bind (.u2 _) fun _ => .pure (by simp only [records]; omega)

/-! ## §5. Attributes. -/

namespace Attribute

/-- A payload is read in a window of the declared length, so it holds no more records than that. -/
theorem readEnclosed_records (disassemble : Bool) (h : inner.Affords 0 fun a => 1 + a.records)
    (name : Option String) (start : Int) (nameIndex : UInt16) (declared : UInt32) {c : Cursor}
    (hc : c.InBounds) {p : Payload}
    (hresult : (readEnclosed name (Payload.read disassemble inner) start nameIndex declared c).result
      = .ok p) :
    c.pos + declared.toNat ≤ c.stop ∧ p.records ≤ declared.toNat := by
  by_cases hshort : c.stop < c.pos + declared.toNat
  · rw [readEnclosed_of_short _ _ _ _ _ hshort] at hresult
    cases hresult
  have hfits : c.pos + declared.toNat ≤ c.stop := by omega
  refine ⟨hfits, ?_⟩
  obtain ⟨content, notices, hrun⟩ | ⟨label, kind, hrun⟩ :=
    readEnclosed_of_enough name (Payload.read disassemble inner) start nameIndex declared hfits
  · rw [hrun] at hresult
    cases hresult
    simp only [Payload.records]
    omega
  · rw [hrun c hfits] at hresult
    have hweight := (Payload.read_affords disassemble h kind).weight_le
      (hc.part (Int.natCast_nonneg _) hfits) (concluded_ok hresult)
    simp only [Cursor.remaining, Cursor.part_stop, Cursor.part_pos] at hweight
    omega

theorem readEnclosed_affords (disassemble : Bool) (h : inner.Affords 0 fun a => 1 + a.records)
    (name : Option String) (start : Int) (nameIndex : UInt16) (declared : UInt32) :
    (readEnclosed name (Payload.read disassemble inner) start nameIndex declared).Affords 0
      Payload.records := by
  intro c hc p hresult
  obtain ⟨hfits, hrecords⟩ := readEnclosed_records disassemble h _ _ _ _ hc hresult
  exact ⟨_, readEnclosed_cursor _ _ _ _ _ hfits, by omega, hfits, by omega⟩

/-- An attribute pays with its envelope for itself. -/
theorem body_affords (pool : Pool) (disassemble : Bool)
    (h : inner.Affords 0 fun a => 1 + a.records) :
    (body pool disassemble inner).Affords 0 fun a => 1 + a.records := by
  rw [body_eq]
  refine .bind .position fun _ => .bind (.u2 _) fun _ => .bind (.u4 _) fun _ =>
    .bind (readEnclosed_affords disassemble h _ _ _ _) fun _ => .pure ?_
  simp only [records]
  omega

theorem read_affords (pool : Pool) (disassemble : Bool) :
    (read pool disassemble).Affords 0 fun a => 1 + a.records :=
  .fix fun _ => body_affords pool disassemble

theorem read_declares (pool : Pool) (disassemble : Bool) :
    (read pool disassemble).Ensures fun a => a.records ≤ a.declared.toNat := by
  have hbody : (body pool disassemble (read pool disassemble)).Ensures fun a =>
      a.records ≤ a.declared.toNat := by
    rw [body_eq_envelope]
    refine .after readEnvelope_stable fun envelope => ?_
    have henclosed : (readEnclosed (pool.utf8? envelope.2.1.toNat)
        (Payload.read disassemble (read pool disassemble)) envelope.1 envelope.2.1
        envelope.2.2).Ensures fun p => p.records ≤ envelope.2.2.toNat := by
      intro c hc p hresult
      obtain ⟨hfits, hrecords⟩ :=
        readEnclosed_records disassemble (read_affords pool disassemble) _ _ _ _ hc hresult
      rw [readEnclosed_cursor _ _ _ _ _ hfits]
      exact ⟨hc.goto (by omega) hfits, hrecords⟩
    exact henclosed.bind fun payload hpayload => .pure (by rw [records]; exact hpayload)
  intro c hc
  rw [read_eq_body pool disassemble hc]
  exact hbody c hc

/-- However malformed the bytes are, reading an attribute comes to an end: attributes and the values
    of annotations are followed into themselves with fewer and fewer bytes left.  And an attribute
    that is read holds no more records, at all depths, than it declares bytes. -/
theorem records_le_declared (pool : Pool) (disassemble : Bool) {c : Cursor} (hc : c.InBounds) :
    Descends (body pool disassemble) c ∧ Descends ElementValue.body c ∧
      ∀ a, (read pool disassemble c).result = .ok a → a.records ≤ a.declared.toNat := by
  refine ⟨(body_recurs pool disassemble).descends hc, ElementValue.body_recurs.descends hc, ?_⟩
  intro a hresult
  exact (read_declares pool disassemble c hc a hresult).2

/-- Code of two instructions with an attribute, which holds a list with a list and a number. -/
def nestedCode : Array UInt8 := #[
  0, 1, 0, 0, 0, 29, 0, 0, 0, 0, 0, 0, 0, 2, 0x03, 0xAC, 0, 0, 0, 1,
  0, 2, 0, 0, 0, 9, 0x5B, 0, 2, 0x5B, 0, 0, 0x49, 0, 7]

/-- The names in `nestedCode`. -/
def nestedPool : Pool :=
  ⟨⟨0, 0⟩, #[.unused, .constant ⟨⟨0, 0⟩, .utf8 "Code" []⟩,
    .constant ⟨⟨0, 0⟩, .utf8 "AnnotationDefault" []⟩], #[]⟩

theorem records_le_declared_nested :
    Descends (body nestedPool true) (.ofBytes nestedCode) ∧
    Descends ElementValue.body (.ofBytes nestedCode) ∧
    ∃ a, (read nestedPool true (.ofBytes nestedCode)).result = .ok a ∧ a.records = 6 ∧
      6 ≤ a.declared.toNat := by
  obtain ⟨hattributes, hvalues, hrecords⟩ :=
    records_le_declared nestedPool true (Cursor.InBounds.ofBytes nestedCode)
  have hread : (read nestedPool true (.ofBytes nestedCode)).result.toOption.map records = some 6 := by
    decide +kernel
  cases hresult : (read nestedPool true (.ofBytes nestedCode)).result with
  | error fault =>
    rw [hresult] at hread
    cases hread
  | ok a =>
    rw [hresult] at hread
    have hcount : a.records = 6 := Option.some.inj hread
    exact ⟨hattributes, hvalues, a, rfl, hcount, hcount ▸ hrecords a hresult⟩

end Attribute

end JavaClass
