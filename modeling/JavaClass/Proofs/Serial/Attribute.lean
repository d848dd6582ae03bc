/-
  JavaClass.Proofs.Serial.Attribute — attributes as bytes.

  A payload is written from what was decoded of it, and the declared length of an attribute is the
  number of bytes that come out.  An attribute loses nothing if its payload is read to the end of its
  window: the bytes behind a payload are noted, but they are not kept.
-/
import JavaClass.Proofs.Attribute.Stages
import JavaClass.Proofs.Serial.Annotation

namespace JavaClass

open Decoder

/-! ## §1. Rows of tables as bytes. -/

/-- The bytes of the handler of a stretch of code. -/
def ExceptionHandler.serialize (h : ExceptionHandler) : List UInt8 :=
  Serial.u2 h.startPc ++ Serial.u2 h.endPc ++ Serial.u2 h.handlerPc ++ Serial.u2 h.catchType

/-- The bytes of a verification type. -/
def VerificationType.serialize : VerificationType → List UInt8
  | .object cls => Serial.tag 7 ++ Serial.u2 cls
  | .uninitialized offset => Serial.tag 8 ++ Serial.u2 offset
  | type => Serial.tag type.tag

/-- The bytes of verification types without a count. -/
def VerificationType.serializeMany (types : List (Located VerificationType)) : List UInt8 :=
  types.flatMap fun x => x.value.serialize

/-- The bytes of a frame; its type says which of its parts are written. -/
def StackMapFrame.serialize (frame : StackMapFrame) : List UInt8 :=
  Serial.u1 frame.frameType ++
    match FrameKind.ofType frame.frameType with
    | .same | .reserved => []
    | .sameLocalsOneItem => VerificationType.serializeMany frame.stack
    | .sameLocalsOneItemExtended =>
      Serial.u2 frame.offsetDelta ++ VerificationType.serializeMany frame.stack
    | .chop | .sameExtended => Serial.u2 frame.offsetDelta
    | .append => Serial.u2 frame.offsetDelta ++ VerificationType.serializeMany frame.locals
    | .full =>
      Serial.u2 frame.offsetDelta ++ Serial.rows VerificationType.serialize frame.locals ++
        Serial.rows VerificationType.serialize frame.stack

/-- The bytes of a member class. -/
def InnerClass.serialize (c : InnerClass) : List UInt8 :=
  Serial.u2 c.inner ++ Serial.u2 c.outer ++ Serial.u2 c.name ++ Serial.u2 c.access

/-- The bytes of the line of a place. -/
def LineNumber.serialize (n : LineNumber) : List UInt8 := Serial.u2 n.startPc ++ Serial.u2 n.line

/-- The bytes of a local variable. -/
def LocalVariable.serialize (v : LocalVariable) : List UInt8 :=
  Serial.u2 v.startPc ++ Serial.u2 v.rangeLength ++ Serial.u2 v.name ++ Serial.u2 v.descriptor ++
    Serial.u2 v.index

/-- The bytes of a bootstrap method. -/
def BootstrapMethod.serialize (m : BootstrapMethod) : List UInt8 :=
  Serial.u2 m.method ++ Serial.words m.arguments

/-- The bytes of a parameter. -/
def MethodParameter.serialize (p : MethodParameter) : List UInt8 :=
  Serial.u2 p.name ++ Serial.u2 p.access

/-- The bytes of a required module. -/
def ModuleRequires.serialize (r : ModuleRequires) : List UInt8 :=
  Serial.u2 r.required ++ Serial.u2 r.access ++ Serial.u2 r.version

/-- The bytes of an exported or opened package. -/
def ModuleExports.serialize (e : ModuleExports) : List UInt8 :=
  Serial.u2 e.package ++ Serial.u2 e.access ++ Serial.words e.targets

/-- The bytes of a provided service. -/
def ModuleProvides.serialize (p : ModuleProvides) : List UInt8 :=
  Serial.u2 p.service ++ Serial.words p.providers

/-- The bytes of a module. -/
def ModuleDeclaration.serialize (m : ModuleDeclaration) : List UInt8 :=
  Serial.u2 m.name ++ Serial.u2 m.access ++ Serial.u2 m.version ++
    Serial.rows ModuleRequires.serialize m.requires ++
    Serial.rows ModuleExports.serialize m.exports ++ Serial.rows ModuleExports.serialize m.opens ++
    Serial.words m.uses ++ Serial.rows ModuleProvides.serialize m.provides

/-- The bytes of a digest. -/
def ModuleHash.serialize (h : ModuleHash) : List UInt8 :=
  Serial.u2 h.name ++ Serial.shortBlock h.digest

/-! ## §2. Attributes as bytes. -/

mutual

/-- The bytes of a payload. -/
def Payload.serialize : Payload → List UInt8
  | .raw content => content
  | .constantValue index => Serial.u2 index
  | .code code => code.serialize
  | .stackMapTable frames => Serial.rows StackMapFrame.serialize frames
  | .exceptions classes => Serial.words classes
  | .innerClasses classes => Serial.rows InnerClass.serialize classes
  | .enclosingMethod cls method => Serial.u2 cls ++ Serial.u2 method
  | .synthetic => []
  | .deprecated => []
  | .signature index => Serial.u2 index
  | .sourceFile index => Serial.u2 index
  | .sourceDebugExtension content => content
  | .lineNumbers lines => Serial.rows LineNumber.serialize lines
  | .localVariables ranges => Serial.rows LocalVariable.serialize ranges
  | .localVariableTypes ranges => Serial.rows LocalVariable.serialize ranges
  | .annotations _ annotations => Serial.table Annotation.serialize annotations
  | .parameterAnnotations _ parameters =>
    Serial.shortTable (fun x => Serial.table Annotation.serialize x.value) parameters
  | .typeAnnotations _ annotations => Serial.rows TypeAnnotation.serialize annotations
  | .annotationDefault value => value.serialize
  | .bootstrapMethods methods => Serial.rows BootstrapMethod.serialize methods
  | .methodParameters parameters =>
    Serial.shortTable (fun x => MethodParameter.serialize x.value) parameters
  | .moduleDeclaration declaration => declaration.serialize
  | .modulePackages packages => Serial.words packages
  | .moduleMainClass cls => Serial.u2 cls
  | .moduleHashes algorithm hashes => Serial.u2 algorithm ++ Serial.rows ModuleHash.serialize hashes
  | .moduleTarget platform => Serial.u2 platform
  | .moduleResolution access => Serial.u2 access
  | .nestHost cls => Serial.u2 cls
  | .nestMembers classes => Serial.words classes
  | .recordComponents components =>
    Serial.u2 (UInt16.ofNat components.length) ++ RecordComponent.serializeAll components
  | .permittedSubclasses classes => Serial.words classes

/-- The bytes of the body of a method; its code is written from its bytes. -/
def Code.serialize : Code → List UInt8
  | ⟨maxStack, maxLocals, _, _, content, _, handlers, attributes⟩ =>
    Serial.u2 maxStack ++ Serial.u2 maxLocals ++ Serial.block content ++
      Serial.rows ExceptionHandler.serialize handlers ++
      Serial.u2 (UInt16.ofNat attributes.length) ++ Attribute.serializeAll attributes

/-- The bytes of a component of a record. -/
def RecordComponent.serialize : RecordComponent → List UInt8
  | ⟨_, name, descriptor, attributes⟩ =>
    Serial.u2 name ++ Serial.u2 descriptor ++ Serial.u2 (UInt16.ofNat attributes.length) ++
      Attribute.serializeAll attributes

/-- The bytes of components, one behind the other. -/
def RecordComponent.serializeAll : List RecordComponent → List UInt8
  | [] => []
  | component :: rest => component.serialize ++ RecordComponent.serializeAll rest

/-- The bytes of an attribute. -/
def Attribute.serialize : Attribute → List UInt8
  | ⟨_, nameIndex, _, _, payload⟩ => Serial.u2 nameIndex ++ Serial.block payload.serialize

/-- The bytes of attributes, one behind the other. -/
def Attribute.serializeAll : List Attribute → List UInt8
  | [] => []
  | a :: rest => a.serialize ++ Attribute.serializeAll rest

end

theorem RecordComponent.serializeAll_eq_flatMap (components : List RecordComponent) :
    RecordComponent.serializeAll components = components.flatMap RecordComponent.serialize := by
  induction components with
  | nil => rfl
  | cons component rest ih => rw [RecordComponent.serializeAll, ih, List.flatMap_cons]

theorem Attribute.serializeAll_eq_flatMap (attributes : List Attribute) :
    Attribute.serializeAll attributes = attributes.flatMap Attribute.serialize := by
  induction attributes with
  | nil => rfl
  | cons a rest ih => rw [Attribute.serializeAll, ih, List.flatMap_cons]

/-! ## §3. Reading rows. -/

theorem readWords_inverts (what : String) : (readWords what).Inverts Serial.words :=
  .table _ (u2_inverts _)

theorem readRows_inverts {α : Type} {f : α → List UInt8} (what : String) {row : Decoder α}
    (h : row.Inverts f) : (readRows what row).Inverts (Serial.rows f) := .table _ (.located h)

theorem ExceptionHandler.read_inverts : read.Inverts serialize := by
  refine (u2_inverts _).bind fun startPc => (u2_inverts _).bind fun endPc =>
    (u2_inverts _).bind fun handlerPc => (u2_inverts _).bind fun catchType => .pure ?_
  simp only [serialize, List.append_nil, List.append_assoc]

theorem VerificationType.read_inverts : read.Inverts serialize := by
  refine position_still.bind fun start => (u1_inverts _).bind fun tag => ?_
  show Yields _ fun (type : VerificationType) more => Serial.tag tag.toNat ++ more = type.serialize
  generalize tag.toNat = n
  split
  case h_8 => exact (u2_inverts _).bind fun _ => .pure (by rw [List.append_nil, serialize])
  case h_9 => exact (u2_inverts _).bind fun _ => .pure (by rw [List.append_nil, serialize])
  case h_10 => exact .reject _ _
  all_goals exact .pure rfl

theorem VerificationType.readMany_yields (count : Nat) :
    (readMany count).Yields fun types bytes => bytes = serializeMany types :=
  (Yields.many count (.located read_inverts)).mono fun _ _ h => h.2

theorem StackMapFrame.read_inverts : read.Inverts serialize := by
  have hmany := Inverts.located VerificationType.read_inverts
  refine position_still.bind fun start => (u1_inverts _).bind fun frameType => ?_
  rcases hkind : FrameKind.ofType frameType
  · refine .pure ?_
    simp only [serialize, hkind]
  · refine (VerificationType.readMany_yields 1).bind fun stack bytes hstack => .pure ?_
    simp only [serialize, hkind, hstack, List.append_nil]
  · exact .reject _ _
  · refine (u2_inverts _).bind fun offsetDelta =>
      (VerificationType.readMany_yields 1).bind fun stack bytes hstack => .pure ?_
    simp only [serialize, hkind, hstack, List.append_nil]
  · refine (u2_inverts _).bind fun offsetDelta => .pure ?_
    simp only [serialize, hkind, List.append_nil]
  · refine (u2_inverts _).bind fun offsetDelta => .pure ?_
    simp only [serialize, hkind, List.append_nil]
  · refine (u2_inverts _).bind fun offsetDelta =>
      (VerificationType.readMany_yields _).bind fun locals bytes hlocals => .pure ?_
    simp only [serialize, hkind, hlocals, List.append_nil]
  · refine (u2_inverts _).bind fun offsetDelta => hmany.table_bind _ fun locals =>
      hmany.table_bind _ fun stack => .pure ?_
    simp only [serialize, hkind, Serial.rows, List.append_nil, List.append_assoc]

theorem InnerClass.read_inverts : read.Inverts serialize := by
  refine (u2_inverts _).bind fun inner => (u2_inverts _).bind fun outer =>
    (u2_inverts _).bind fun name => (u2_inverts _).bind fun access => .pure ?_
  simp only [serialize, List.append_nil, List.append_assoc]

theorem LineNumber.read_inverts : read.Inverts serialize := by
  refine (u2_inverts _).bind fun startPc => (u2_inverts _).bind fun line => .pure ?_
  rw [List.append_nil, serialize]

theorem LocalVariable.read_inverts : read.Inverts serialize := by
  refine (u2_inverts _).bind fun startPc => (u2_inverts _).bind fun rangeLength =>
    (u2_inverts _).bind fun name => (u2_inverts _).bind fun descriptor =>
    (u2_inverts _).bind fun index => .pure ?_
  simp only [serialize, List.append_nil, List.append_assoc]

theorem LocalVariable.readAll_inverts : readAll.Inverts (Serial.rows serialize) :=
  readRows_inverts _ read_inverts

theorem BootstrapMethod.read_inverts : read.Inverts serialize := by
  refine (u2_inverts _).bind fun method => (readWords_inverts _).bind fun arguments => .pure ?_
  rw [List.append_nil, serialize]

theorem MethodParameter.read_inverts : read.Inverts serialize := by
  refine (u2_inverts _).bind fun name => (u2_inverts _).bind fun access => .pure ?_
  rw [List.append_nil, serialize]

theorem ModuleRequires.read_inverts : read.Inverts serialize := by
  refine (u2_inverts _).bind fun required => (u2_inverts _).bind fun access =>
    (u2_inverts _).bind fun version => .pure ?_
  simp only [serialize, List.append_nil, List.append_assoc]

theorem ModuleExports.read_inverts (what : String) : (read what).Inverts serialize := by
  refine (u2_inverts _).bind fun package => (u2_inverts _).bind fun access =>
    (readWords_inverts _).bind fun targets => .pure ?_
  simp only [serialize, List.append_nil, List.append_assoc]

theorem ModuleProvides.read_inverts : read.Inverts serialize := by
  refine (u2_inverts _).bind fun service => (readWords_inverts _).bind fun providers => .pure ?_
  rw [List.append_nil, serialize]

theorem ModuleDeclaration.read_inverts : read.Inverts serialize := by
  refine (u2_inverts _).bind fun name => (u2_inverts _).bind fun access =>
    (u2_inverts _).bind fun version =>
    (readRows_inverts _ ModuleRequires.read_inverts).bind fun requires =>
    (readRows_inverts _ (ModuleExports.read_inverts _)).bind fun exports =>
    (readRows_inverts _ (ModuleExports.read_inverts _)).bind fun opens =>
    (readWords_inverts _).bind fun uses =>
    (readRows_inverts _ ModuleProvides.read_inverts).bind fun provides => .pure ?_
  simp only [serialize, List.append_nil, List.append_assoc]

theorem ModuleHash.read_inverts : read.Inverts serialize := by
  refine (u2_inverts _).bind fun name => .shortBlock_bind _ _ fun digest => .pure ?_
  rw [List.append_nil, serialize]

/-! ## §4. Reading payloads. -/

theorem readAttributes_inverts {inner : Decoder Attribute} (h : inner.Inverts Attribute.serialize) :
    (readAttributes inner).Inverts (Serial.table Attribute.serialize) := .table _ h

namespace Code

theorem array_yields (disassemble : Bool) (n : Nat) :
    (window "code array" n >>= ofArray disassemble n).Yields fun array bytes =>
      array.2.1.length = n ∧ bytes = array.2.1 := by
  refine (window_yields _ n).bind fun w bytes h => ?_
  obtain ⟨hin, hstop, rfl⟩ := h
  have hkept : (w.slice n).length = n ∧ w.peek n = w.slice n := by
    rw [Cursor.slice_eq_peek hin]
    exact ⟨Cursor.length_peek hin (by omega), rfl⟩
  unfold ofArray
  cases disassemble with
  | false => exact .pure (by rw [List.append_nil]; exact hkept)
  | true =>
    exact (delegate_still w _).bind fun _ => .pure (by rw [List.append_nil]; exact hkept)

theorem read_inverts (disassemble : Bool) {inner : Decoder Attribute}
    (h : inner.Inverts Attribute.serialize) : (read disassemble inner).Inverts serialize := by
  rw [read_eq]
  refine (u2_inverts _).bind fun maxStack => (u2_inverts _).bind fun maxLocals =>
    (u4_inverts _).bind fun length => (array_yields disassemble length.toNat).bind
    fun array bytes harray => (readRows_inverts _ ExceptionHandler.read_inverts).bind fun handlers =>
    (readAttributes_inverts h).bind fun attributes => .pure ?_
  obtain ⟨hlength, rfl⟩ := harray
  simp only [serialize, Serial.block, Serial.table, hlength, UInt32.ofNat_toNat,
    Attribute.serializeAll_eq_flatMap, List.append_nil, List.append_assoc]

end Code

theorem RecordComponent.read_inverts {inner : Decoder Attribute}
    (h : inner.Inverts Attribute.serialize) : (read inner).Inverts serialize := by
  refine position_still.bind fun start => (u2_inverts _).bind fun name =>
    (u2_inverts _).bind fun descriptor => (readAttributes_inverts h).bind fun attributes =>
    (spanFrom_still start).bind fun _ => .pure ?_
  simp only [serialize, Serial.table, Attribute.serializeAll_eq_flatMap, List.append_nil,
    List.append_assoc]

namespace Payload

theorem debugExtension_inverts (disassemble : Bool) (inner : Decoder Attribute) :
    (read disassemble inner .sourceDebugExtension).Inverts serialize := by
  intro c hc payload hresult _
  rw [read_debugExtension] at hresult ⊢
  obtain rfl : .sourceDebugExtension (c.slice c.remaining) = payload := Except.ok.inj hresult
  have hsize : c.remaining = (c.remaining.toNat : Int) := by
    have hbound := hc.2.1
    simp only [Cursor.remaining]
    omega
  have hend : c.pos + c.remaining = c.stop := by
    simp only [Cursor.remaining]
    omega
  refine ⟨c.remaining.toNat, ?_, ?_, ?_⟩
  · rw [← hsize, hend]
  · omega
  · have hcontent : c.slice c.remaining = c.peek c.remaining.toNat := by
      rw [hsize, Cursor.slice_eq_peek hc, Int.toNat_natCast]
    show c.peek c.remaining.toNat = serialize (.sourceDebugExtension (c.slice c.remaining))
    rw [hcontent, serialize]

theorem read_inverts (disassemble : Bool) {inner : Decoder Attribute}
    (h : inner.Inverts Attribute.serialize) (kind : AttributeKind) :
    (read disassemble inner kind).Inverts serialize := by
  -- Each payload is one structure and its constructor.
  have of : ∀ {α : Type} {d : Decoder α} {f : α → List UInt8} {ctor : α → Payload},
      d.Inverts f → (∀ a, f a = (ctor a).serialize) →
      (d >>= fun a => pure (ctor a)).Inverts serialize := by
    intro α d f ctor hd hctor
    exact hd.bind fun a => .pure (by rw [List.append_nil, hctor])
  cases kind
  case constantValue => exact of (u2_inverts _) fun _ => by rw [serialize]
  case code => exact of (Code.read_inverts disassemble h) fun _ => by rw [serialize]
  case stackMapTable =>
    exact of (readRows_inverts _ StackMapFrame.read_inverts) fun _ => by rw [serialize]
  case exceptions => exact of (readWords_inverts _) fun _ => by rw [serialize]
  case innerClasses =>
    exact of (readRows_inverts _ InnerClass.read_inverts) fun _ => by rw [serialize]
  case enclosingMethod =>
    refine (u2_inverts _).bind fun cls => (u2_inverts _).bind fun method => .pure ?_
    rw [List.append_nil, serialize]
  case synthetic => exact .pure (by rw [serialize])
  case deprecated => exact .pure (by rw [serialize])
  case signature => exact of (u2_inverts _) fun _ => by rw [serialize]
  case sourceFile => exact of (u2_inverts _) fun _ => by rw [serialize]
  case sourceDebugExtension => exact debugExtension_inverts disassemble inner
  case lineNumbers =>
    exact of (readRows_inverts _ LineNumber.read_inverts) fun _ => by rw [serialize]
  case localVariables => exact of LocalVariable.readAll_inverts fun _ => by rw [serialize]
  case localVariableTypes => exact of LocalVariable.readAll_inverts fun _ => by rw [serialize]
  case annotations => exact of Annotation.readAll_inverts fun _ => by rw [serialize]
  case parameterAnnotations => exact of Annotation.readParameters_inverts fun _ => by rw [serialize]
  case typeAnnotations => exact of TypeAnnotation.readAll_inverts fun _ => by rw [serialize]
  case annotationDefault => exact of ElementValue.read_inverts fun _ => by rw [serialize]
  case bootstrapMethods =>
    exact of (readRows_inverts _ BootstrapMethod.read_inverts) fun _ => by rw [serialize]
  case methodParameters =>
    refine (Inverts.located MethodParameter.read_inverts).shortTable_bind _ fun parameters =>
      .pure ?_
    rw [List.append_nil, serialize]
  case moduleDeclaration => exact of ModuleDeclaration.read_inverts fun _ => by rw [serialize]
  case modulePackages => exact of (readWords_inverts _) fun _ => by rw [serialize]
  case moduleMainClass => exact of (u2_inverts _) fun _ => by rw [serialize]
  case moduleHashes =>
    refine (u2_inverts _).bind fun algorithm =>
      (readRows_inverts _ ModuleHash.read_inverts).bind fun hashes => .pure ?_
    rw [List.append_nil, serialize]
  case moduleTarget => exact of (u2_inverts _) fun _ => by rw [serialize]
  case moduleResolution => exact of (u2_inverts _) fun _ => by rw [serialize]
  case nestHost => exact of (u2_inverts _) fun _ => by rw [serialize]
  case nestMembers => exact of (readWords_inverts _) fun _ => by rw [serialize]
  case recordComponents =>
    refine (RecordComponent.read_inverts h).table_bind _ fun components => .pure ?_
    rw [List.append_nil, serialize, Serial.table, RecordComponent.serializeAll_eq_flatMap]
  case permittedSubclasses => exact of (readWords_inverts _) fun _ => by rw [serialize]

end Payload

/-! ## §5. Reading attributes. -/

namespace Attribute

/-- A payload without a notice of unread bytes fills its window. -/
theorem readPayload_yields {payload : Decoder Payload} (h : payload.Inverts Payload.serialize)
    (what name : String) (start : Int) (declared : UInt32) (n : Nat) :
    (window what n >>= readPayload payload name start declared).Yields fun p bytes =>
      bytes.length = n ∧ bytes = p.serialize := by
  refine (window_yields what n).bind fun w bytes hw => ?_
  obtain ⟨hin, hstop, rfl⟩ := hw
  intro c hc p hresult hthorough
  rw [readPayload_apply] at hresult hthorough ⊢
  have hrun := h w hin
  rcases hpayload : payload w with ⟨(fault | p'), after, notices⟩ <;>
    rw [hpayload] at hresult hthorough hrun
  · rcases fault with _ | _ | _ <;> cases hresult
  obtain rfl : p' = p := Except.ok.inj hresult
  -- A payload that leaves bytes is noted, and there is no such notice.
  have hend : after.atEnd = true := by
    by_cases hend : after.atEnd = true
    · exact hend
    · have := hthorough (.unreadPayload name start after.remaining declared) (by
        simp [concluded, hend])
      cases this
  obtain ⟨k, hcursor, hkstop, hbytes⟩ := hrun p' rfl fun m hm =>
    hthorough m (List.mem_append_left _ hm)
  obtain rfl : after = w.goto (w.pos + k) := hcursor
  obtain rfl : k = n := by
    rw [Cursor.atEnd_iff, Cursor.goto_pos, Cursor.goto_stop] at hend
    omega
  -- The window is behind the cursor already, and nothing more is read.
  have hnone : c.pos + (0 : Nat) ≤ c.stop := by
    have := hc.2.1
    omega
  refine ⟨0, ?_, hnone, ?_⟩
  · rw [concluded_cursor, Int.natCast_zero, Int.add_zero, Cursor.goto_self]
  · rw [List.length_eq_zero_iff.mp (Cursor.length_peek hc hnone)]
    show (w.peek k ++ []).length = k ∧ w.peek k ++ [] = p'.serialize
    rw [List.append_nil]
    exact ⟨Cursor.length_peek hin hkstop, hbytes⟩

theorem keepRaw_yields (what : String) (n : Nat) (why : Notice) :
    (window what n >>= keepRaw why).Yields fun p bytes =>
      bytes.length = n ∧ bytes = p.serialize := by
  rw [window_keepRaw]
  refine (bytes_yields what n).bind fun content bytes h => (notice_still why).bind fun _ => .pure ?_
  obtain ⟨hlength, rfl⟩ := h
  rw [List.append_nil, Payload.serialize]
  exact ⟨hlength, rfl⟩

theorem readEnclosed_yields (name : Option String) {payload : AttributeKind → Decoder Payload}
    (h : ∀ kind, (payload kind).Inverts Payload.serialize) (start : Int) (nameIndex : UInt16)
    (declared : UInt32) :
    (readEnclosed name payload start nameIndex declared).Yields fun p bytes =>
      bytes.length = declared.toNat ∧ bytes = p.serialize := by
  unfold readEnclosed
  cases name with
  | none => exact keepRaw_yields _ _ _
  | some name =>
    dsimp only
    cases AttributeKind.ofName? name with
    | none => exact keepRaw_yields _ _ _
    | some kind => exact readPayload_yields (h kind) _ _ _ _ _

theorem body_inverts (pool : Pool) (disassemble : Bool) {inner : Decoder Attribute}
    (h : inner.Inverts serialize) : (body pool disassemble inner).Inverts serialize := by
  rw [body_eq]
  refine position_still.bind fun start => (u2_inverts _).bind fun nameIndex =>
    (u4_inverts _).bind fun declared => (readEnclosed_yields _ (Payload.read_inverts disassemble h)
      start nameIndex declared).bind fun payload bytes hpayload => .pure ?_
  obtain ⟨hlength, rfl⟩ := hpayload
  rw [List.append_nil, serialize, Serial.block, hlength, UInt32.ofNat_toNat]

theorem read_inverts (pool : Pool) (disassemble : Bool) :
    (read pool disassemble).Inverts serialize := .fix fun _ => body_inverts pool disassemble

theorem readAll_inverts (pool : Pool) (disassemble : Bool) :
    (readAll pool disassemble).Inverts (Serial.table serialize) :=
  readAttributes_inverts (read_inverts pool disassemble)

end Attribute

end JavaClass
