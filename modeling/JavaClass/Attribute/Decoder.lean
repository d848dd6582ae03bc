/-
  JavaClass.Attribute.Decoder — attributes read from bytes.

  The envelope is read first, and the payload then in a window of the declared length.  The
  declared length alone decides where the next attribute starts: bytes that the payload leaves are
  passed over with a notice, and a payload that needs more bytes than its window has is malformed.

  Payloads are read with a given decoder for the attributes inside them; `Attribute.read` ties the
  knot.
-/
import JavaClass.Annotation.Decoder
import JavaClass.Attribute.Basic
import JavaClass.Attribute.Kind
import JavaClass.Constant.Pool

namespace JavaClass

open Decoder

/-! ## §1. Rows of tables. -/

/-- Read a count and that many numbers of two bytes. -/
def readWords (what : String) : Decoder (List UInt16) := do
  let count ← u2 (what ++ " count")
  many count.toNat (u2 what)

/-- Read a count of two bytes and that many rows, each with its place. -/
def readRows {α : Type} (what : String) (row : Decoder α) : Decoder (List (Located α)) := do
  let count ← u2 what
  many count.toNat (located row)

/-- Read the handler of a stretch of code. -/
def ExceptionHandler.read : Decoder ExceptionHandler := do
  let startPc ← u2 "start_pc"
  let endPc ← u2 "end_pc"
  let handlerPc ← u2 "handler_pc"
  return ⟨startPc, endPc, handlerPc, ← u2 "catch_type"⟩

/-- Read a verification type. -/
def VerificationType.read : Decoder VerificationType := do
  let start ← position
  let tag ← u1 "verification_type_info tag"
  match tag.toNat with
  | 0 => return .top
  | 1 => return .integer
  | 2 => return .float
  | 3 => return .double
  | 4 => return .long
  | 5 => return .null
  | 6 => return .uninitializedThis
  | 7 => return .object (← u2 "cpool_index")
  | 8 => return .uninitialized (← u2 "offset")
  | _ => reject (.verificationTag tag) start

/-- Read `count` verification types. -/
def VerificationType.readMany (count : Nat) : Decoder (List (Located VerificationType)) :=
  many count (located VerificationType.read)

/-- Read a frame. -/
def StackMapFrame.read : Decoder StackMapFrame := do
  let start ← position
  let frameType ← u1 "frame_type"
  match FrameKind.ofType frameType with
  | .same => return ⟨frameType, frameType.toUInt16, [], []⟩
  | .sameLocalsOneItem =>
    return ⟨frameType, frameType.toUInt16 - 64, [], ← VerificationType.readMany 1⟩
  | .reserved => reject (.frameType frameType) start
  | .sameLocalsOneItemExtended =>
    let offsetDelta ← u2 "offset_delta"
    return ⟨frameType, offsetDelta, [], ← VerificationType.readMany 1⟩
  | .chop | .sameExtended => return ⟨frameType, ← u2 "offset_delta", [], []⟩
  | .append =>
    let offsetDelta ← u2 "offset_delta"
    return ⟨frameType, offsetDelta, ← VerificationType.readMany (frameType.toNat - 251), []⟩
  | .full =>
    let offsetDelta ← u2 "offset_delta"
    let localCount ← u2 "number_of_locals"
    let locals ← VerificationType.readMany localCount.toNat
    let stackCount ← u2 "number_of_stack_items"
    return ⟨frameType, offsetDelta, locals, ← VerificationType.readMany stackCount.toNat⟩

/-- Read a member class. -/
def InnerClass.read : Decoder InnerClass := do
  let inner ← u2 "inner_class_info_index"
  let outer ← u2 "outer_class_info_index"
  let name ← u2 "inner_name_index"
  return ⟨inner, outer, name, ← u2 "inner_class_access_flags"⟩

/-- Read the line of a place. -/
def LineNumber.read : Decoder LineNumber := do
  let startPc ← u2 "start_pc"
  return ⟨startPc, ← u2 "line_number"⟩

/-- Read a local variable. -/
def LocalVariable.read : Decoder LocalVariable := do
  let startPc ← u2 "start_pc"
  let rangeLength ← u2 "length"
  let name ← u2 "name_index"
  let descriptor ← u2 "descriptor_index"
  return ⟨startPc, rangeLength, name, descriptor, ← u2 "index"⟩

/-- Read a table of local variables. -/
def LocalVariable.readAll : Decoder (List (Located LocalVariable)) :=
  readRows "local_variable_table_length" LocalVariable.read

/-- Read a bootstrap method. -/
def BootstrapMethod.read : Decoder BootstrapMethod := do
  let method ← u2 "bootstrap_method_ref"
  return ⟨method, ← readWords "bootstrap_argument"⟩

/-- Read a parameter. -/
def MethodParameter.read : Decoder MethodParameter := do
  let name ← u2 "name_index"
  return ⟨name, ← u2 "access_flags"⟩

/-- Read a required module. -/
def ModuleRequires.read : Decoder ModuleRequires := do
  let required ← u2 "requires_index"
  let access ← u2 "requires_flags"
  return ⟨required, access, ← u2 "requires_version_index"⟩

/-- Read an exported or opened package; `what` says which. -/
def ModuleExports.read (what : String) : Decoder ModuleExports := do
  let package ← u2 (what ++ "_index")
  let access ← u2 (what ++ "_flags")
  return ⟨package, access, ← readWords (what ++ "_to_index")⟩

/-- Read a provided service. -/
def ModuleProvides.read : Decoder ModuleProvides := do
  let service ← u2 "provides_index"
  return ⟨service, ← readWords "provides_with_index"⟩

/-- Read a module. -/
def ModuleDeclaration.read : Decoder ModuleDeclaration := do
  let name ← u2 "module_name_index"
  let access ← u2 "module_flags"
  let version ← u2 "module_version_index"
  let requires ← readRows "requires_count" ModuleRequires.read
  let exports ← readRows "exports_count" (ModuleExports.read "exports")
  let opens ← readRows "opens_count" (ModuleExports.read "opens")
  let uses ← readWords "uses_index"
  let provides ← readRows "provides_count" ModuleProvides.read
  return ⟨name, access, version, requires, exports, opens, uses, provides⟩

/-- Read a digest. -/
def ModuleHash.read : Decoder ModuleHash := do
  let name ← u2 "module_name_index"
  let size ← u2 "hash_length"
  return ⟨name, ← bytes "hash" size.toNat⟩

/-! ## §2. Payloads. -/

/-- Read a count and that many attributes, each with `one`. -/
def readAttributes (one : Decoder Attribute) : Decoder (List Attribute) := do
  let count ← u2 "attributes_count"
  many count.toNat one

/-- Read the body of a method; its instructions only if asked. -/
def Code.read (disassemble : Bool) (inner : Decoder Attribute) : Decoder Code := do
  let maxStack ← u2 "max_stack"
  let maxLocals ← u2 "max_locals"
  let length ← u4 "code_length"
  let content ← window "code array" length.toNat
  let listing ← if disassemble then delegate content Listing.read else pure ⟨[], none⟩
  let handlers ← readRows "exception_table_length" ExceptionHandler.read
  let attributes ← readAttributes inner
  return ⟨maxStack, maxLocals, content.pos, length, content.slice length.toNat, listing, handlers,
    attributes⟩

/-- Read a component of a record. -/
def RecordComponent.read (inner : Decoder Attribute) : Decoder RecordComponent := do
  let start ← position
  let name ← u2 "name_index"
  let descriptor ← u2 "descriptor_index"
  let attributes ← readAttributes inner
  return ⟨← spanFrom start, name, descriptor, attributes⟩

/-- Read a payload, the attributes inside it with `inner`. -/
def Payload.read (disassemble : Bool) (inner : Decoder Attribute) : AttributeKind → Decoder Payload
  | .constantValue => return .constantValue (← u2 "constantvalue_index")
  | .code => return .code (← Code.read disassemble inner)
  | .stackMapTable => return .stackMapTable (← readRows "number_of_entries" StackMapFrame.read)
  | .exceptions => return .exceptions (← readWords "exception_index")
  | .innerClasses => return .innerClasses (← readRows "number_of_classes" InnerClass.read)
  | .enclosingMethod => do
    let cls ← u2 "class_index"
    return .enclosingMethod cls (← u2 "method_index")
  | .synthetic => return .synthetic
  | .deprecated => return .deprecated
  | .signature => return .signature (← u2 "signature_index")
  | .sourceFile => return .sourceFile (← u2 "sourcefile_index")
  | .sourceDebugExtension => do
    return .sourceDebugExtension (← bytes "debug_extension" (← cursor).remaining)
  | .lineNumbers => return .lineNumbers (← readRows "line_number_table_length" LineNumber.read)
  | .localVariables => return .localVariables (← LocalVariable.readAll)
  | .localVariableTypes => return .localVariableTypes (← LocalVariable.readAll)
  | .annotations visible => return .annotations visible (← Annotation.readAll)
  | .parameterAnnotations visible =>
    return .parameterAnnotations visible (← Annotation.readParameters)
  | .typeAnnotations visible => return .typeAnnotations visible (← TypeAnnotation.readAll)
  | .annotationDefault => return .annotationDefault (← ElementValue.read)
  | .bootstrapMethods =>
    return .bootstrapMethods (← readRows "num_bootstrap_methods" BootstrapMethod.read)
  | .methodParameters => do
    let count ← u1 "parameters_count"
    return .methodParameters (← many count.toNat (located MethodParameter.read))
  | .moduleDeclaration => return .moduleDeclaration (← ModuleDeclaration.read)
  | .modulePackages => return .modulePackages (← readWords "package_index")
  | .moduleMainClass => return .moduleMainClass (← u2 "main_class_index")
  | .moduleHashes => do
    let algorithm ← u2 "algorithm_index"
    return .moduleHashes algorithm (← readRows "hashes_count" ModuleHash.read)
  | .moduleTarget => return .moduleTarget (← u2 "target_platform_index")
  | .moduleResolution => return .moduleResolution (← u2 "resolution_flags")
  | .nestHost => return .nestHost (← u2 "host_class_index")
  | .nestMembers => return .nestMembers (← readWords "class")
  | .recordComponents => do
    let count ← u2 "components_count"
    return .recordComponents (← many count.toNat (RecordComponent.read inner))
  | .permittedSubclasses => return .permittedSubclasses (← readWords "class")

/-! ## §3. Envelopes. -/

namespace Attribute

/-- What the payload of an attribute is called in faults. -/
def payloadLabel (name : Option String) : String :=
  (if name.getD "" = "" then "attribute" else name.getD "") ++ " payload"

/-- Read the payload of a known attribute that starts at `start`, in the window `w`. -/
def readPayload (payload : Decoder Payload) (name : String) (start : Int) (declared : UInt32)
    (w : Cursor) : Decoder Payload := do
  match ← inside w payload with
  | (.ok payload, after) =>
    unless after.atEnd do
      notice (.unreadPayload name start after.remaining declared)
    return payload
  | (.error (.truncated _ _ _ offset), _) => reject (.payload name declared) offset
  | (.error fault, _) => fail fault

/-- Keep a payload as the bytes of its window, with a notice. -/
def keepRaw (why : Notice) (w : Cursor) : Decoder Payload := do
  notice why
  return .raw (w.slice w.remaining)

/-- Read an attribute, the attributes inside it with `inner`. -/
def body (pool : Pool) (disassemble : Bool) (inner : Decoder Attribute) : Decoder Attribute := do
  let start ← position
  let nameIndex ← u2 "attribute_name_index"
  let declared ← u4 "attribute_length"
  let name := pool.utf8? nameIndex.toNat
  let w ← window (payloadLabel name) declared.toNat
  let payload ← match name with
    | none => keepRaw (.unnamedAttribute start nameIndex) w
    | some name =>
      match AttributeKind.ofName? name with
      | none => keepRaw (.unknownAttribute name start) w
      | some kind => readPayload (Payload.read disassemble inner kind) name start declared w
  return ⟨start, nameIndex, name, declared, payload⟩

/-- Read an attribute; code is disassembled only if asked. -/
def read (pool : Pool) (disassemble : Bool) : Decoder Attribute := fix (body pool disassemble)

/-- Read a count and that many attributes. -/
def readAll (pool : Pool) (disassemble : Bool) : Decoder (List Attribute) :=
  readAttributes (read pool disassemble)

end Attribute

end JavaClass
