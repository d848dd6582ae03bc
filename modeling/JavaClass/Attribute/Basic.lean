/-
  JavaClass.Attribute.Basic — attributes and what they hold.

  An attribute is an envelope, a name and a declared length, around a payload.  The name decides
  how the payload is laid out; the payload of an unknown name is kept as bytes.  Two payloads hold
  further attributes: code, and the components of a record.
-/
import JavaClass.Annotation.Basic
import JavaClass.Instruction.Decoder

namespace JavaClass

/-! ## §1. Rows of tables. -/

/-- A stretch of code and the handler of its exceptions. -/
structure ExceptionHandler where
  startPc : UInt16
  endPc : UInt16
  handlerPc : UInt16
  /-- The class that is caught; 0 catches everything. -/
  catchType : UInt16
deriving DecidableEq, Repr

/-- What the verifier knows about a variable. -/
inductive VerificationType where
  | top
  | integer
  | float
  | double
  | long
  | null
  | uninitializedThis
  | object (cls : UInt16)
  | uninitialized (offset : UInt16)
deriving DecidableEq, Repr

namespace VerificationType

/-- The tag of a verification type. -/
def tag : VerificationType → Nat
  | top => 0
  | integer => 1
  | float => 2
  | double => 3
  | long => 4
  | null => 5
  | uninitializedThis => 6
  | object _ => 7
  | uninitialized _ => 8

/-- The name of a verification type. -/
def name : VerificationType → String
  | top => "Top"
  | integer => "Integer"
  | float => "Float"
  | double => "Double"
  | long => "Long"
  | null => "Null"
  | uninitializedThis => "UninitializedThis"
  | object _ => "Object"
  | uninitialized _ => "Uninitialized"

end VerificationType

/-- How a frame follows from the one before it. -/
inductive FrameKind where
  | same
  | sameLocalsOneItem
  | reserved
  | sameLocalsOneItemExtended
  | chop
  | sameExtended
  | append
  | full
deriving DecidableEq, Repr

namespace FrameKind

/-- The kind of each type of frame. -/
def ofType (frameType : UInt8) : FrameKind :=
  let n := frameType.toNat
  if n ≤ 63 then same
  else if n ≤ 127 then sameLocalsOneItem
  else if n ≤ 246 then reserved
  else if n = 247 then sameLocalsOneItemExtended
  else if n ≤ 250 then chop
  else if n = 251 then sameExtended
  else if n ≤ 254 then append
  else full

/-- The name of a kind of frame. -/
def name : FrameKind → String
  | same => "same_frame"
  | sameLocalsOneItem => "same_locals_1_stack_item_frame"
  | reserved => "reserved"
  | sameLocalsOneItemExtended => "same_locals_1_stack_item_frame_extended"
  | chop => "chop_frame"
  | sameExtended => "same_frame_extended"
  | append => "append_frame"
  | full => "full_frame"

end FrameKind

/-- What the verifier knows at one place of the code. -/
structure StackMapFrame where
  frameType : UInt8
  offsetDelta : UInt16
  locals : List (Located VerificationType)
  stack : List (Located VerificationType)
deriving DecidableEq, Repr

/-- A class that is a member of another. -/
structure InnerClass where
  inner : UInt16
  outer : UInt16
  name : UInt16
  access : UInt16
deriving DecidableEq, Repr

/-- The source line of a place in the code. -/
structure LineNumber where
  startPc : UInt16
  line : UInt16
deriving DecidableEq, Repr

/-- A local variable in a stretch of code. -/
structure LocalVariable where
  startPc : UInt16
  rangeLength : UInt16
  name : UInt16
  /-- A descriptor, or a signature in the table of generic types. -/
  descriptor : UInt16
  index : UInt16
deriving DecidableEq, Repr

/-- A method that links a dynamic constant or call. -/
structure BootstrapMethod where
  method : UInt16
  arguments : List UInt16
deriving DecidableEq, Repr

/-- A parameter of a method. -/
structure MethodParameter where
  name : UInt16
  access : UInt16
deriving DecidableEq, Repr

/-- A module that a module requires. -/
structure ModuleRequires where
  required : UInt16
  access : UInt16
  version : UInt16
deriving DecidableEq, Repr

/-- A package that a module exports or opens. -/
structure ModuleExports where
  package : UInt16
  access : UInt16
  targets : List UInt16
deriving DecidableEq, Repr

/-- A service that a module provides. -/
structure ModuleProvides where
  service : UInt16
  providers : List UInt16
deriving DecidableEq, Repr

/-- A module. -/
structure ModuleDeclaration where
  name : UInt16
  access : UInt16
  version : UInt16
  requires : List (Located ModuleRequires)
  exports : List (Located ModuleExports)
  opens : List (Located ModuleExports)
  uses : List UInt16
  provides : List (Located ModuleProvides)
deriving DecidableEq, Repr

/-- The digest of a module. -/
structure ModuleHash where
  name : UInt16
  digest : List UInt8
deriving DecidableEq, Repr

/-! ## §2. Payloads. -/

mutual

/-- What an attribute holds. -/
inductive Payload where
  | raw (content : List UInt8)
  | constantValue (index : UInt16)
  | code (code : Code)
  | stackMapTable (frames : List (Located StackMapFrame))
  | exceptions (classes : List UInt16)
  | innerClasses (classes : List (Located InnerClass))
  | enclosingMethod (cls method : UInt16)
  | synthetic
  | deprecated
  | signature (index : UInt16)
  | sourceFile (index : UInt16)
  | sourceDebugExtension (content : List UInt8)
  | lineNumbers (rows : List (Located LineNumber))
  | localVariables (rows : List (Located LocalVariable))
  | localVariableTypes (rows : List (Located LocalVariable))
  | annotations (visible : Bool) (annotations : List Annotation)
  | parameterAnnotations (visible : Bool) (parameters : List (Located (List Annotation)))
  | typeAnnotations (visible : Bool) (annotations : List (Located TypeAnnotation))
  | annotationDefault (value : ElementValue)
  | bootstrapMethods (methods : List (Located BootstrapMethod))
  | methodParameters (parameters : List (Located MethodParameter))
  | moduleDeclaration (declaration : ModuleDeclaration)
  | modulePackages (packages : List UInt16)
  | moduleMainClass (cls : UInt16)
  | moduleHashes (algorithm : UInt16) (hashes : List (Located ModuleHash))
  | moduleTarget (platform : UInt16)
  | moduleResolution (access : UInt16)
  | nestHost (cls : UInt16)
  | nestMembers (classes : List UInt16)
  | recordComponents (components : List RecordComponent)
  | permittedSubclasses (classes : List UInt16)

/-- The body of a method. -/
structure Code where
  maxStack : UInt16
  maxLocals : UInt16
  start : Int
  length : UInt32
  content : List UInt8
  listing : Listing
  handlers : List (Located ExceptionHandler)
  attributes : List Attribute

/-- A component of a record, with its place. -/
structure RecordComponent where
  span : Span
  name : UInt16
  descriptor : UInt16
  attributes : List Attribute

/-- An envelope, with its place, and its payload. -/
structure Attribute where
  start : Int
  nameIndex : UInt16
  name : Option String
  declared : UInt32
  payload : Payload

end

namespace Attribute

/-- The number of bytes before the payload. -/
def envelopeLength : Int := 6

/-- The number of bytes of envelope and payload. -/
def length (a : Attribute) : Int := envelopeLength + a.declared.toNat

/-- Envelope and payload. -/
def span (a : Attribute) : Span := ⟨a.start, a.length⟩

/-- The position of the payload. -/
def payloadStart (a : Attribute) : Int := a.start + envelopeLength

/-- The first attribute of a name. -/
def find? (attributes : List Attribute) (name : String) : Option Attribute :=
  attributes.find? fun a => a.name = some name

end Attribute

end JavaClass
