/-
  JavaClass.Document.Attribute — attributes as documents.
-/
import JavaClass.Attribute.Basic
import JavaClass.Document.Annotation
import JavaClass.Document.Instruction

namespace JavaClass

open Document

/-! ## §1. Rows of tables. -/

/-- The handler of a stretch of code. -/
def ExceptionHandler.document (h : Located ExceptionHandler) : Document :=
  Document.located "ExceptionTableEntry" h.span [
    ("start_pc", word h.value.startPc), ("end_pc", word h.value.endPc),
    ("handler_pc", word h.value.handlerPc), ("catch_type", word h.value.catchType)]

/-- The slot of the class that a verification type names. -/
def VerificationType.cls? : VerificationType → Option UInt16
  | object cls => some cls
  | _ => none

/-- The offset of the instruction that made an uninitialized object. -/
def VerificationType.offset? : VerificationType → Option UInt16
  | uninitialized offset => some offset
  | _ => none

/-- A verification type. -/
def VerificationType.document (t : Located VerificationType) : Document :=
  Document.located "VerificationType" t.span [
    ("tag", nat t.value.tag), ("name", .text t.value.name),
    ("cpool_index", optional word t.value.cls?), ("offset", optional word t.value.offset?)]

/-- A frame. -/
def StackMapFrame.document (f : Located StackMapFrame) : Document :=
  Document.located "StackMapFrame" f.span [
    ("frame_type", byte f.value.frameType),
    ("kind", .text (FrameKind.ofType f.value.frameType).name),
    ("offset_delta", word f.value.offsetDelta),
    ("locals", .list (f.value.locals.map VerificationType.document)),
    ("stack", .list (f.value.stack.map VerificationType.document))]

/-- A member class. -/
def InnerClass.document (c : Located InnerClass) : Document :=
  Document.located "InnerClass" c.span [
    ("inner_class_info_index", word c.value.inner), ("outer_class_info_index", word c.value.outer),
    ("inner_name_index", word c.value.name), ("inner_class_access_flags", word c.value.access)]

/-- The line of a place. -/
def LineNumber.document (l : Located LineNumber) : Document :=
  Document.located "LineNumber" l.span
    [("start_pc", word l.value.startPc), ("line_number", word l.value.line)]

/-- A local variable. -/
def LocalVariable.document (v : Located LocalVariable) : Document :=
  Document.located "LocalVariable" v.span [
    ("start_pc", word v.value.startPc), ("range_length", word v.value.rangeLength),
    ("name_index", word v.value.name), ("descriptor_index", word v.value.descriptor),
    ("index", word v.value.index)]

/-- A bootstrap method. -/
def BootstrapMethod.document (m : Located BootstrapMethod) : Document :=
  Document.located "BootstrapMethod" m.span [
    ("bootstrap_method_ref", word m.value.method),
    ("bootstrap_arguments", words m.value.arguments)]

/-- A parameter. -/
def MethodParameter.document (p : Located MethodParameter) : Document :=
  Document.located "MethodParameter" p.span
    [("name_index", word p.value.name), ("access_flags", word p.value.access)]

/-- A required module. -/
def ModuleRequires.document (r : Located ModuleRequires) : Document :=
  Document.located "ModuleRequires" r.span [
    ("requires_index", word r.value.required), ("requires_flags", word r.value.access),
    ("requires_version_index", word r.value.version)]

/-- An exported or opened package. -/
def ModuleExports.document (e : Located ModuleExports) : Document :=
  Document.located "ModuleExports" e.span [
    ("package_index", word e.value.package), ("flags", word e.value.access),
    ("to_index", words e.value.targets)]

/-- A provided service. -/
def ModuleProvides.document (p : Located ModuleProvides) : Document :=
  Document.located "ModuleProvides" p.span
    [("provides_index", word p.value.service), ("with_index", words p.value.providers)]

/-- A module. -/
def ModuleDeclaration.document (d : ModuleDeclaration) : Document :=
  record "ModuleAttribute" [
    ("module_name_index", word d.name), ("module_flags", word d.access),
    ("module_version_index", word d.version),
    ("requires", .list (d.requires.map ModuleRequires.document)),
    ("exports", .list (d.exports.map ModuleExports.document)),
    ("opens", .list (d.opens.map ModuleExports.document)),
    ("uses_index", words d.uses),
    ("provides", .list (d.provides.map ModuleProvides.document))]

/-- A digest. -/
def ModuleHash.document (h : Located ModuleHash) : Document :=
  Document.located "ModuleHash" h.span
    [("module_name_index", word h.value.name), ("hash", bytes h.value.digest)]

/-! ## §2. Attributes. -/

mutual

/-- What an attribute holds. -/
def Payload.document : Payload → Document
  | .raw content => record "RawAttribute" [("data", bytes content)]
  | .constantValue index => record "ConstantValueAttribute" [("constantvalue_index", word index)]
  | .code code => code.document
  | .stackMapTable frames =>
    record "StackMapTableAttribute" [("entries", .list (frames.map StackMapFrame.document))]
  | .exceptions classes => record "ExceptionsAttribute" [("exception_index_table", words classes)]
  | .innerClasses classes =>
    record "InnerClassesAttribute" [("classes", .list (classes.map InnerClass.document))]
  | .enclosingMethod cls method =>
    record "EnclosingMethodAttribute" [("class_index", word cls), ("method_index", word method)]
  | .synthetic => record "SyntheticAttribute" []
  | .deprecated => record "DeprecatedAttribute" []
  | .signature index => record "SignatureAttribute" [("signature_index", word index)]
  | .sourceFile index => record "SourceFileAttribute" [("sourcefile_index", word index)]
  | .sourceDebugExtension content =>
    record "SourceDebugExtensionAttribute" [("debug_extension", bytes content)]
  | .lineNumbers rows =>
    record "LineNumberTableAttribute" [("line_number_table", .list (rows.map LineNumber.document))]
  | .localVariables rows =>
    record "LocalVariableTableAttribute"
      [("local_variable_table", .list (rows.map LocalVariable.document))]
  | .localVariableTypes rows =>
    record "LocalVariableTypeTableAttribute"
      [("local_variable_type_table", .list (rows.map LocalVariable.document))]
  | .annotations visible annotations =>
    record "AnnotationsAttribute"
      [("visible", .bool visible), ("annotations", .list (annotations.map Annotation.document))]
  | .parameterAnnotations visible parameters =>
    record "ParameterAnnotationsAttribute" [
      ("visible", .bool visible),
      ("parameter_annotations", .list (parameters.map Annotation.parameterDocument))]
  | .typeAnnotations visible annotations =>
    record "TypeAnnotationsAttribute"
      [("visible", .bool visible), ("annotations", .list (annotations.map TypeAnnotation.document))]
  | .annotationDefault value =>
    record "AnnotationDefaultAttribute" [("default_value", value.document)]
  | .bootstrapMethods methods =>
    record "BootstrapMethodsAttribute"
      [("bootstrap_methods", .list (methods.map BootstrapMethod.document))]
  | .methodParameters parameters =>
    record "MethodParametersAttribute"
      [("parameters", .list (parameters.map MethodParameter.document))]
  | .moduleDeclaration declaration => declaration.document
  | .modulePackages packages => record "ModulePackagesAttribute" [("package_index", words packages)]
  | .moduleMainClass cls => record "ModuleMainClassAttribute" [("main_class_index", word cls)]
  | .moduleHashes algorithm hashes =>
    record "ModuleHashesAttribute"
      [("algorithm_index", word algorithm), ("hashes", .list (hashes.map ModuleHash.document))]
  | .moduleTarget platform =>
    record "ModuleTargetAttribute" [("target_platform_index", word platform)]
  | .moduleResolution access =>
    record "ModuleResolutionAttribute" [("resolution_flags", word access)]
  | .nestHost cls => record "NestHostAttribute" [("host_class_index", word cls)]
  | .nestMembers classes => record "NestMembersAttribute" [("classes", words classes)]
  | .recordComponents components =>
    record "RecordAttribute" [("components", .list (RecordComponent.documents components))]
  | .permittedSubclasses classes =>
    record "PermittedSubclassesAttribute" [("classes", words classes)]

/-- The body of a method. -/
def Code.document : Code → Document
  | ⟨maxStack, maxLocals, start, length, content, listing, handlers, attributes⟩ =>
    record "CodeAttribute" [
      ("max_stack", word maxStack), ("max_locals", word maxLocals), ("code_start", .int start),
      ("code_length", nat length.toNat), ("code", bytes content),
      ("instructions", .list (listing.instructions.map Instruction.document)),
      ("decode_error", optional (fun fault => .text fault.message) listing.stopped),
      ("exception_table", .list (handlers.map ExceptionHandler.document)),
      ("attributes", .list (Attribute.documents attributes))]

/-- Several components of a record. -/
def RecordComponent.documents : List RecordComponent → List Document
  | [] => []
  | component :: rest => component.document :: RecordComponent.documents rest

/-- A component of a record. -/
def RecordComponent.document : RecordComponent → Document
  | ⟨span, name, descriptor, attributes⟩ =>
    Document.located "RecordComponent" span [
      ("name_index", word name), ("descriptor_index", word descriptor),
      ("attributes", .list (Attribute.documents attributes))]

/-- Several attributes. -/
def Attribute.documents : List Attribute → List Document
  | [] => []
  | one :: rest => one.document :: Attribute.documents rest

/-- An attribute. -/
def Attribute.document : Attribute → Document
  | ⟨start, nameIndex, name, declared, payload⟩ =>
    Document.located "AttributeInfo" ⟨start, Attribute.envelopeLength + declared.toNat⟩ [
      ("name_index", word nameIndex), ("name", optional .text name),
      ("attribute_length", nat declared.toNat), ("payload", payload.document)]

end

end JavaClass
