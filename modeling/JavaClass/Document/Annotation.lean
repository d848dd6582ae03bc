/-
  JavaClass.Document.Annotation — annotations as documents.
-/
import JavaClass.Annotation.Basic
import JavaClass.Document.Basic

namespace JavaClass

open Document

mutual

/-- The value of an element. -/
def ElementValue.document : ElementValue → Document
  | .literal span tag index =>
    Document.located "ConstElementValue" span
      [("tag", .text tag.letter.toString), ("const_value_index", word index)]
  | .enumConstant span typeName constName =>
    Document.located "EnumElementValue" span
      [("type_name_index", word typeName), ("const_name_index", word constName),
        ("tag", .text "e")]
  | .cls span index =>
    Document.located "ClassElementValue" span [("class_info_index", word index), ("tag", .text "c")]
  | .nested span value =>
    Document.located "AnnotationElementValue" span
      [("annotation", value.document), ("tag", .text "@")]
  | .array span values =>
    Document.located "ArrayElementValue" span
      [("values", .list (ElementValue.documents values)), ("tag", .text "[")]

/-- Several values. -/
def ElementValue.documents : List ElementValue → List Document
  | [] => []
  | value :: rest => value.document :: ElementValue.documents rest

/-- An annotation. -/
def Annotation.document : Annotation → Document
  | ⟨span, typeIndex, pairs⟩ =>
    Document.located "Annotation" span
      [("type_index", word typeIndex), ("pairs", .list (ElementPair.documents pairs))]

/-- Several named values. -/
def ElementPair.documents : List ElementPair → List Document
  | [] => []
  | pair :: rest => pair.document :: ElementPair.documents rest

/-- A named value. -/
def ElementPair.document : ElementPair → Document
  | ⟨span, name, value⟩ =>
    Document.located "ElementValuePair" span
      [("element_name_index", word name), ("value", value.document)]

end

/-- The annotations of a parameter. -/
def Annotation.parameterDocument (p : Located (List Annotation)) : Document :=
  Document.located "ParameterAnnotations" p.span
    [("annotations", .list (p.value.map Annotation.document))]

/-- A stretch of code. -/
def LocalRange.document (r : LocalRange) : Document :=
  record "LocalVarTargetEntry"
    [("start_pc", word r.startPc), ("length", word r.length), ("index", word r.index)]

/-- The target of a type annotation. -/
def Target.document : Target → Document
  | typeParameter index => record "TypeParameterTarget" [("type_parameter_index", byte index)]
  | supertype index => record "SupertypeTarget" [("supertype_index", word index)]
  | typeParameterBound parameter bound =>
    record "TypeParameterBoundTarget"
      [("type_parameter_index", byte parameter), ("bound_index", byte bound)]
  | empty => record "EmptyTarget" []
  | formalParameter index => record "FormalParameterTarget" [("formal_parameter_index", byte index)]
  | thrown index => record "ThrowsTarget" [("throws_type_index", word index)]
  | localVariables table =>
    record "LocalVarTarget" [("table", .list (table.map LocalRange.document))]
  | caught index => record "CatchTarget" [("exception_table_index", word index)]
  | offset value => record "OffsetTarget" [("offset", word value)]
  | typeArgument value index =>
    record "TypeArgumentTarget" [("offset", word value), ("type_argument_index", byte index)]

/-- A step into a type. -/
def PathStep.document (s : PathStep) : Document :=
  record "TypePathEntry" [("type_path_kind", byte s.kind), ("type_argument_index", byte s.argument)]

/-- A type annotation. -/
def TypeAnnotation.document (a : Located TypeAnnotation) : Document :=
  Document.located "TypeAnnotation" a.span [
    ("target_type", byte a.value.targetType), ("target_info", a.value.target.document),
    ("target_path", .list (a.value.path.map PathStep.document)),
    ("type_index", word a.value.typeIndex),
    ("pairs", .list (ElementPair.documents a.value.pairs))]

end JavaClass
