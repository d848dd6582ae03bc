/-
  JavaClass.Annotation.Decoder — annotations read from bytes.

  The value of an element may hold further values, behind its tag; `ElementValue.body` reads one
  value with a given decoder for those, and `ElementValue.read` ties the knot.
-/
import JavaClass.Annotation.Basic

namespace JavaClass

open Decoder

/-! ## §1. Values and annotations. -/

namespace ElementPair

/-- Read a named value. -/
def read (value : Decoder ElementValue) : Decoder ElementPair := do
  let start ← position
  let name ← u2 "element_name_index"
  let value ← value
  return ⟨← spanFrom start, name, value⟩

/-- Read a count and that many named values. -/
def readAll (value : Decoder ElementValue) : Decoder (List ElementPair) := do
  let count ← u2 "num_element_value_pairs"
  many count.toNat (read value)

end ElementPair

namespace Annotation

/-- Read an annotation, its values with `value`. -/
def readWith (value : Decoder ElementValue) : Decoder Annotation := do
  let start ← position
  let typeIndex ← u2 "annotation type_index"
  let pairs ← ElementPair.readAll value
  return ⟨← spanFrom start, typeIndex, pairs⟩

end Annotation

namespace ElementValue

/-- Read a value, the values inside it with `inner`. -/
def body (inner : Decoder ElementValue) : Decoder ElementValue := do
  let start ← position
  let tag ← u1 "element_value tag"
  match LiteralTag.ofLetter? (Char.ofNat tag.toNat) with
  | some literalTag =>
    let index ← u2 "const_value_index"
    return .literal (← spanFrom start) literalTag index
  | none =>
    match Char.ofNat tag.toNat with
    | 'e' =>
      let typeName ← u2 "type_name_index"
      let constName ← u2 "const_name_index"
      return .enumConstant (← spanFrom start) typeName constName
    | 'c' =>
      let index ← u2 "class_info_index"
      return .cls (← spanFrom start) index
    | '@' =>
      let value ← Annotation.readWith inner
      return .nested (← spanFrom start) value
    | '[' =>
      let count ← u2 "num_values"
      let values ← many count.toNat inner
      return .array (← spanFrom start) values
    | _ => reject (.elementTag tag) start

/-- Read a value. -/
def read : Decoder ElementValue := fix body

end ElementValue

namespace Annotation

/-- Read an annotation. -/
def read : Decoder Annotation := readWith ElementValue.read

/-- Read a count and that many annotations. -/
def readAll : Decoder (List Annotation) := do
  let count ← u2 "num_annotations"
  many count.toNat read

/-- Read the annotations of the parameters of a method. -/
def readParameters : Decoder (List (Located (List Annotation))) := do
  let count ← u1 "num_parameters"
  many count.toNat (located readAll)

end Annotation

/-! ## §2. Type annotations. -/

namespace LocalRange

/-- Read a stretch of code. -/
def read : Decoder LocalRange := do
  let startPc ← u2 "start_pc"
  let length ← u2 "length"
  return ⟨startPc, length, ← u2 "index"⟩

end LocalRange

namespace Target

/-- How the target of a type annotation is laid out. -/
inductive Layout where
  | typeParameter
  | supertype
  | typeParameterBound
  | empty
  | formalParameter
  | thrown
  | localVariables
  | caught
  | offset
  | typeArgument
deriving DecidableEq, Repr

/-- The layout of each type of target. -/
def layout? (targetType : UInt8) : Option Layout :=
  let n := targetType.toNat
  if n ≤ 0x01 then some .typeParameter
  else if n = 0x10 then some .supertype
  else if n = 0x11 || n = 0x12 then some .typeParameterBound
  else if 0x13 ≤ n && n ≤ 0x15 then some .empty
  else if n = 0x16 then some .formalParameter
  else if n = 0x17 then some .thrown
  else if n = 0x40 || n = 0x41 then some .localVariables
  else if n = 0x42 then some .caught
  else if 0x43 ≤ n && n ≤ 0x46 then some .offset
  else if 0x47 ≤ n && n ≤ 0x4B then some .typeArgument
  else none

/-- Read a target. -/
def read : Layout → Decoder Target
  | .typeParameter => return .typeParameter (← u1 "type_parameter_index")
  | .supertype => return .supertype (← u2 "supertype_index")
  | .typeParameterBound => do
    let parameter ← u1 "type_parameter_index"
    return .typeParameterBound parameter (← u1 "bound_index")
  | .empty => return .empty
  | .formalParameter => return .formalParameter (← u1 "formal_parameter_index")
  | .thrown => return .thrown (← u2 "throws_type_index")
  | .localVariables => do
    let count ← u2 "table_length"
    return .localVariables (← many count.toNat LocalRange.read)
  | .caught => return .caught (← u2 "exception_table_index")
  | .offset => return .offset (← u2 "offset")
  | .typeArgument => do
    let offset ← u2 "offset"
    return .typeArgument offset (← u1 "type_argument_index")

end Target

namespace PathStep

/-- Read a step. -/
def read : Decoder PathStep := do
  let kind ← u1 "type_path_kind"
  return ⟨kind, ← u1 "type_argument_index"⟩

end PathStep

namespace TypeAnnotation

/-- Read a type annotation. -/
def read : Decoder TypeAnnotation := do
  let start ← position
  let targetType ← u1 "target_type"
  match Target.layout? targetType with
  | none => reject (.annotationTarget targetType) start
  | some layout =>
    let target ← Target.read layout
    let count ← u1 "type_path length"
    let path ← many count.toNat PathStep.read
    let typeIndex ← u2 "type_index"
    return ⟨targetType, target, path, typeIndex, ← ElementPair.readAll ElementValue.read⟩

/-- Read a count and that many type annotations. -/
def readAll : Decoder (List (Located TypeAnnotation)) := do
  let count ← u2 "num_annotations"
  many count.toNat (located read)

end TypeAnnotation

end JavaClass
