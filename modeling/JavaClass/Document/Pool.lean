/-
  JavaClass.Document.Pool — constants as documents.
-/
import JavaClass.Constant.Pool
import JavaClass.Document.Basic

namespace JavaClass

open Document

namespace Constant

/-- The fields of a constant. -/
def fields : Constant → List (String × Document)
  | utf8 value raw => [("value", .text value), ("raw", bytes raw)]
  | integer value => [("value", .int value.toInt)]
  | float value => [("value", .real value.toDouble)]
  | long value => [("value", .int value.toInt)]
  | double value => [("value", .real value)]
  | cls name => [("name_index", word name)]
  | string index => [("string_index", word index)]
  | member _ owner type =>
    [("class_index", word owner), ("name_and_type_index", word type)]
  | nameAndType name descriptor =>
    [("name_index", word name), ("descriptor_index", word descriptor)]
  | methodHandle kind reference =>
    [("reference_kind", byte kind), ("reference_index", word reference)]
  | methodType descriptor => [("descriptor_index", word descriptor)]
  | dynamic bootstrap type | invokeDynamic bootstrap type =>
    [("bootstrap_method_attr_index", word bootstrap), ("name_and_type_index", word type)]
  | moduleName name | packageName name => [("name_index", word name)]

/-- The name of the record of a constant. -/
def recordName (c : Constant) : String := "Constant" ++ c.kindName

/-- A constant with its place. -/
def document (c : Located Constant) : Document :=
  Document.located c.value.recordName c.span c.value.fields

end Constant

namespace Slot

/-- What a slot holds. -/
def document : Slot → Document
  | unused => .null
  | constant c => Constant.document c
  | upper position => Document.located "ConstantPlaceholder" ⟨position, 0⟩ []

end Slot

namespace Pool

/-- The constants, each with its number and description. -/
def document (p : Pool) : Document :=
  record "ConstantPool" [
    ("count", nat p.size),
    ("entries", .list (p.constants.map fun (index, c) =>
      Document.located c.value.recordName c.span (c.value.fields ++
        [("index", nat index), ("description", .text (p.describe index))])))]

end Pool

end JavaClass
