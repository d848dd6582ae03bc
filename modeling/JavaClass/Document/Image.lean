/-
  JavaClass.Document.Image — whole classes as documents.
-/
import JavaClass.Document.Attribute
import JavaClass.Document.Pool
import JavaClass.Image.Basic

namespace JavaClass

open Document

/-- A field or a method; `type` is the name of the record. -/
def Member.document (type : String) (m : Member) : Document :=
  Document.located type m.span [
    ("access_flags", word m.access), ("name_index", word m.nameIndex),
    ("descriptor_index", word m.descriptorIndex),
    ("attributes", .list (Attribute.documents m.attributes)),
    ("name", .text m.name), ("descriptor", .text m.descriptor),
    ("declaration_text", .text m.declaration)]

/-- A class. -/
def Image.document (c : Image) : Document :=
  Document.located "ClassModel" ⟨0, c.length⟩ [
    ("magic", nat Image.magic.toNat), ("minor_version", word c.minor),
    ("major_version", word c.major), ("constant_pool", c.pool.document),
    ("access_flags", word c.access), ("this_class", word c.thisClass),
    ("super_class", word c.superClass), ("interfaces", words c.interfaces),
    ("fields", .list (c.fields.map (Member.document "FieldInfo"))),
    ("methods", .list (c.methods.map (Member.document "MethodInfo"))),
    ("attributes", .list (Attribute.documents c.attributes))]

end JavaClass
