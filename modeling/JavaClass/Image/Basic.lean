/-
  JavaClass.Image.Basic — a whole class.
-/
import JavaClass.Access
import JavaClass.Attribute.Basic
import JavaClass.Constant.Pool
import JavaClass.Version

namespace JavaClass

/-- A field or a method, with its place. -/
structure Member where
  span : Span
  access : UInt16
  nameIndex : UInt16
  descriptorIndex : UInt16
  attributes : List Attribute
  name : String
  descriptor : String
  declaration : String

namespace Member

/-- The first attribute of a name. -/
def attribute? (m : Member) (name : String) : Option Attribute := Attribute.find? m.attributes name

/-- The body of a method. -/
def code? (m : Member) : Option Code :=
  match m.attribute? "Code" with
  | some ⟨_, _, _, _, .code code⟩ => some code
  | _ => none

end Member

/-- A class. -/
structure Image where
  length : Int
  minor : UInt16
  major : UInt16
  pool : Pool
  access : UInt16
  thisClass : UInt16
  superClass : UInt16
  interfaces : List UInt16
  fields : List Member
  methods : List Member
  attributes : List Attribute

namespace Image

/-- The four bytes that every class starts with. -/
def magic : UInt32 := 0xCAFEBABE

/-- The name of the class. -/
def name (c : Image) : String := c.pool.describe c.thisClass.toNat

/-- The name of the superclass; the root class has none. -/
def superName (c : Image) : String :=
  if c.superClass = 0 then "" else c.pool.describe c.superClass.toNat

/-- The names of the interfaces. -/
def interfaceNames (c : Image) : List String := c.interfaces.map fun i => c.pool.describe i.toNat

/-- The modifiers of the class. -/
def modifiers (c : Image) : String := JavaClass.modifiers c.access.toNat .cls

/-- The release that introduced the version of the format. -/
def release (c : Image) : String := releaseName c.major.toNat c.minor.toNat

/-- The name of the source file. -/
def sourceFile? (c : Image) : Option String :=
  match Attribute.find? c.attributes "SourceFile" with
  | some ⟨_, _, _, _, .sourceFile index⟩ => c.pool.utf8? index.toNat
  | _ => none

/-- The methods of a name. -/
def methodsNamed (c : Image) (name : String) : List Member := c.methods.filter (·.name = name)

end Image

end JavaClass
