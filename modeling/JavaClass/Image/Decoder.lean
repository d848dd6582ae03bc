/-
  JavaClass.Image.Decoder — whole classes read from bytes.

  A class is its header, its constant pool, its own declaration, its fields, its methods and its
  attributes, in this order.  Bytes behind the last attribute are noted.
-/
import JavaClass.Attribute.Decoder
import JavaClass.Image.Basic
import JavaClass.Image.Declaration

namespace JavaClass

open Decoder

namespace Member

/-- Read a member; `declare` makes its declaration from flags, name, descriptor and attributes. -/
def readWith (pool : Pool) (disassemble : Bool)
    (declare : UInt16 → String → Option String → List Attribute → String) : Decoder Member := do
  let start ← position
  let access ← u2 "access_flags"
  let nameIndex ← u2 "name_index"
  let descriptorIndex ← u2 "descriptor_index"
  let attributes ← Attribute.readAll pool disassemble
  let name := (pool.utf8? nameIndex.toNat).getD unresolvable
  let descriptor := pool.utf8? descriptorIndex.toNat
  return ⟨← spanFrom start, access, nameIndex, descriptorIndex, attributes, name,
    descriptor.getD unresolvable, declare access name descriptor attributes⟩

/-- What a method throws. -/
def thrownNames (pool : Pool) (attributes : List Attribute) : List String :=
  match Attribute.find? attributes "Exceptions" with
  | some ⟨_, _, _, _, .exceptions classes⟩ => classes.map fun i => pool.describe i.toNat
  | _ => []

/-- Read a field. -/
def readField (pool : Pool) (disassemble : Bool) : Decoder Member :=
  readWith pool disassemble fun access name descriptor _ =>
    fieldDeclaration access.toNat name descriptor

/-- Read a method. -/
def readMethod (pool : Pool) (disassemble : Bool) : Decoder Member :=
  readWith pool disassemble fun access name descriptor attributes =>
    methodDeclaration access.toNat name descriptor (thrownNames pool attributes)

end Member

namespace Image

/-- Read the mark of class files. -/
def readMagic : Decoder Unit := do
  let start ← position
  let found ← u4 "magic"
  unless found = magic do
    reject (.magic found) start

/-- Note the bytes that are left. -/
def noteTrailing : Decoder Unit := do
  let c ← cursor
  unless c.atEnd do
    notice (.trailingBytes c.remaining c.pos)

/-- Read a class; code is disassembled only if asked. -/
def read (disassemble : Bool) : Decoder Image := do
  let start ← position
  readMagic
  let minor ← u2 "minor_version"
  let major ← u2 "major_version"
  let count ← u2 "constant_pool_count"
  let pool ← Pool.read count.toNat
  let access ← u2 "access_flags"
  let thisClass ← u2 "this_class"
  let superClass ← u2 "super_class"
  let interfaceCount ← u2 "interfaces_count"
  let interfaces ← many interfaceCount.toNat (u2 "interface index")
  let fieldCount ← u2 "fields_count"
  let fields ← many fieldCount.toNat (Member.readField pool disassemble)
  let methodCount ← u2 "methods_count"
  let methods ← many methodCount.toNat (Member.readMethod pool disassemble)
  let attributes ← Attribute.readAll pool disassemble
  noteTrailing
  return ⟨(← spanFrom start).length, minor, major, pool, access, thisClass, superClass, interfaces,
    fields, methods, attributes⟩

/-- Decode the bytes of a class. -/
def decode (data : Array UInt8) (disassemble : Bool) : Outcome Image :=
  (read disassemble).run (Cursor.ofBytes data)

end Image

end JavaClass
