/-
  JavaClass.Constant.Basic — constants and the slots that hold them.

  Constants refer to each other by slot number.  Slot 0 is never used, and a constant of eight bytes
  takes two slots, the second of which cannot be referred to.
-/
import JavaClass.Byte.Decoder

namespace JavaClass

/-- What a member constant refers to. -/
inductive MemberKind where
  | field
  | method
  | interfaceMethod
deriving DecidableEq, Repr

/-- The constants of a class. -/
inductive Constant where
  | utf8 (text : String) (raw : List UInt8)
  | integer (value : Int32)
  | float (value : Number.Single)
  | long (value : Int64)
  | double (value : Number.Double)
  | cls (name : UInt16)
  | string (text : UInt16)
  | member (kind : MemberKind) (owner nameAndType : UInt16)
  | nameAndType (name descriptor : UInt16)
  | methodHandle (kind : UInt8) (reference : UInt16)
  | methodType (descriptor : UInt16)
  | dynamic (bootstrap nameAndType : UInt16)
  | invokeDynamic (bootstrap nameAndType : UInt16)
  | moduleName (name : UInt16)
  | packageName (name : UInt16)
deriving DecidableEq, Repr

namespace Constant

/-- The number of slots that a constant takes. -/
def width : Constant → Nat
  | long _ | double _ => 2
  | _ => 1

/-- The name of a constant's kind. -/
def kindName : Constant → String
  | utf8 .. => "Utf8"
  | integer _ => "Integer"
  | float _ => "Float"
  | long _ => "Long"
  | double _ => "Double"
  | cls _ => "Class"
  | string _ => "String"
  | member .field .. => "Fieldref"
  | member .method .. => "Methodref"
  | member .interfaceMethod .. => "InterfaceMethodref"
  | nameAndType .. => "NameAndType"
  | methodHandle .. => "MethodHandle"
  | methodType _ => "MethodType"
  | dynamic .. => "Dynamic"
  | invokeDynamic .. => "InvokeDynamic"
  | moduleName _ => "Module"
  | packageName _ => "Package"

/-- A constant that refers to a member of a class. -/
def isMember : Constant → Bool
  | member .. => true
  | _ => false

/-- A constant that names a class. -/
def isClass : Constant → Bool
  | cls _ => true
  | _ => false

/-- A constant that holds a name and a type. -/
def isNameAndType : Constant → Bool
  | nameAndType .. => true
  | _ => false

/-- A constant belongs to its kind, to the references if it is one, and to the entries. -/
def belongsTo (c : Constant) (family : String) : Bool :=
  family = "ConstantPoolEntry" || (family = "ConstantRef" && c.isMember)
    || family = "Constant" ++ c.kindName

end Constant

/-- What a slot holds. -/
inductive Slot where
  /-- Slot 0. -/
  | unused
  /-- A constant, at the place that it was read from. -/
  | constant (c : Located Constant)
  /-- The second slot of a constant that takes two; it follows the constant's last byte. -/
  | upper (position : Int)
deriving DecidableEq, Repr

/-- The slots of a pool, by number. -/
abbrev Slots := Array Slot

namespace Slots

/-- The constant that can be referred to by a number, with its place. -/
def located? (slots : Slots) (index : Int) : Option (Located Constant) :=
  if index < 0 then none
  else
    match slots[index.toNat]? with
    | some (.constant c) => some c
    | _ => none

/-- The constant that can be referred to by a number. -/
def constant? (slots : Slots) (index : Int) : Option Constant :=
  (slots.located? index).map (·.value)

/-- The text constant with a number. -/
def utf8? (slots : Slots) (index : Int) : Option String :=
  match slots.constant? index with
  | some (.utf8 text _) => some text
  | _ => none

/-- The name of the class constant with a number. -/
def className? (slots : Slots) (index : Int) : Option String :=
  match slots.constant? index with
  | some (.cls name) => slots.utf8? name.toNat
  | _ => none

end Slots

/-- The name of a kind of method handle. -/
def referenceKindName : Int → String
  | 1 => "REF_getField"
  | 2 => "REF_getStatic"
  | 3 => "REF_putField"
  | 4 => "REF_putStatic"
  | 5 => "REF_invokeVirtual"
  | 6 => "REF_invokeStatic"
  | 7 => "REF_invokeSpecial"
  | 8 => "REF_newInvokeSpecial"
  | 9 => "REF_invokeInterface"
  | _ => "Un-recognized"

end JavaClass
