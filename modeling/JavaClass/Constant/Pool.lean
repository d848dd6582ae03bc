/-
  JavaClass.Constant.Pool — the constant pool.

  A pool is read constant by constant, and all its slots are described before anything refers to
  them.
-/
import JavaClass.Constant.Description
import JavaClass.Text.ModifiedUtf8

namespace JavaClass

/-- The constants of a class with their descriptions. -/
structure Pool where
  span : Span
  slots : Slots
  descriptions : Array String
deriving DecidableEq, Repr

namespace Pool

/-! ## §1. Looking up. -/

/-- The number of slots, slot 0 among them. -/
def size (p : Pool) : Nat := p.slots.size

/-- The number names a constant. -/
def isValid (p : Pool) (index : Int) : Bool := (p.slots.constant? index).isSome

/-- The constant with a number, if it belongs to one of the families, or there are none. -/
def get? (p : Pool) (index : Int) (families : List String) : Option (Located Constant) :=
  (p.slots.located? index).filter fun c =>
    families.isEmpty || families.any c.value.belongsTo

/-- The text constant with a number. -/
def utf8? (p : Pool) (index : Int) : Option String := p.slots.utf8? index

/-- The name of the class constant with a number. -/
def className? (p : Pool) (index : Int) : Option String := p.slots.className? index

/-- What a slot stands for, in words. -/
def describe (p : Pool) (index : Int) : String :=
  if index < 0 then unresolvable else p.descriptions[index.toNat]?.getD unresolvable

/-- What the slot with a number holds; negative numbers count from the end. -/
def slot? (p : Pool) (index : Int) : Option Slot :=
  let index := if index < 0 then index + p.slots.size else index
  if index < 0 then none else p.slots[index.toNat]?

/-- The constants with their numbers. -/
def constants (p : Pool) : List (Nat × Located Constant) :=
  p.slots.toList.zipIdx.filterMap fun (slot, index) =>
    match slot with
    | .constant c => some (index, c)
    | _ => none

/-- The second slots of constants that take two, with their positions. -/
def uppers (p : Pool) : List (Nat × Int) :=
  p.slots.toList.zipIdx.filterMap fun (slot, index) =>
    match slot with
    | .upper position => some (index, position)
    | _ => none

end Pool

/-! ## §2. Reading. -/

namespace Constant

open Decoder

/-- Read a text constant that starts at `start`, behind its tag. -/
def readUtf8 (start : Int) : Decoder Constant := do
  let size ← u2 "CONSTANT_Utf8 length"
  let raw ← bytes "CONSTANT_Utf8 bytes" size.toNat
  match Text.ModifiedUtf8.decode? raw with
  | some text => return .utf8 text raw
  | none => reject .constantText start

/-- Read a reference to a member, behind its tag. -/
def readMember (kind : MemberKind) : Decoder Constant := do
  let owner ← u2 "class_index"
  return .member kind owner (← u2 "name_and_type_index")

/-- Read the constant for slot `slot`. -/
def read (slot : Nat) : Decoder Constant := do
  let start ← position
  let tag ← u1 "constant pool tag"
  match tag.toNat with
  | 1 => readUtf8 start
  | 3 => return .integer (← s4 "CONSTANT_Integer bytes")
  | 4 => return .float (← f4 "CONSTANT_Float bytes")
  | 5 => return .long (← s8 "CONSTANT_Long bytes")
  | 6 => return .double (← f8 "CONSTANT_Double bytes")
  | 7 => return .cls (← u2 "name_index")
  | 8 => return .string (← u2 "string_index")
  | 9 => readMember .field
  | 10 => readMember .method
  | 11 => readMember .interfaceMethod
  | 12 => do
    let name ← u2 "name_index"
    return .nameAndType name (← u2 "descriptor_index")
  | 15 => do
    let kind ← u1 "reference_kind"
    return .methodHandle kind (← u2 "reference_index")
  | 16 => return .methodType (← u2 "descriptor_index")
  | 17 => do
    let bootstrap ← u2 "bootstrap_method_attr_index"
    return .dynamic bootstrap (← u2 "name_and_type_index")
  | 18 => do
    let bootstrap ← u2 "bootstrap_method_attr_index"
    return .invokeDynamic bootstrap (← u2 "name_and_type_index")
  | 19 => return .moduleName (← u2 "name_index")
  | 20 => return .packageName (← u2 "name_index")
  | _ => reject (.constantTag slot tag) start

end Constant

namespace Slots

open Decoder

/-- The last slot holds a constant that takes the next slot too. -/
def isHalfway (slots : Slots) : Bool :=
  match slots.back? with
  | some (.constant c) => c.value.width = 2
  | _ => false

/-- Read one more slot. -/
def readNext (slots : Slots) : Decoder Slots := do
  if slots.isHalfway then return slots.push (.upper (← position))
  else return slots.push (.constant (← located (Constant.read slots.size)))

end Slots

namespace Pool

open Decoder

/-- Describe slots that were read. -/
def describeSlots (slots : Slots) : Decoder (Array String) := fun c =>
  let (result, notices) := Description.all slots
  ⟨result, c, notices⟩

/-- Read the slots below `count`, and describe them. -/
def read (count : Int) : Decoder Pool := do
  let start ← position
  let slots ← repeated (count - 1).toNat Slots.readNext #[.unused]
  let span ← spanFrom start
  return ⟨span, slots, ← describeSlots slots⟩

end Pool

end JavaClass
