/-
  JavaClass.Fault — the reasons for which decoding stops.

  A structure either runs out of bytes (`truncated`) or holds a value that the format does not allow
  (`malformed`), and both say where.  Describing a four-byte constant can fail as well: its text is
  looked for among four-byte numbers, and one of those tried may be too large (`tooLarge`).
-/
import JavaClass.Text.Quoted

namespace JavaClass

/-- Values that the format does not allow. -/
inductive Malformation where
  /-- The first four bytes are not the mark of a class file. -/
  | magic (found : UInt32)
  /-- No constant has this tag; `slot` is the constant's index. -/
  | constantTag (slot : Nat) (found : UInt8)
  /-- The bytes of a text constant are not modified UTF-8. -/
  | constantText
  /-- No element value has this tag. -/
  | elementTag (found : UInt8)
  /-- No type annotation has this target. -/
  | annotationTarget (found : UInt8)
  /-- No verification type has this tag. -/
  | verificationTag (found : UInt8)
  /-- This type of stack map frame is reserved. -/
  | frameType (found : UInt8)
  /-- The payload of an attribute needs more bytes than the attribute declares. -/
  | payload (name : String) (declared : UInt32)
deriving DecidableEq, Repr

namespace Malformation

/-- What was expected, and what stands there instead. -/
def message : Malformation → String
  | magic found => "Magic 0xCAFEBABE, got 0x" ++ Text.padLeft 8 '0' (Text.upperHex found.toNat)
  | constantTag slot found => s!"Valid constant pool tag for entry #{slot}, got {found}"
  | constantText => "Valid modified UTF-8 in CONSTANT_Utf8"
  | elementTag found =>
    "Valid element_value tag, got " ++ Text.quoted (Char.ofNat found.toNat).toString
  | annotationTarget found =>
    "Valid type annotation target_type, got 0x" ++ Text.padLeft 2 '0' (Text.upperHex found.toNat)
  | verificationTag found => s!"Valid verification_type_info tag, got {found}"
  | frameType found => s!"Valid stack map frame_type, got reserved {found}"
  | payload name declared =>
    s!"{name} payload within its declared length of {declared} byte(s)"

end Malformation

/-- Why decoding stopped. -/
inductive Fault where
  /-- `size` bytes were needed for `what`, and `left` were there. -/
  | truncated (what : String) (size left offset : Int)
  /-- A value that the format does not allow. -/
  | malformed (cause : Malformation) (offset : Int)
  /-- A number beyond the largest finite four-byte number. -/
  | tooLarge
deriving DecidableEq, Repr

namespace Fault

/-- The position in the data that a fault points at. -/
def offset? : Fault → Option Int
  | truncated _ _ _ offset => some offset
  | malformed _ offset => some offset
  | tooLarge => none

/-- A position as faults and notices write it. -/
def place (offset : Int) : String := "0x" ++ Text.signedUpperHex offset

/-- The text of a fault. -/
def message : Fault → String
  | truncated what size left offset =>
    s!"Expected {what} ({size} byte(s)), only {left} left at offset {place offset}"
  | malformed cause offset => s!"{cause.message} at offset {place offset}"
  | tooLarge => "float too large to pack with f format"

end Fault

end JavaClass
