/-
  JavaClass.Notice — what decoding reports without stopping.

  A notice is a warning or a detail for debugging.  Its text names the part of the decoder that
  gave it, in the form `LEVEL part: message`.
-/
import JavaClass.Fault

namespace JavaClass

/-- How serious a notice is. -/
inductive Severity where
  | debug
  | warning
deriving DecidableEq, Repr

/-- The word for a severity. -/
def Severity.word : Severity → String
  | debug => "DEBUG"
  | warning => "WARNING"

/-- Something worth reporting. -/
inductive Notice where
  /-- A constant refers to a slot that is empty or of the wrong kind. -/
  | unresolvable (slot : Int)
  /-- A code array ends within an instruction. -/
  | codeTruncated (decoded : Nat) (fault : Fault)
  /-- An attribute's name is not a text constant. -/
  | unnamedAttribute (start : Int) (nameIndex : UInt16)
  /-- An attribute has a name without a known payload. -/
  | unknownAttribute (name : String) (start : Int)
  /-- An attribute's payload ends before its declared length. -/
  | unreadPayload (name : String) (start unread : Int) (declared : UInt32)
  /-- Bytes follow the last structure of a class. -/
  | trailingBytes (count position : Int)
deriving DecidableEq, Repr

namespace Notice

/-- Lost data is a warning, everything else a detail. -/
def severity : Notice → Severity
  | codeTruncated .. | unreadPayload .. | trailingBytes .. => .warning
  | unresolvable .. | unnamedAttribute .. | unknownAttribute .. => .debug

/-- The part of the decoder that reports the notice. -/
def origin : Notice → String
  | unresolvable .. => "jclassview.constant_pool"
  | codeTruncated .. => "jclassview.instructions"
  | unnamedAttribute .. | unknownAttribute .. | unreadPayload .. => "jclassview.attributes"
  | trailingBytes .. => "jclassview.classreader"

/-- The message of a notice. -/
def message : Notice → String
  | unresolvable slot => s!"Unresolvable constant pool reference #{slot}"
  | codeTruncated decoded fault =>
    s!"Instruction stream truncated after {decoded} instruction(s): {fault.message}"
  | unnamedAttribute start nameIndex =>
    s!"Attribute at {Fault.place start} has unresolvable name #{nameIndex}"
  | unknownAttribute name start =>
    s!"Unrecognized attribute {Text.quoted name} at {Fault.place start} kept as raw bytes"
  | unreadPayload name start unread declared =>
    s!"{name} attribute at {Fault.place start} left {unread} of {declared} byte(s) unread"
  | trailingBytes count position =>
    s!"{count} trailing byte(s) after the last class attribute at {Fault.place position}"

/-- The whole line of a notice. -/
def line (n : Notice) : String := s!"{n.severity.word} {n.origin}: {n.message}"

end Notice

end JavaClass
