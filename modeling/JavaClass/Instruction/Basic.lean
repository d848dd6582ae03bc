/-
  JavaClass.Instruction.Basic — instructions and their text.

  An instruction stands at an offset in its code array.  Distances are relative to that offset, and
  the text shows both the distance and the place that it leads to.
-/
import JavaClass.Instruction.Opcode
import JavaClass.Text.Digits

namespace JavaClass

/-- What an instruction works on. -/
inductive Operand where
  | immediate (value : Int)
  | localIndex (index : Nat)
  | localIncrement (index : Nat) (amount : Int)
  | poolIndex (index : Nat)
  | poolIndexCount (index count : Nat)
  | branch (relative : Int)
  | arrayType (code : Nat)
  | tableSwitch (default low high : Int) (offsets : List Int)
  | lookupSwitch (default : Int) (pairs : List (Int × Int))
deriving DecidableEq, Repr

/-- The name of an array's element type. -/
def arrayTypeName : Int → String
  | 4 => "T_BOOLEAN"
  | 5 => "T_CHAR"
  | 6 => "T_FLOAT"
  | 7 => "T_DOUBLE"
  | 8 => "T_BYTE"
  | 9 => "T_SHORT"
  | 10 => "T_INT"
  | 11 => "T_LONG"
  | _ => "T_UNKNOWN"

namespace Operand

/-- A jump from `offset` by `relative`. -/
def jumpText (offset relative : Int) : String :=
  s!"jump to {offset + relative} (relative offset = {relative})"

/-- The cases of a switch and its default, one a line. -/
def switchText (cases : List (Int × Int)) (default offset : Int) : String :=
  let lines := cases.map fun (key, relative) => s!"    case {key}. {jumpText offset relative}"
  "\n".intercalate (s!"{cases.length} case(s)" :: lines ++
    ["    default. " ++ jumpText offset default])

/-- The keys of consecutive distances, from `low` on. -/
def numbered (low : Int) : List Int → List (Int × Int)
  | [] => []
  | relative :: rest => (low, relative) :: numbered (low + 1) rest

/-- The text of an operand of the instruction at `offset`. -/
def text (offset : Int) : Operand → String
  | immediate value => toString value
  | localIndex index => toString index
  | localIncrement index amount => s!"index = {index} const = {amount}"
  | poolIndex index => s!"#{index}"
  | poolIndexCount index count => s!"#{index} count={count}"
  | branch relative => s!"{offset + relative} (branch byte offset = {relative})"
  | arrayType code => arrayTypeName code
  | tableSwitch default low _ offsets => switchText (numbered low offsets) default offset
  | lookupSwitch default pairs => switchText pairs default offset

end Operand

/-- An instruction at an offset in its code array.  A widened instruction has the opcode of the
    operation that it widens; the opcode that widens stays where that cannot be widened. -/
structure Instruction where
  offset : Int
  opcode : UInt8
  /-- The name of the operation. -/
  mnemonic : String
  length : Int
  operand : Option Operand
  wide : Bool
  /-- The operation is reserved. -/
  reserved : Bool
deriving DecidableEq, Repr

namespace Instruction

/-- The name of the operation, with a mark if it is reserved. -/
def displayName (i : Instruction) : String :=
  if i.reserved then "[reserved] " ++ i.mnemonic else i.mnemonic

/-- The slot of the constant pool that the instruction refers to. -/
def poolIndex? (i : Instruction) : Option Nat :=
  match i.operand with
  | some (.poolIndex index) | some (.poolIndexCount index _) => some index
  | _ => none

/-- The offset that the instruction may jump to. -/
def target? (i : Instruction) : Option Int :=
  match i.operand with
  | some (.branch relative) => some (i.offset + relative)
  | _ => none

/-- Offset, name and operand. -/
def text (i : Instruction) : String :=
  Text.paddedDecimal 4 i.offset ++ ": " ++ i.displayName ++
    if i.mnemonic = Opcode.unknown then " 0x" ++ Text.padLeft 2 '0' (Text.upperHex i.opcode.toNat)
    else i.operand.elim "" fun operand => " " ++ operand.text i.offset

/-- The text with the description of the constant that the instruction refers to. -/
def textWith (describe : Int → String) (i : Instruction) : String :=
  i.text ++ i.poolIndex?.elim "" fun index => "  " ++ describe index

end Instruction

end JavaClass
