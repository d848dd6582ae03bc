/-
  JavaClass.Instruction.Decoder — code arrays read as instructions.

  An instruction is an opcode and the operand that the opcode's layout asks for.  Code is read
  instruction by instruction; where it ends within one, the instructions before it are kept beside
  the fault.
-/
import JavaClass.Byte.Decoder
import JavaClass.Instruction.Basic

namespace JavaClass

namespace Operand

open Decoder

/-- The number of bytes from behind an opcode at `offset` to the next multiple of four. -/
def padding (offset : Int) : Int := (4 - (offset + 1) % 4) % 4

/-- Read the operand of a switch over a range. -/
def readTableSwitch (offset : Int) : Decoder Operand := do
  skip "switch padding" (padding offset)
  let default ← s4 "tableswitch default"
  let low ← s4 "tableswitch low"
  let high ← s4 "tableswitch high"
  let count := high.toInt - low.toInt + 1
  let offsets ← many count.toNat (do return (← s4 "tableswitch offset").toInt)
  return .tableSwitch default.toInt low.toInt high.toInt offsets

/-- Read a key and its distance. -/
def readPair : Decoder (Int × Int) := do
  let key ← s4 "lookupswitch match"
  return (key.toInt, (← s4 "lookupswitch offset").toInt)

/-- Read the operand of a switch over single keys. -/
def readLookupSwitch (offset : Int) : Decoder Operand := do
  skip "switch padding" (padding offset)
  let default ← s4 "lookupswitch default"
  let count ← s4 "lookupswitch npairs"
  return .lookupSwitch default.toInt (← many count.toInt.toNat readPair)

/-- Read what follows an opcode at `offset`; widened operations are read elsewhere. -/
def read (offset : Int) : Opcode.Layout → Decoder (Option Operand)
  | .bare | .wide => return none
  | .immediate1 => return some (.immediate (← s1 "bipush byte").toInt)
  | .immediate2 => return some (.immediate (← s2 "sipush short").toInt)
  | .constant1 => return some (.poolIndex (← u1 "constant pool index").toNat)
  | .constant2 => return some (.poolIndex (← u2 "constant pool index").toNat)
  | .localSlot => return some (.localIndex (← u1 "local variable index").toNat)
  | .increment => do
    let index ← u1 "local variable index"
    return some (.localIncrement index.toNat (← s1 "iinc constant").toInt)
  | .branch2 => return some (.branch (← s2 "branch offset").toInt)
  | .branch4 => return some (.branch (← s4 "branch offset").toInt)
  | .interfaceCall => do
    let index ← u2 "constant pool index"
    let count ← u1 "invokeinterface count"
    skip "invokeinterface zero byte" 1
    return some (.poolIndexCount index.toNat count.toNat)
  | .dynamicCall => do
    let index ← u2 "constant pool index"
    skip "invokedynamic zero bytes" 2
    return some (.poolIndex index.toNat)
  | .arrayCode => return some (.arrayType (← u1 "atype").toNat)
  | .multiArray => do
    let index ← u2 "constant pool index"
    return some (.poolIndexCount index.toNat (← u1 "dimensions").toNat)
  | .tableSwitch => do return some (← readTableSwitch offset)
  | .lookupSwitch => do return some (← readLookupSwitch offset)

end Operand

namespace Instruction

open Decoder

/-- Read what follows an opcode that widens, at `offset`: an operation on a local variable, with operands
    of two bytes.  Any other operation is not widened, and stays unread but for its opcode. -/
def readWidened (offset : Int) : Decoder Instruction := do
  let target ← u1 "opcode after wide"
  if Opcode.isWidenable target then
    let name := "wide " ++ Opcode.mnemonic target.toNat
    let index ← u2 "local variable index"
    if Opcode.layout target = .increment then
      let amount ← s2 "iinc constant"
      return ⟨offset, target, name, 6, some (.localIncrement index.toNat amount.toInt), true, false⟩
    else return ⟨offset, target, name, 4, some (.localIndex index.toNat), true, false⟩
  else return ⟨offset, Opcode.widener, "wide <unknown>", 2, none, true, false⟩

/-- Read the instruction here, in code that starts at `codeStart`. -/
def read (codeStart : Int) : Decoder Instruction := do
  let start ← position
  let offset := start - codeStart
  let opcode ← u1 "opcode"
  if opcode = Opcode.widener then readWidened offset
  else
    let operand ← Operand.read offset (Opcode.layout opcode)
    return ⟨offset, opcode, Opcode.mnemonic opcode.toNat, (← spanFrom start).length, operand, false,
      Opcode.isReserved opcode⟩

end Instruction

/-- The instructions of a code array, and the fault within which it ends, if it does. -/
structure Listing where
  instructions : List Instruction
  stopped : Option Fault
deriving DecidableEq, Repr

namespace Listing

/-- Read at most `count` instructions of code that starts at `codeStart`, behind those in `done`,
    held in reverse. -/
def readFrom (codeStart : Int) : Nat → List Instruction → Decoder Listing
  | 0, done, c => ⟨.ok ⟨done.reverse, none⟩, c, []⟩
  | count + 1, done, c =>
    if c.atEnd then ⟨.ok ⟨done.reverse, none⟩, c, []⟩
    else
      match Instruction.read codeStart c with
      | ⟨.ok instruction, c₁, _⟩ => readFrom codeStart count (instruction :: done) c₁
      | ⟨.error fault, c₁, _⟩ =>
        ⟨.ok ⟨done.reverse, some fault⟩, c₁, [.codeTruncated done.length fault]⟩

/-- Read the code from here to the end; an instruction takes at least one byte. -/
def read : Decoder Listing := fun c => readFrom c.pos c.remaining.toNat [] c

end Listing

end JavaClass
