/-
  JavaClass.Document.Instruction — instructions as documents.
-/
import JavaClass.Document.Basic
import JavaClass.Instruction.Decoder

namespace JavaClass

open Document

namespace Operand

/-- An operand. -/
def document : Operand → Document
  | immediate value => record "Immediate" [("value", .int value)]
  | localIndex index => record "LocalIndex" [("index", nat index)]
  | localIncrement index amount =>
    record "LocalIncrement" [("index", nat index), ("const", .int amount)]
  | poolIndex index => record "PoolIndex" [("index", nat index)]
  | poolIndexCount index count =>
    record "PoolIndexCount" [("index", nat index), ("count", nat count)]
  | branch relative => record "Branch" [("relative", .int relative)]
  | arrayType code => record "ArrayType" [("code", nat code)]
  | tableSwitch default low high offsets =>
    record "TableSwitch" [("default", .int default), ("low", .int low), ("high", .int high),
      ("offsets", .list (offsets.map .int))]
  | lookupSwitch default pairs =>
    record "LookupSwitch" [("default", .int default),
      ("pairs", .list (pairs.map fun (key, relative) => .list [.int key, .int relative]))]

end Operand

namespace Instruction

/-- An instruction. -/
def document (i : Instruction) : Document :=
  record "Instruction" [
    ("offset", .int i.offset), ("opcode", byte i.opcode), ("mnemonic", .text i.mnemonic),
    ("length", .int i.length), ("operand", optional Operand.document i.operand),
    ("wide", .bool i.wide), ("reserved", .bool i.reserved)]

end Instruction

end JavaClass
