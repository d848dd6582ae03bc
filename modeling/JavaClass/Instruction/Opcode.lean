/-
  JavaClass.Instruction.Opcode — the operations, their names, and the operands that follow them.

  An opcode is one byte.  Those up to `C9` are operations, three more are reserved, and the rest
  have no name.  What follows the byte is its `Layout`.
-/

namespace JavaClass.Opcode

/-- The names of the operations `00` to `C9`. -/
def names : Array String := #[
  "nop", "aconst_null", "iconst_m1", "iconst_0", "iconst_1", "iconst_2", "iconst_3", "iconst_4",
  "iconst_5", "lconst_0", "lconst_1", "fconst_0", "fconst_1", "fconst_2", "dconst_0", "dconst_1",
  "bipush", "sipush", "ldc", "ldc_w", "ldc2_w", "iload", "lload", "fload", "dload", "aload",
  "iload_0", "iload_1", "iload_2", "iload_3", "lload_0", "lload_1", "lload_2", "lload_3",
  "fload_0", "fload_1", "fload_2", "fload_3", "dload_0", "dload_1", "dload_2", "dload_3",
  "aload_0", "aload_1", "aload_2", "aload_3", "iaload", "laload", "faload", "daload", "aaload",
  "baload", "caload", "saload", "istore", "lstore", "fstore", "dstore", "astore", "istore_0",
  "istore_1", "istore_2", "istore_3", "lstore_0", "lstore_1", "lstore_2", "lstore_3", "fstore_0",
  "fstore_1", "fstore_2", "fstore_3", "dstore_0", "dstore_1", "dstore_2", "dstore_3", "astore_0",
  "astore_1", "astore_2", "astore_3", "iastore", "lastore", "fastore", "dastore", "aastore",
  "bastore", "castore", "sastore", "pop", "pop2", "dup", "dup_x1", "dup_x2", "dup2", "dup2_x1",
  "dup2_x2", "swap", "iadd", "ladd", "fadd", "dadd", "isub", "lsub", "fsub", "dsub", "imul",
  "lmul", "fmul", "dmul", "idiv", "ldiv", "fdiv", "ddiv", "irem", "lrem", "frem", "drem", "ineg",
  "lneg", "fneg", "dneg", "ishl", "lshl", "ishr", "lshr", "iushr", "lushr", "iand", "land", "ior",
  "lor", "ixor", "lxor", "iinc", "i2l", "i2f", "i2d", "l2i", "l2f", "l2d", "f2i", "f2l", "f2d",
  "d2i", "d2l", "d2f", "i2b", "i2c", "i2s", "lcmp", "fcmpl", "fcmpg", "dcmpl", "dcmpg", "ifeq",
  "ifne", "iflt", "ifge", "ifgt", "ifle", "if_icmpeq", "if_icmpne", "if_icmplt", "if_icmpge",
  "if_icmpgt", "if_icmple", "if_acmpeq", "if_acmpne", "goto", "jsr", "ret", "tableswitch",
  "lookupswitch", "ireturn", "lreturn", "freturn", "dreturn", "areturn", "return", "getstatic",
  "putstatic", "getfield", "putfield", "invokevirtual", "invokespecial", "invokestatic",
  "invokeinterface", "invokedynamic", "new", "newarray", "anewarray", "arraylength", "athrow",
  "checkcast", "instanceof", "monitorenter", "monitorexit", "wide", "multianewarray", "ifnull",
  "ifnonnull", "goto_w", "jsr_w"]

/-- The name of an opcode without a meaning. -/
def unknown : String := "unknown"

/-- The name of an opcode. -/
def mnemonic (opcode : Int) : String :=
  if opcode < 0 then unknown
  else if opcode = 0xCA then "breakpoint"
  else if opcode = 0xFE then "impdep1"
  else if opcode = 0xFF then "impdep2"
  else names[opcode.toNat]?.getD unknown

/-- Opcodes kept for debuggers and implementations. -/
def isReserved (opcode : UInt8) : Bool := opcode = 0xCA || opcode = 0xFE || opcode = 0xFF

/-- What follows an opcode. -/
inductive Layout where
  /-- Nothing. -/
  | bare
  /-- A signed byte. -/
  | immediate1
  /-- A signed number of two bytes. -/
  | immediate2
  /-- A slot of the constant pool in one byte. -/
  | constant1
  /-- A slot of the constant pool in two bytes. -/
  | constant2
  /-- A local variable. -/
  | localSlot
  /-- A local variable and a signed byte to add to it. -/
  | increment
  /-- A distance in two bytes. -/
  | branch2
  /-- A distance in four bytes. -/
  | branch4
  /-- A slot, a count, and a byte that means nothing. -/
  | interfaceCall
  /-- A slot and two bytes that mean nothing. -/
  | dynamicCall
  /-- The element type of an array. -/
  | arrayCode
  /-- A slot and a number of dimensions. -/
  | multiArray
  /-- Distances for a range of keys, at the next multiple of four. -/
  | tableSwitch
  /-- Pairs of key and distance, at the next multiple of four. -/
  | lookupSwitch
  /-- An operation on a local variable, with wider operands. -/
  | wide
deriving DecidableEq, Repr

/-- What follows each opcode. -/
def layout (opcode : UInt8) : Layout :=
  let n := opcode.toNat
  if n = 0x10 then .immediate1
  else if n = 0x11 then .immediate2
  else if n = 0x12 then .constant1
  else if n = 0x13 || n = 0x14 then .constant2
  else if 0x15 ≤ n && n ≤ 0x19 then .localSlot
  else if 0x36 ≤ n && n ≤ 0x3A then .localSlot
  else if n = 0x84 then .increment
  else if 0x99 ≤ n && n ≤ 0xA8 then .branch2
  else if n = 0xA9 then .localSlot
  else if n = 0xAA then .tableSwitch
  else if n = 0xAB then .lookupSwitch
  else if 0xB2 ≤ n && n ≤ 0xB8 then .constant2
  else if n = 0xB9 then .interfaceCall
  else if n = 0xBA then .dynamicCall
  else if n = 0xBB then .constant2
  else if n = 0xBC then .arrayCode
  else if n = 0xBD then .constant2
  else if n = 0xC0 || n = 0xC1 then .constant2
  else if n = 0xC4 then .wide
  else if n = 0xC5 then .multiArray
  else if n = 0xC6 || n = 0xC7 then .branch2
  else if n = 0xC8 || n = 0xC9 then .branch4
  else .bare

/-- The opcode that widens the operands of the operation behind it. -/
def widener : UInt8 := 0xC4

/-- The operations that can be widened: those on a local variable. -/
def isWidenable (opcode : UInt8) : Bool :=
  layout opcode = .localSlot || layout opcode = .increment

end JavaClass.Opcode
