/-
  JavaClass.Proofs.Instruction.Nomenclature — how the operations are named.

  The names of the operations follow a system.  A letter stands for the type that an operation works on,
  and an operation that exists for several types is listed once for each, in the same order of types.
  Here the operations are listed by this system, family by family, and the reserved ones by themselves
  (`Nomenclature.name`).  That is also the order of their opcodes: `mnemonic_eq_name` compares the system
  with the table of names, and `isReserved_eq` with the test for reserved opcodes.
-/
import JavaClass.Instruction.Opcode

namespace JavaClass

namespace Nomenclature

/-! ## §1. Stems, letters and digits. -/

/-- The letters of the numbers that are computed with. -/
def numbers : List String := ["i", "l", "f", "d"]

/-- The letters of what a local variable holds: a number or a reference. -/
def locals : List String := numbers ++ ["a"]

/-- The letters of what an array holds. -/
def elements : List String := locals ++ ["b", "c", "s"]

/-- The comparisons of two numbers. -/
def conditions : List String := ["eq", "ne", "lt", "ge", "gt", "le"]

/-- The digits below a bound. -/
def digits (bound : Nat) : List String := (List.range bound).map toString

/-- One operation for each beginning. -/
def endingIn (stem : String) (beginnings : List String) : List String := beginnings.map (· ++ stem)

/-- One operation for each ending. -/
def startingWith (stem : String) (endings : List String) : List String := endings.map (stem ++ ·)

/-! ## §2. The families. -/

/-- Constants. -/
def constants : List String :=
  ["nop", "aconst_null", "iconst_m1"] ++ startingWith "iconst_" (digits 6) ++
    startingWith "lconst_" (digits 2) ++ startingWith "fconst_" (digits 3) ++
    startingWith "dconst_" (digits 2) ++ ["bipush", "sipush", "ldc", "ldc_w", "ldc2_w"]

/-- Moves between the stack and a local variable, whose number may be part of the name, or an array. -/
def moves (verb : String) : List String :=
  endingIn verb locals ++ (endingIn (verb ++ "_") locals).flatMap (startingWith · (digits 4)) ++
    endingIn ("a" ++ verb) elements

/-- Work on the stack itself. -/
def stack : List String :=
  ["pop", "pop2", "dup", "dup_x1", "dup_x2", "dup2", "dup2_x1", "dup2_x2", "swap"]

/-- Arithmetic.  Bits are only those of whole numbers. -/
def arithmetic : List String :=
  ["add", "sub", "mul", "div", "rem", "neg"].flatMap (endingIn · numbers) ++
    ["shl", "shr", "ushr", "and", "or", "xor"].flatMap (endingIn · ["i", "l"]) ++ ["iinc"]

/-- Conversions between different numbers, and to the small ones that only arrays hold. -/
def conversions : List String :=
  numbers.flatMap (fun source => startingWith (source ++ "2") (numbers.filter (· ≠ source))) ++
    startingWith "i2" ["b", "c", "s"]

/-- Comparisons, most of them with a jump. -/
def comparisons : List String :=
  ["lcmp", "fcmpl", "fcmpg", "dcmpl", "dcmpg"] ++ startingWith "if" conditions ++
    startingWith "if_icmp" conditions ++ startingWith "if_acmp" ["eq", "ne"]

/-- Jumps, switches and returns. -/
def control : List String :=
  ["goto", "jsr", "ret", "tableswitch", "lookupswitch"] ++ endingIn "return" locals ++ ["return"]

/-- Work on objects, their members and arrays. -/
def references : List String :=
  endingIn "static" ["get", "put"] ++ endingIn "field" ["get", "put"] ++
    startingWith "invoke" ["virtual", "special", "static", "interface", "dynamic"] ++
    ["new", "newarray", "anewarray", "arraylength", "athrow", "checkcast", "instanceof"] ++
    startingWith "monitor" ["enter", "exit"]

/-- Wider operands. -/
def extensions : List String := ["wide", "multianewarray", "ifnull", "ifnonnull", "goto_w", "jsr_w"]

/-- All operations in the order of their opcodes. -/
def operations : List String :=
  constants ++ moves "load" ++ moves "store" ++ stack ++ arithmetic ++ conversions ++ comparisons ++
    control ++ references ++ extensions

/-- The reserved operations: one for debuggers, and two for the machine itself. -/
def reserved : List (UInt8 × String) := [(0xCA, "breakpoint"), (0xFE, "impdep1"), (0xFF, "impdep2")]

/-- The name of an opcode. -/
def name (opcode : UInt8) : String :=
  (reserved.lookup opcode).getD (operations.getD opcode.toNat "unknown")

/-- The opcode is that of a reserved operation. -/
def isReserved (opcode : UInt8) : Bool := (reserved.lookup opcode).isSome

end Nomenclature

/-! ## §3. The table. -/

namespace Opcode

/-- The table lists the operations by the system. -/
theorem names_eq_operations : names.toList = Nomenclature.operations := by rfl

/-- An opcode is one of the reserved ones, or none of them. -/
theorem reserved_cases (opcode : UInt8) :
    (opcode = 0xCA ∨ opcode = 0xFE ∨ opcode = 0xFF) ∨
      (opcode ≠ 0xCA ∧ opcode ≠ 0xFE ∧ opcode ≠ 0xFF ∧ Nomenclature.reserved.lookup opcode = none) := by
  by_cases hdebug : opcode = 0xCA
  · exact .inl (.inl hdebug)
  by_cases hfirst : opcode = 0xFE
  · exact .inl (.inr (.inl hfirst))
  by_cases hsecond : opcode = 0xFF
  · exact .inl (.inr (.inr hsecond))
  refine .inr ⟨hdebug, hfirst, hsecond, ?_⟩
  rw [List.lookup_eq_none_iff]
  simp [Nomenclature.reserved, hdebug, hfirst, hsecond]

/-- Opcodes are named by the system. -/
theorem mnemonic_eq_name (opcode : UInt8) : mnemonic opcode.toNat = Nomenclature.name opcode := by
  obtain (rfl | rfl | rfl) | ⟨hdebug, hfirst, hsecond, hnone⟩ := reserved_cases opcode
  · rfl
  · rfl
  · rfl
  · have hne : ∀ other : UInt8, opcode ≠ other → (opcode.toNat : Int) ≠ other.toNat := by
      intro other h heq
      exact h (UInt8.toNat_inj.mp (Int.ofNat.inj heq))
    have hdebug : (opcode.toNat : Int) ≠ 0xCA := hne 0xCA hdebug
    have hfirst : (opcode.toNat : Int) ≠ 0xFE := hne 0xFE hfirst
    have hsecond : (opcode.toNat : Int) ≠ 0xFF := hne 0xFF hsecond
    have hnat : ¬ (opcode.toNat : Int) < 0 := by omega
    unfold mnemonic unknown Nomenclature.name
    rw [if_neg hnat, if_neg hdebug, if_neg hfirst, if_neg hsecond, hnone, Option.getD_none,
      ← names_eq_operations, Int.toNat_natCast, List.getD_eq_getElem?_getD, Array.getElem?_toList]

/-- The reserved opcodes are those of the reserved operations. -/
theorem isReserved_eq (opcode : UInt8) : isReserved opcode = Nomenclature.isReserved opcode := by
  obtain (rfl | rfl | rfl) | ⟨hdebug, hfirst, hsecond, hnone⟩ := reserved_cases opcode
  · rfl
  · rfl
  · rfl
  · unfold isReserved Nomenclature.isReserved
    rw [hnone]
    simp [hdebug, hfirst, hsecond]

end Opcode

end JavaClass
