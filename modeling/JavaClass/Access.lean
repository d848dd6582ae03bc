/-
  JavaClass.Access — access flags.

  The same bit means different things in different places, so the words for a set of flags depend on
  the place that the flags come from.
-/
import JavaClass.Text.Quoted

namespace JavaClass

/-- Where flags come from. -/
inductive FlagContext where
  | cls
  | field
  | method
  | innerClass
  | methodParameter
  | moduleHeader
  | moduleRequires
  | moduleExports
deriving DecidableEq, Repr

namespace FlagContext

/-- The context of this name. -/
def ofName? : String → Option FlagContext
  | "class" => some cls
  | "field" => some field
  | "method" => some method
  | "inner_class" => some innerClass
  | "method_parameter" => some methodParameter
  | "module" => some moduleHeader
  | "module_requires" => some moduleRequires
  | "module_exports" => some moduleExports
  | _ => none

/-- The context of this name, or an error text. -/
def ofName (name : String) : Except String FlagContext :=
  (ofName? name).elim (.error (Text.quoted name ++ " is not a valid FlagContext")) .ok

/-- The bits that have a meaning in a context, each with its word, in the order of declarations. -/
def words : FlagContext → List (Nat × String)
  | cls => [
    (0x0001, "public"), (0x0010, "final"), (0x0020, "super"), (0x0200, "interface"),
    (0x0400, "abstract"), (0x1000, "ACC_SYNTHETIC"), (0x2000, "@interface"), (0x4000, "enum"),
    (0x8000, "module")]
  | field => [
    (0x0001, "public"), (0x0002, "private"), (0x0004, "protected"), (0x0008, "static"),
    (0x0010, "final"), (0x0040, "volatile"), (0x0080, "transient"), (0x1000, "ACC_SYNTHETIC"),
    (0x4000, "enum")]
  | method => [
    (0x0001, "public"), (0x0002, "private"), (0x0004, "protected"), (0x0008, "static"),
    (0x0010, "final"), (0x0020, "synchronized"), (0x0040, "ACC_BRIDGE"), (0x0080, "ACC_VARARGS"),
    (0x0100, "native"), (0x0400, "abstract"), (0x0800, "strictfp"), (0x1000, "ACC_SYNTHETIC")]
  | innerClass => [
    (0x0001, "public"), (0x0002, "private"), (0x0004, "protected"), (0x0008, "static"),
    (0x0010, "final"), (0x0200, "interface"), (0x0400, "abstract"), (0x1000, "ACC_SYNTHETIC"),
    (0x2000, "@interface"), (0x4000, "enum")]
  | methodParameter => [(0x0010, "final"), (0x1000, "ACC_SYNTHETIC"), (0x8000, "ACC_MANDATED")]
  | moduleHeader => [(0x0010, "open"), (0x1000, "ACC_SYNTHETIC"), (0x8000, "ACC_MANDATED")]
  | moduleRequires => [
    (0x0020, "transitive"), (0x0040, "ACC_STATIC_PHASE"), (0x1000, "ACC_SYNTHETIC"),
    (0x8000, "ACC_MANDATED")]
  | moduleExports => [(0x1000, "ACC_SYNTHETIC"), (0x8000, "ACC_MANDATED")]

end FlagContext

/-- The bit of weight `mask` is set in the two's complement of `flags`. -/
def hasFlag (flags : Int) (mask : Nat) : Bool := flags / mask % 2 = 1

/-- The words of the flags that are set. -/
def modifiers (flags : Int) (context : FlagContext) : String :=
  " ".intercalate ((context.words.filter fun (mask, _) => hasFlag flags mask).map (·.2))

end JavaClass
