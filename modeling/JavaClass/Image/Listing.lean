/-
  JavaClass.Image.Listing — classes as text for readers.

  Each function gives the lines of a part of a class.  A line may hold line breaks of its own, if a
  name or constant does; those of instructions are indented like the instruction.
-/
import JavaClass.Image.Basic
import JavaClass.Text.Lines

namespace JavaClass

/-- The handler of a stretch of code. -/
def ExceptionHandler.line (p : Pool) (h : ExceptionHandler) : String :=
  let caught := if h.catchType = 0 then "any" else p.describe h.catchType.toNat
  s!"catch {caught} [{h.startPc}, {h.endPc}) -> {h.handlerPc}"

/-- The body of a method behind a margin. -/
def Code.lines (p : Pool) (margin : String) (code : Code) : List String :=
  [margin ++ s!"Code: max_stack={code.maxStack} max_locals={code.maxLocals} " ++
      s!"code_length={code.length}"]
    ++ code.listing.instructions.map (fun i => Text.indent margin (i.textWith p.describe))
    ++ code.listing.stopped.toList.map (fun fault => margin ++ "[truncated] " ++ fault.message)
    ++ code.handlers.map (fun h => margin ++ "  " ++ h.value.line p)

namespace Member

/-- The body of a method, if it has one. -/
def codeLines (p : Pool) (margin : String) (m : Member) : List String :=
  m.code?.elim [] (Code.lines p margin)

/-- The declaration of a method and its body. -/
def listing (p : Pool) (m : Member) : List String := m.declaration :: m.codeLines p "  "

end Member

namespace Image

/-- The header of a class. -/
def headerLines (c : Image) : List String :=
  [s!"Class: {c.name}",
    s!"  Version: {c.major}.{c.minor} ({c.release})",
    s!"  Access: {c.modifiers}"]
  ++ (if c.superName = "" then [] else [s!"  Super: {c.superName}"])
  ++ (if c.interfaces.isEmpty then []
    else ["  Interfaces: " ++ ", ".intercalate c.interfaceNames])
  ++ (match c.sourceFile? with
    | none | some "" => []
    | some file => [s!"  Source file: {file}"])

/-- The constants of a class. -/
def poolLines (c : Image) : List String :=
  s!"Constant pool ({c.pool.size - 1} slot(s)):" ::
    c.pool.constants.map fun (index, constant) =>
      s!"  #{index} = {Text.padRight 20 constant.value.kindName} {c.pool.describe index}"

/-- The members of a class; the code of methods only if asked. -/
def memberLines (c : Image) (code : Bool) : List String :=
  s!"Fields ({c.fields.length}):" :: c.fields.map (fun m => "  " ++ m.declaration)
    ++ s!"Methods ({c.methods.length}):" :: c.methods.flatMap fun m =>
      ("  " ++ m.declaration) :: if code then m.codeLines c.pool "    " else []

/-- The name of an attribute; one without a name is shown by its slot. -/
def attributeName (c : Image) (a : Attribute) : String :=
  match a.name with
  | none | some "" => c.pool.describe a.nameIndex.toNat
  | some name => name

/-- The attributes of a class. -/
def attributeLines (c : Image) : List String :=
  s!"Attributes ({c.attributes.length}):" :: c.attributes.map fun a =>
    s!"  {c.attributeName a} ({a.declared} bytes)"

/-- The whole class. -/
def lines (c : Image) (code : Bool) : List String :=
  c.headerLines ++ c.poolLines ++ c.memberLines code ++ c.attributeLines

end Image

end JavaClass
