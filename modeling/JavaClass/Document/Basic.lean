/-
  JavaClass.Document.Basic — decoded structures as trees of named values, and their text.

  A record is a sequence of named values that begins with the name of its type.  The text of a
  document puts every value on a line of its own, two blanks deeper than what holds it, and holds
  ASCII characters only.
-/
import JavaClass.Byte.Decoder
import JavaClass.Number.Decimal

namespace JavaClass

/-- A tree of named values. -/
inductive Document where
  | null
  | bool (value : Bool)
  | int (value : Int)
  | real (value : Number.Double)
  | text (value : String)
  | list (items : List Document)
  | object (fields : List (String × Document))

namespace Document

/-- An object that begins with the name of its type. -/
def record (type : String) (fields : List (String × Document)) : Document :=
  .object (("_type", .text type) :: fields)

/-- A natural number. -/
def nat (n : Nat) : Document := .int n

/-- An index into the constant pool, or another number of two bytes. -/
def word (n : UInt16) : Document := .int n.toNat

/-- A list of numbers of two bytes. -/
def words (ns : List UInt16) : Document := .list (ns.map word)

/-- A number of one byte. -/
def byte (n : UInt8) : Document := .int n.toNat

/-- Bytes in hexadecimal. -/
def bytes (content : List UInt8) : Document := .text (Text.hexOfBytes content)

/-- A value that may be missing. -/
def optional {α : Type} (document : α → Document) (value : Option α) : Document :=
  value.elim .null document

/-- The place of a structure. -/
def place (span : Span) : List (String × Document) :=
  [("start_pos", .int span.start), ("length", .int span.length)]

/-- A structure that begins with its place. -/
def located (type : String) (span : Span) (fields : List (String × Document)) : Document :=
  record type (place span ++ fields)

/-! ## Text. -/

/-- A unit of sixteen bits by its number. -/
def unitEscape (n : Nat) : String := "\\u" ++ Text.padLeft 4 '0' (Text.lowerHex n)

/-- One character of a text. -/
def escaped (c : Char) : String :=
  if c = '\x22' then "\\\""
  else if c = '\\' then "\\\\"
  else if c = '\n' then "\\n"
  else if c = '\r' then "\\r"
  else if c = '\t' then "\\t"
  else if c = '\x08' then "\\b"
  else if c = '\x0c' then "\\f"
  else if 0x20 ≤ c.toNat && c.toNat < 0x7F then c.toString
  else if c.toNat < 0x10000 then unitEscape c.toNat
  else
    let n := c.toNat - 0x10000
    unitEscape (0xD800 + n / 0x400) ++ unitEscape (0xDC00 + n % 0x400)

/-- A text in double quotes. -/
def quotedText (s : String) : String := s.toList.foldl (fun out c => out ++ escaped c) "\"" ++ "\""

/-- The start of a line at some depth. -/
def newline (depth : Nat) : String := "\n" ++ String.ofList (List.replicate (2 * depth) ' ')

mutual

/-- Write a document behind `out`, with its closing bracket at `depth`. -/
def write (depth : Nat) (out : String) : Document → String
  | .null => out ++ "null"
  | .bool value => out ++ (if value then "true" else "false")
  | .int value => out ++ toString value
  | .real value => out ++ value.display
  | .text value => out ++ quotedText value
  | .list [] => out ++ "[]"
  | .list (item :: items) =>
    writeItems depth (write (depth + 1) (out ++ "[" ++ newline (depth + 1)) item) items
  | .object [] => out ++ "\x7b\x7d"
  | .object ((name, value) :: fields) =>
    writeFields depth
      (write (depth + 1) (out ++ "\x7b" ++ newline (depth + 1) ++ quotedText name ++ ": ") value)
      fields

/-- Write the items behind the first, and the closing bracket. -/
def writeItems (depth : Nat) (out : String) : List Document → String
  | [] => out ++ newline depth ++ "]"
  | item :: items =>
    writeItems depth (write (depth + 1) (out ++ "," ++ newline (depth + 1)) item) items

/-- Write the fields behind the first, and the closing brace. -/
def writeFields (depth : Nat) (out : String) : List (String × Document) → String
  | [] => out ++ newline depth ++ "\x7d"
  | (name, value) :: fields =>
    writeFields depth
      (write (depth + 1) (out ++ "," ++ newline (depth + 1) ++ quotedText name ++ ": ") value)
      fields

end

/-- The text of a document. -/
def render (d : Document) : String := write 0 "" d

end Document

end JavaClass
