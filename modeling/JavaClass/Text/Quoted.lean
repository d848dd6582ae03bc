/-
  JavaClass.Text.Quoted — text in quotes, every character visible.

  The quote is an apostrophe, or a double quote if the text holds an apostrophe and no double quote.
  The quote in use and the backslash get a backslash; tab, newline and carriage return are written
  by name; every other unprintable character is written by its code point in the shortest of the
  forms `\xNN`, `\uNNNN`, `\UNNNNNNNN`.
-/
import JavaClass.Text.Digits
import JavaClass.Text.Printable

namespace JavaClass.Text

/-- The quote around a text. -/
def quoteOf (text : List Char) : Char :=
  if text.contains '\x27' && !text.contains '\x22' then '\x22' else '\x27'

/-- An unprintable character by its code point. -/
def codePointEscape (n : Nat) : String :=
  if n < 0x100 then "\\x" ++ padLeft 2 '0' (lowerHex n)
  else if n < 0x10000 then "\\u" ++ padLeft 4 '0' (lowerHex n)
  else "\\U" ++ padLeft 8 '0' (lowerHex n)

/-- One character of a text quoted with `quote`. -/
def quotedChar (quote c : Char) : String :=
  if c = quote || c = '\\' then "\\" ++ c.toString
  else if c = '\t' then "\\t"
  else if c = '\n' then "\\n"
  else if c = '\r' then "\\r"
  else if isPrintable c then c.toString
  else codePointEscape c.toNat

/-- The text in quotes. -/
def quoted (text : String) : String :=
  let quote := quoteOf text.toList
  text.toList.foldl (fun s c => s ++ quotedChar quote c) quote.toString ++ quote.toString

end JavaClass.Text
