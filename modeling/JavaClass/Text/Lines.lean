/-
  JavaClass.Text.Lines — a text cut at its line breaks.

  A line ends at a line feed, vertical tab, form feed, carriage return, one of the separators
  `U+001C` to `U+001E`, next line `U+0085`, or the separators `U+2028` and `U+2029`; a carriage
  return with the line feed behind it is one break.  A break at the very end opens no further line.
-/

namespace JavaClass.Text

/-- Characters that end a line. -/
def isLineBreak (c : Char) : Bool :=
  let n := c.toNat
  (0x0A ≤ n && n ≤ 0x0D) || (0x1C ≤ n && n ≤ 0x1E) || n == 0x85 || n == 0x2028 || n == 0x2029

/-- Cut the rest of a text, with the open line and the finished lines held in reverse. -/
def cutLines : List Char → List Char → List String → List String
  | [], [], done => done.reverse
  | [], line, done => (String.ofList line.reverse :: done).reverse
  | '\r' :: '\n' :: rest, line, done => cutLines rest [] (String.ofList line.reverse :: done)
  | c :: rest, line, done =>
    if isLineBreak c then cutLines rest [] (String.ofList line.reverse :: done)
    else cutLines rest (c :: line) done

/-- The lines of a text, without their breaks. -/
def lines (text : String) : List String := cutLines text.toList [] []

/-- Put `margin` in front of every line, and a plain newline between lines. -/
def indent (margin text : String) : String :=
  "\n".intercalate ((lines text).map (margin ++ ·))

end JavaClass.Text
