/-
  JavaClass.Text.ModifiedUtf8 — the text encoding of class files.

  Modified UTF-8 differs from UTF-8 in two ways: the null character may be written `C0 80`, and a
  character beyond `U+FFFF` may be written as its two surrogates, three bytes each.  Plain UTF-8 is
  accepted as well, four-byte characters included.

  Most texts are plain UTF-8, and this is tried first (`plain?`).  The others are decoded by way of
  UTF-16 (`indirect?`): nulls are put in their plain form, surrogates are let through, and UTF-16 joins
  the surrogates that are pairs and replaces the others.
-/
import JavaClass.Text.Utf16

namespace JavaClass.Text.ModifiedUtf8

/-- The text of plain UTF-8. -/
def plain? (bytes : List UInt8) : Option (List Char) :=
  (codePoints? false bytes).map (List.map Char.ofNat)

/-- Put the nulls in the rest of the bytes in their plain form, the bytes so far in `done` in
    reverse. -/
def plainNullsFrom : List UInt8 → List UInt8 → List UInt8
  | a :: b :: rest, done =>
    if a == 0xC0 && b == 0x80 then plainNullsFrom rest (0 :: done)
    else plainNullsFrom (b :: rest) (a :: done)
  | [a], done => (a :: done).reverse
  | [], done => done.reverse

/-- The bytes with `00` for each `C0 80`. -/
def plainNulls (bytes : List UInt8) : List UInt8 := plainNullsFrom bytes []

/-- The text of bytes that may hold nulls as `C0 80`, and surrogates. -/
def indirect? (bytes : List UInt8) : Option (List Char) :=
  (codePoints? true (plainNulls bytes)).map fun points => Utf16.lossy (Utf16.encode points)

/-- The text that the bytes encode, or `none` if they are not modified UTF-8. -/
def decode? (bytes : List UInt8) : Option String :=
  (plain? bytes <|> indirect? bytes).map String.ofList

end JavaClass.Text.ModifiedUtf8
