/-
  JavaClass.Text.Digits — numerals: hexadecimal in either case, with or without padding, and
  decimals padded with zeros behind their sign.
-/

namespace JavaClass.Text

/-- Put `fill` in front of `s` until it has at least `width` characters. -/
def padLeft (width : Nat) (fill : Char) (s : String) : String :=
  String.ofList (List.replicate (width - s.length) fill) ++ s

/-- Put blanks behind `s` until it has at least `width` characters. -/
def padRight (width : Nat) (s : String) : String :=
  s ++ String.ofList (List.replicate (width - s.length) ' ')

/-- `n` in base 16 with lower-case digits. -/
def lowerHex (n : Nat) : String := String.ofList (Nat.toDigits 16 n)

/-- `n` in base 16 with upper-case digits. -/
def upperHex (n : Nat) : String := String.ofList ((Nat.toDigits 16 n).map Char.toUpper)

/-- `upperHex` with a minus sign in front of a negative number. -/
def signedUpperHex (n : Int) : String :=
  if n < 0 then "-" ++ upperHex n.natAbs else upperHex n.natAbs

/-- A decimal of at least `width` characters, the sign counted, zeros between sign and digits. -/
def paddedDecimal (width : Nat) (n : Int) : String :=
  if n < 0 then "-" ++ padLeft (width - 1) '0' (toString n.natAbs)
  else padLeft width '0' (toString n.natAbs)

/-- Each byte as two lower-case hexadecimal digits. -/
def hexOfBytes (bytes : List UInt8) : String :=
  bytes.foldl (fun s b => s ++ padLeft 2 '0' (lowerHex b.toNat)) ""

end JavaClass.Text
