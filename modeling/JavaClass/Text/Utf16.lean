/-
  JavaClass.Text.Utf16 — UTF-16 as bytes.

  A code point is one unit of two bytes, or a pair of surrogates if it is too large for that.  A mark at
  the front says in which order the bytes of a unit stand.  `lossy` never fails: a surrogate that is not
  in a pair becomes the replacement character.
-/
import JavaClass.Text.Utf8

namespace JavaClass.Text.Utf16

/-- High surrogates open a pair. -/
def isHigh (n : Nat) : Bool := 0xD800 ≤ n && n < 0xDC00

/-- Low surrogates close a pair. -/
def isLow (n : Nat) : Bool := 0xDC00 ≤ n && n < 0xE000

/-- The code point that a pair of surrogates stands for. -/
def paired (high low : Nat) : Nat := 0x10000 + (high - 0xD800) * 0x400 + (low - 0xDC00)

/-- The high surrogate of a code point beyond `U+FFFF`. -/
def highOf (n : Nat) : Nat := 0xD800 + (n - 0x10000) / 0x400

/-- The low surrogate of a code point beyond `U+FFFF`. -/
def lowOf (n : Nat) : Nat := 0xDC00 + (n - 0x10000) % 0x400

/-- The units of a code point; surrogates stand for themselves. -/
def units (n : Nat) : List Nat := if n < 0x10000 then [n] else [highOf n, lowOf n]

/-- The order of the two bytes of a unit. -/
inductive ByteOrder where
  | little
  | big
deriving DecidableEq, Repr

/-- The unit of two bytes. -/
def ByteOrder.unit : ByteOrder → UInt8 → UInt8 → Nat
  | little, a, b => a.toNat + 0x100 * b.toNat
  | big, a, b => 0x100 * a.toNat + b.toNat

/-- The bytes of a unit, the less significant one first. -/
def littleEndian (unit : Nat) : List UInt8 := [UInt8.ofNat unit, UInt8.ofNat (unit / 0x100)]

/-- Code points as bytes, behind the mark of their order. -/
def encode (points : List Nat) : List UInt8 :=
  [0xFF, 0xFE] ++ (points.flatMap units).flatMap littleEndian

/-- Decode the rest of the bytes behind the characters in `done`, held in reverse. -/
def lossyFrom (order : ByteOrder) : List UInt8 → List Char → List Char
  | [], done => done.reverse
  | [_], done => (replacement :: done).reverse
  | a :: b :: r, done =>
    let unit := order.unit a b
    if isHigh unit then
      match r with
      | c :: d :: r₂ =>
        let next := order.unit c d
        if isLow next then lossyFrom order r₂ (Char.ofNat (paired unit next) :: done)
        else lossyFrom order (c :: d :: r₂) (replacement :: done)
      | _ => (replacement :: done).reverse
    else if isLow unit then lossyFrom order r (replacement :: done)
    else lossyFrom order r (Char.ofNat unit :: done)

/-- The text of bytes in the order of their mark; without a mark, the less significant byte of a unit
    comes first. -/
def lossy (bytes : List UInt8) : List Char :=
  match bytes with
  | a :: b :: rest =>
    if a == 0xFF && b == 0xFE then lossyFrom .little rest []
    else if a == 0xFE && b == 0xFF then lossyFrom .big rest []
    else lossyFrom .little bytes []
  | _ => lossyFrom .little bytes []

end JavaClass.Text.Utf16
