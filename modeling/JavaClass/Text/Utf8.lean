/-
  JavaClass.Text.Utf8 — the byte patterns of UTF-8, and two ways to decode it.

  `codePoints?` reads well-formed UTF-8 and nothing else; it can be told to let surrogates through,
  which well-formed UTF-8 has none of.  `lossy` never fails: it puts one replacement character for every
  maximal part that begins a character and cannot be continued, and for every byte that begins none.
-/

namespace JavaClass.Text

/-- The replacement character. -/
def replacement : Char := '�'

/-- Bytes `80` to `BF` continue a character. -/
def isContinuation (b : UInt8) : Bool := 0x80 ≤ b && b ≤ 0xBF

/-- The second bytes that may follow the first byte of a three-byte character, surrogates included:
    after `E0` the overlong forms are refused. -/
def isSecondOfThree (a b : UInt8) : Bool :=
  isContinuation b && (a != 0xE0 || 0xA0 ≤ b)

/-- The second bytes that may follow the first byte of a four-byte character: after `F0` the
    overlong forms are refused, after `F4` everything past `U+10FFFF`. -/
def isSecondOfFour (a b : UInt8) : Bool :=
  isContinuation b && (a != 0xF0 || 0x90 ≤ b) && (a != 0xF4 || b ≤ 0x8F)

/-- Bytes `C2` to `DF` begin two bytes. -/
def isLeadOfTwo (a : UInt8) : Bool := 0xC2 ≤ a && a ≤ 0xDF

/-- Bytes `E0` to `EF` begin three bytes. -/
def isLeadOfThree (a : UInt8) : Bool := 0xE0 ≤ a && a ≤ 0xEF

/-- Bytes `F0` to `F4` begin four bytes. -/
def isLeadOfFour (a : UInt8) : Bool := 0xF0 ≤ a && a ≤ 0xF4

/-- The code point of two bytes. -/
def codeOfTwo (a b : UInt8) : Nat := (a.toNat - 0xC0) * 0x40 + (b.toNat - 0x80)

/-- The code point of three bytes. -/
def codeOfThree (a b c : UInt8) : Nat :=
  (a.toNat - 0xE0) * 0x1000 + (b.toNat - 0x80) * 0x40 + (c.toNat - 0x80)

/-- The code point of four bytes. -/
def codeOfFour (a b c d : UInt8) : Nat :=
  (a.toNat - 0xF0) * 0x40000 + (b.toNat - 0x80) * 0x1000 + (c.toNat - 0x80) * 0x40
    + (d.toNat - 0x80)

/-- A surrogate takes three bytes beginning with `ED` and a second byte from `A0` on. -/
def isSurrogateStart (a b : UInt8) : Bool := a == 0xED && 0xA0 ≤ b

/-- Decode the rest of the bytes, the code points so far in `done` in reverse.  Surrogates are let
    through if `lenient`, and refused otherwise. -/
def codePointsFrom (lenient : Bool) : List UInt8 → List Nat → Option (List Nat)
  | [], done => some done.reverse
  | a :: r, done =>
    if a < 0x80 then codePointsFrom lenient r (a.toNat :: done)
    else
      match r with
      | [] => none
      | b :: r₂ =>
        if isLeadOfTwo a && isContinuation b then
          codePointsFrom lenient r₂ (codeOfTwo a b :: done)
        else
          match r₂ with
          | [] => none
          | c :: r₃ =>
            if isLeadOfThree a && isSecondOfThree a b && isContinuation c
                && (lenient || !isSurrogateStart a b) then
              codePointsFrom lenient r₃ (codeOfThree a b c :: done)
            else
              match r₃ with
              | [] => none
              | d :: r₄ =>
                if isLeadOfFour a && isSecondOfFour a b && isContinuation c && isContinuation d then
                  codePointsFrom lenient r₄ (codeOfFour a b c d :: done)
                else none

/-- The code points that bytes encode, or `none` if they are not UTF-8. -/
def codePoints? (lenient : Bool) (bytes : List UInt8) : Option (List Nat) :=
  codePointsFrom lenient bytes []

/-- Decode the rest of the bytes behind the characters in `done`, held in reverse. -/
def lossyFrom : List UInt8 → List Char → List Char
  | [], done => done.reverse
  | a :: r, done =>
    if a < 0x80 then lossyFrom r (Char.ofNat a.toNat :: done)
    else if isLeadOfTwo a then
      match r with
      | b :: r₂ =>
        if isContinuation b then lossyFrom r₂ (Char.ofNat (codeOfTwo a b) :: done)
        else lossyFrom (b :: r₂) (replacement :: done)
      | [] => (replacement :: done).reverse
    else if isLeadOfThree a then
      match r with
      | b :: r₂ =>
        if isSecondOfThree a b && !isSurrogateStart a b then
          match r₂ with
          | c :: r₃ =>
            if isContinuation c then lossyFrom r₃ (Char.ofNat (codeOfThree a b c) :: done)
            else lossyFrom (c :: r₃) (replacement :: done)
          | [] => (replacement :: done).reverse
        else lossyFrom (b :: r₂) (replacement :: done)
      | [] => (replacement :: done).reverse
    else if isLeadOfFour a then
      match r with
      | b :: r₂ =>
        if isSecondOfFour a b then
          match r₂ with
          | c :: r₃ =>
            if isContinuation c then
              match r₃ with
              | d :: r₄ =>
                if isContinuation d then
                  lossyFrom r₄ (Char.ofNat (codeOfFour a b c d) :: done)
                else lossyFrom (d :: r₄) (replacement :: done)
              | [] => (replacement :: done).reverse
            else lossyFrom (c :: r₃) (replacement :: done)
          | [] => (replacement :: done).reverse
        else lossyFrom (b :: r₂) (replacement :: done)
      | [] => (replacement :: done).reverse
    else lossyFrom r (replacement :: done)

/-- The bytes as text, one replacement character for each part that is not UTF-8. -/
def lossy (bytes : List UInt8) : String := String.ofList (lossyFrom bytes [])

end JavaClass.Text
