/-
  JavaClass.Number.Binary — binary floating point by exact arithmetic.

  A `Format` is an interchange format: a sign bit, an exponent field and a fraction field.  A bit
  pattern denotes a sign and a magnitude `mantissa * 2 ^ exponent`, an infinity, or not a number
  (`Format.value`).  `Format.nearest` goes the other way: it gives the bit pattern of the magnitude
  nearest to a fraction, ties to the even pattern, too large a fraction to infinity.

  Patterns of magnitudes are ordered like the magnitudes, so rounding needs no case for a mantissa
  that grows by one bit, nor one for subnormal numbers: with the exponent of the last place fixed,
  the pattern is the rounded mantissa plus a multiple of `2 ^ fractionBits`.
-/

namespace JavaClass.Number

/-- An interchange format, by the widths of its fields. -/
structure Format where
  fractionBits : Nat
  exponentBits : Nat
deriving DecidableEq, Repr

namespace Format

/-- Four bytes. -/
def single : Format := ⟨23, 8⟩

/-- Eight bytes. -/
def double : Format := ⟨52, 11⟩

/-- The exponent of the last place of the smallest magnitudes. -/
def leastExponent (f : Format) : Int := 2 - Nat.pow 2 (f.exponentBits - 1) - f.fractionBits

/-- The magnitude pattern of infinity: all bits of the exponent field. -/
def infinity (f : Format) : Nat := (Nat.pow 2 f.exponentBits - 1) * Nat.pow 2 f.fractionBits

/-- The weight of the sign bit. -/
def signWeight (f : Format) : Nat := Nat.pow 2 (f.fractionBits + f.exponentBits)

end Format

/-- What a bit pattern denotes. -/
inductive Value where
  | finite (negative : Bool) (mantissa : Nat) (exponent : Int)
  | infinite (negative : Bool)
  | nan
deriving DecidableEq, Repr

/-- A fraction, numerator over denominator. -/
structure Fraction where
  num : Nat
  den : Nat
deriving DecidableEq, Repr

namespace Fraction

/-- `mantissa * base ^ exponent`. -/
def scaled (mantissa base : Nat) (exponent : Int) : Fraction :=
  if exponent < 0 then ⟨mantissa, Nat.pow base exponent.natAbs⟩
  else ⟨mantissa * Nat.pow base exponent.natAbs, 1⟩

/-- The fraction in units of `base ^ exponent`. -/
def inUnits (x : Fraction) (base : Nat) (exponent : Int) : Fraction :=
  if exponent < 0 then ⟨x.num * Nat.pow base exponent.natAbs, x.den⟩
  else ⟨x.num, x.den * Nat.pow base exponent.natAbs⟩

/-- The whole number nearest to the fraction, a half to the even neighbour. -/
def toNearest (x : Fraction) : Nat :=
  let whole := x.num / x.den
  let rest := x.num % x.den
  if x.den < 2 * rest || (x.den = 2 * rest && whole % 2 = 1) then whole + 1 else whole

/-- The greatest `k` with `base ^ k` at most the fraction, if `guess` is that `k` or one more. -/
def settleLog (x : Fraction) (base : Nat) (guess : Int) : Int :=
  let y := x.inUnits base guess
  if y.den ≤ y.num then guess else guess - 1

/-- The position of the leading binary digit of a positive fraction. -/
def log2 (x : Fraction) : Int :=
  x.settleLog 2 ((Nat.log2 x.num : Int) - Nat.log2 x.den)

/-- The position of the leading decimal digit of a positive fraction. -/
def log10 (x : Fraction) : Int :=
  x.settleLog 10 (((Nat.toDigits 10 x.num).length : Int) - (Nat.toDigits 10 x.den).length)

end Fraction

namespace Format

/-- The value of a bit pattern. -/
def value (f : Format) (bits : Nat) : Value :=
  let negative := bits / f.signWeight % 2 = 1
  let field := bits / Nat.pow 2 f.fractionBits % Nat.pow 2 f.exponentBits
  let fraction := bits % Nat.pow 2 f.fractionBits
  if field = Nat.pow 2 f.exponentBits - 1 then
    if fraction = 0 then .infinite negative else .nan
  else if field = 0 then .finite negative fraction f.leastExponent
  else
    .finite negative (Nat.pow 2 f.fractionBits + fraction) (f.leastExponent + (field - 1 : Nat))

/-- The exponent of the last place of the magnitude that stands for `x`. -/
def lastPlace (f : Format) (x : Fraction) : Int :=
  max f.leastExponent (x.log2 - f.fractionBits)

/-- The magnitude pattern nearest to `x`. -/
def nearest (f : Format) (x : Fraction) : Nat :=
  if x.num = 0 then 0
  else
    let exponent := f.lastPlace x
    min f.infinity
      ((exponent - f.leastExponent).toNat * Nat.pow 2 f.fractionBits
        + (x.inUnits 2 exponent).toNearest)

/-- A magnitude pattern with its sign. -/
def signed (f : Format) (negative : Bool) (magnitude : Nat) : Nat :=
  if negative then f.signWeight + magnitude else magnitude

/-- The bit pattern of a value in this format, rounded to nearest. -/
def pattern (f : Format) : Value → Nat
  | .finite negative mantissa exponent =>
    f.signed negative (f.nearest (.scaled mantissa 2 exponent))
  | .infinite negative => f.signed negative f.infinity
  | .nan => f.infinity + Nat.pow 2 (f.fractionBits - 1)

end Format

/-- A number of the four-byte format, by its bits. -/
structure Single where
  bits : UInt32
deriving DecidableEq, Repr, Inhabited

/-- A number of the eight-byte format, by its bits. -/
structure Double where
  bits : UInt64
deriving DecidableEq, Repr, Inhabited

namespace Double

/-- The value of the bits. -/
def value (x : Double) : Value := Format.double.value x.bits.toNat

/-- The eight-byte number nearest to a value. -/
def ofValue (v : Value) : Double := ⟨UInt64.ofNat (Format.double.pattern v)⟩

end Double

namespace Single

/-- The value of the bits. -/
def value (x : Single) : Value := Format.single.value x.bits.toNat

/-- The same value in eight bytes. -/
def toDouble (x : Single) : Double := .ofValue x.value

end Single

end JavaClass.Number
