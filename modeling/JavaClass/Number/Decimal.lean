/-
  JavaClass.Number.Decimal — decimal text of floating-point numbers.

  `Decimal.shortest` is the decimal with the fewest digits that reads back as the same eight-byte
  number, and of several the nearest.  It looks at 1, 2, … digits in turn: on each grid only the two
  neighbours of the number can be nearest, and the first grid with a neighbour that reads back wins.

  `Decimal.display` writes it: positionally for a leading digit from the fourth place behind the
  point to the sixteenth before it, with `.0` behind a whole number, and with a signed exponent of
  at least two digits elsewhere.

  Four-byte numbers are written in their own precision (`Double.displaySingle`): of the number
  rounded to 1, 2, … 9 digits, the first that gives the same four bytes.  Giving the four bytes of a
  decimal fails if it lies beyond the largest finite four-byte number, and then so does writing.
-/
import JavaClass.Number.Binary

namespace JavaClass.Number

/-- `digits * 10 ^ exponent`. -/
structure Decimal where
  digits : Nat
  exponent : Int
deriving DecidableEq, Repr

namespace Decimal

/-- The decimal as a fraction. -/
def fraction (d : Decimal) : Fraction := .scaled d.digits 10 d.exponent

/-- The pattern of the magnitude that the decimal reads back as. -/
def read (f : Format) (d : Decimal) : Nat := f.nearest d.fraction

/-- `x` rounded to `count` digits, a half to the even neighbour. -/
def rounded (x : Fraction) (count : Nat) : Decimal :=
  let exponent := x.log10 - (count - 1 : Nat)
  ⟨(x.inUnits 10 exponent).toNearest, exponent⟩

/-- The neighbour of `x` on the grid of `count` digits that reads back as `pattern`: the nearer one
    if both do, the even one if they are equally near. -/
def neighbour? (f : Format) (x : Fraction) (pattern count : Nat) : Option Decimal :=
  let exponent := x.log10 - (count - 1 : Nat)
  let y := x.inUnits 10 exponent
  let below : Decimal := ⟨y.num / y.den, exponent⟩
  let above : Decimal := ⟨y.num / y.den + 1, exponent⟩
  match below.read f == pattern, above.read f == pattern with
  | true, true => some ⟨y.toNearest, exponent⟩
  | true, false => some below
  | false, true => some above
  | false, false => none

/-- The shortest decimal for a finite magnitude of format `f`; seventeen digits always suffice. -/
def shortest (f : Format) (x : Fraction) : Decimal :=
  let pattern := f.nearest x
  ((List.range 17).findSome? fun i => neighbour? f x pattern (i + 1)).getD (rounded x 17)

/-- Decimal digits without the zeros at the end. -/
def significant (digits : Nat) : List Char :=
  ((Nat.toDigits 10 digits).reverse.dropWhile (· = '0')).reverse

/-- A run of zeros. -/
def zeros (count : Nat) : List Char := List.replicate count '0'

/-- Digits with the point in front of the first (`point = 0`), behind it (`point = 1`), and so
    on. -/
def positional (digits : List Char) (point : Int) : List Char :=
  if point ≤ 0 then '0' :: '.' :: zeros point.natAbs ++ digits
  else if point.natAbs < digits.length then
    digits.take point.natAbs ++ '.' :: digits.drop point.natAbs
  else digits ++ zeros (point.natAbs - digits.length) ++ ['.', '0']

/-- The exponent of scientific text: a sign and at least two digits. -/
def exponentText (exponent : Int) : List Char :=
  let digits := Nat.toDigits 10 exponent.natAbs
  (if exponent < 0 then '-' else '+') :: zeros (2 - digits.length) ++ digits

/-- One digit, the others behind a point if there are any, and the exponent. -/
def scientific (digits : List Char) (exponent : Int) : List Char :=
  let rest := digits.drop 1
  digits.take 1 ++ (if rest.isEmpty then [] else '.' :: rest) ++ 'e' :: exponentText exponent

/-- The text of a decimal. -/
def display (d : Decimal) : String :=
  if d.digits = 0 then "0.0"
  else
    let digits := significant d.digits
    let point := (Nat.toDigits 10 d.digits).length + d.exponent
    String.ofList <|
      if -4 < point && point ≤ 16 then positional digits point else scientific digits (point - 1)

end Decimal

/-- The text of infinity. -/
def infinityText (negative : Bool) : String := if negative then "-Infinity" else "Infinity"

/-- The minus sign of negative numbers, negative zero among them. -/
def signText (negative : Bool) : String := if negative then "-" else ""

namespace Value

/-- The shortest text that reads back as the same eight-byte number. -/
def display : Value → String
  | .nan => "NaN"
  | .infinite negative => infinityText negative
  | .finite negative mantissa exponent =>
    signText negative ++ (Decimal.shortest .double (.scaled mantissa 2 exponent)).display

end Value

namespace Double

/-- The shortest text that reads back as the same number. -/
def display (x : Double) : String := x.value.display

end Double

/-- The four-byte magnitude pattern of a fraction, if it is finite. -/
def singlePattern? (x : Fraction) : Option Nat :=
  let pattern := Format.single.nearest x
  if pattern < Format.single.infinity then some pattern else none

/-- What trying one number of digits gives. -/
inductive Attempt where
  /-- The text that was found. -/
  | found (text : String)
  /-- The decimal reads back as another four-byte number. -/
  | differs
  /-- The decimal lies beyond the largest finite four-byte number. -/
  | tooLarge

/-- Try the number rounded to `count` digits, as its eight-byte number. -/
def attempt (x : Fraction) (pattern count : Nat) : Attempt :=
  match Format.double.value ((Decimal.rounded x count).read .double) with
  | .finite _ mantissa exponent =>
    let candidate := Fraction.scaled mantissa 2 exponent
    match singlePattern? candidate with
    | none => .tooLarge
    | some found =>
      if found = pattern then .found (Decimal.shortest .double candidate).display else .differs
  | _ => .differs

/-- Try the numbers of digits in turn; `none` if one of them leads out of the four-byte numbers. -/
def firstAttempt (x : Fraction) (pattern : Nat) : List Nat → Option String
  | [] => some (Decimal.shortest .double x).display
  | count :: rest =>
    match attempt x pattern count with
    | .found text => some text
    | .differs => firstAttempt x pattern rest
    | .tooLarge => none

/-- The text of a number in four-byte precision; `none` if it, or the number rounded to few digits,
    lies beyond the largest finite four-byte number. -/
def Value.displaySingle? : Value → Option String
  | .nan => some "NaN"
  | .infinite negative => some (infinityText negative)
  | .finite negative mantissa exponent =>
    if mantissa = 0 then some (signText negative ++ "0.0")
    else
      let x := Fraction.scaled mantissa 2 exponent
      (singlePattern? x).bind fun pattern =>
        (firstAttempt x pattern [1, 2, 3, 4, 5, 6, 7, 8, 9]).map (signText negative ++ ·)

end JavaClass.Number
