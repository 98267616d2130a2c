import JexlScript.Number.Layout

/-!
# Rounded numbers

A finite double with a fixed number of places after the point, or with a fixed
number of digits. The exact value is rounded once, and of two nearest decimals
the even one is taken.
-/

namespace JexlScript

-- powers are those of the core library
attribute [local instance(2000)] instPowNat

namespace Decimal

def paddedDigits (width n : Nat) : List Char :=
  let ds := Nat.toDigits 10 n
  List.replicate (width - ds.length) '0' ++ ds

/-- Digits with the last `places` of them after a point, which also stands where
none do if it is asked for. -/
def pointed (keepPoint : Bool) (places : Nat) (digits : List Char) : List Char :=
  let whole := digits.length - places
  let after := digits.drop whole
  digits.take whole ++ if after.isEmpty && !keepPoint then [] else '.' :: after

def fixed (keepPoint : Bool) (places num den : Nat) : List Char :=
  pointed keepPoint places
    (paddedDigits (places + 1) (Double.roundedQuotient (num * 10 ^ places) den))

/-- The first digits of a quotient, rounded, and the power of ten that the first
of them counts. -/
def leading (count num den : Nat) : List Char × Int :=
  if num = 0 then (List.replicate count '0', 0)
  else
    let top := ceiling num den
    let shift : Int := count - top
    let n := Double.roundedQuotient (num * 10 ^ shift.toNat) (den * 10 ^ (-shift).toNat)
    if n = 10 ^ count then (Nat.toDigits 10 (n / 10), top) else (Nat.toDigits 10 n, top - 1)

def twoDigitExponent (e : Int) : List Char :=
  'e' :: (if 0 ≤ e then '+' else '-') :: paddedDigits 2 e.natAbs

/-- The quotient with one digit before the point, a number of places after it,
and an exponent. -/
def scientific (keepPoint : Bool) (places num den : Nat) : List Char :=
  let (digits, e) := leading (places + 1) num den
  pointed keepPoint places digits ++ twoDigitExponent e

/-- Digits after a point without the zeros at their end, and without the point if
no digit is left after it. -/
def withoutTrailingZeros (cs : List Char) : List Char :=
  if cs.contains '.' then
    let kept := dropTrailingZeros cs
    if kept.getLast? = some '.' then kept.dropLast else kept
  else cs

/-- The quotient with a number of digits: positional from `1e-4` up to as many
places as there are digits, else with an exponent. Zeros at the end are kept only
where that is asked for. -/
def general (keepZeros : Bool) (count num den : Nat) : List Char :=
  let count := max count 1
  let (digits, e) := leading count num den
  let strip (cs : List Char) : List Char := if keepZeros then cs else withoutTrailingZeros cs
  if -4 ≤ e && e < count then
    let zeros := List.replicate (-e).toNat '0'
    strip (pointed keepZeros (count - 1 - e).toNat (zeros ++ digits))
  else strip (pointed keepZeros (count - 1) digits) ++ twoDigitExponent e

end Decimal

inductive Rounding where
  | fixed
  | scientific
  | general
deriving DecidableEq, Repr

/-- The text of a double, rounded to a number of places or digits. In `full` text
the point stands also where no digit follows it, and zeros at the end are
kept. -/
def Double.roundedText (d : Double) (rounding : Rounding) (full : Bool) (precision : Nat) :
    List Char :=
  match d.shape with
  | .nan => "nan".toList
  | .infinite negative => (if negative then "-inf" else "inf").toList
  | .finite negative significand exponent =>
    let num := significand * 2 ^ exponent.toNat
    let den := 2 ^ (-exponent).toNat
    let text := match rounding with
      | .fixed => Decimal.fixed full precision num den
      | .scientific => Decimal.scientific full precision num den
      | .general => Decimal.general full precision num den
    if negative then '-' :: text else text

end JexlScript
