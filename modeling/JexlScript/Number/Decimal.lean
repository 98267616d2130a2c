import JexlScript.Number.Double

/-!
# Shortest decimals

A finite positive double is written with the fewest decimal digits that still
round back to it, and of those with the ones nearest to it. `Decimal.shortest`
tries one digit, then two, and so on, with exact arithmetic on naturals.
-/

namespace JexlScript

-- powers are those of the core library
attribute [local instance(2000)] instPowNat

/-- The number `0.d₁d₂…dₖ * 10 ^ point`. -/
structure Decimal where
  digits : List Char
  point : Int
deriving DecidableEq, Repr

namespace Decimal

def width (n : Nat) : Nat := (Nat.toDigits 10 n).length

/-- The least `k` with `num / den < 10 ^ k`. -/
def ceiling (num den : Nat) : Int :=
  if den ≤ num then width (num / den)
  else
    let w := width (den / num)
    if den = num * 10 ^ (w - 1) then 2 - (w : Int) else 1 - (w : Int)

def dropTrailingZeros (ds : List Char) : List Char :=
  (ds.reverse.dropWhile (· == '0')).reverse

/-- The decimal `n * 10 ^ exponent`. -/
def ofNat (n : Nat) (exponent : Int) : Decimal :=
  let ds := Nat.toDigits 10 n
  ⟨dropTrailingZeros ds, ds.length + exponent⟩

/-- An interval of positive rationals with one common denominator, around a
value of the same denominator. -/
structure Interval where
  value : Nat
  lower : Nat
  upper : Nat
  den : Nat
  closed : Bool

/-- The rationals that round to the double `significand * 2 ^ exponent`: up to
half a step on either side, where the step below a power of two is half as
wide. The ends round to it when the significand is even. -/
def roundingInterval (significand : Nat) (exponent : Int) : Interval :=
  let narrow := significand = 2 ^ (52 : Nat) && -1074 < exponent
  let scale := 2 ^ (exponent - 2).toNat
  { value := 4 * significand * scale
    lower := (4 * significand - if narrow then 1 else 2) * scale
    upper := (4 * significand + 2) * scale
    den := 2 ^ (2 - exponent).toNat
    closed := significand % 2 = 0 }

/-- Whether `candidate * unit` lies in the interval, where `unit` is given as a
quotient of naturals. -/
def Interval.contains (i : Interval) (unitNum unitDen candidate : Nat) : Bool :=
  let c := candidate * unitNum * i.den
  let lower := i.lower * unitDen
  let upper := i.upper * unitDen
  if i.closed then lower ≤ c && c ≤ upper else lower < c && c < upper

/-- The decimal nearest to the interval's value among those of `count` digits
that lie in the interval; `top` is the value's `ceiling`. Of two at the same
distance the even one is taken. -/
def Interval.nearest? (i : Interval) (top : Int) (count : Nat) : Option Decimal :=
  let exponent := top - count
  let unitNum := 10 ^ exponent.toNat
  let unitDen := 10 ^ (-exponent).toNat
  let num := i.value * unitDen
  let den := i.den * unitNum
  let below := num / den
  let rest := 2 * (num % den)
  let hasBelow := i.contains unitNum unitDen below
  let hasAbove := i.contains unitNum unitDen (below + 1)
  let preferAbove := den < rest || (rest = den && below % 2 = 1)
  if hasAbove && (preferAbove || !hasBelow) then some (ofNat (below + 1) exponent)
  else if hasBelow then some (ofNat below exponent)
  else none

/-- The shortest decimal that rounds to the positive double
`significand * 2 ^ exponent`. Seventeen digits always suffice. -/
def shortest (significand : Nat) (exponent : Int) : Decimal :=
  let i := roundingInterval significand exponent
  let top := ceiling i.value i.den
  match (List.range' 1 17).findSome? (i.nearest? top) with
  | some d => d
  | none => ofNat significand exponent

end Decimal

end JexlScript
