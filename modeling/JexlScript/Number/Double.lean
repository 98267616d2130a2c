/-!
# Double-precision numbers

A double is its 64 bits: a sign, eleven bits of exponent and fifty-two of
fraction. `Double.shape` says what the bits denote, `Double.ofRatio` gives the
double nearest to a quotient of naturals, and the order is read off the bits,
so everything here is exact arithmetic on naturals.
-/

namespace JexlScript

-- powers are those of the core library
attribute [local instance(2000)] instPowNat

structure Double where
  bits : UInt64
deriving DecidableEq, Repr, Inhabited

namespace Double

inductive Shape where
  | nan
  | infinite (negative : Bool)
  /-- The number `significand * 2 ^ exponent`, with its sign. -/
  | finite (negative : Bool) (significand : Nat) (exponent : Int)
deriving DecidableEq, Repr

def signBit (d : Double) : Bool := 2 ^ (63 : Nat) ≤ d.bits.toNat

def magnitude (d : Double) : Nat := d.bits.toNat % 2 ^ (63 : Nat)

def shape (d : Double) : Shape :=
  let biased : Nat := d.magnitude / 2 ^ (52 : Nat)
  let fraction : Nat := d.magnitude % 2 ^ (52 : Nat)
  if biased = 2047 then
    if fraction = 0 then .infinite d.signBit else .nan
  else if biased = 0 then
    .finite d.signBit fraction (-1074)
  else
    .finite d.signBit (fraction + 2 ^ (52 : Nat)) ((biased : Int) - 1075)

def ofMagnitude (negative : Bool) (magnitude : Nat) : Double :=
  ⟨UInt64.ofNat ((if negative then 2 ^ (63 : Nat) else 0) + magnitude)⟩

def infiniteMagnitude : Nat := 2047 * 2 ^ (52 : Nat)

def infinity (negative : Bool) : Double := ofMagnitude negative infiniteMagnitude

def nan : Double := ⟨0x7ff8000000000000⟩

def zero : Double := ⟨0⟩

def isNaN (d : Double) : Bool := infiniteMagnitude < d.magnitude

def isInfinite (d : Double) : Bool := d.magnitude = infiniteMagnitude

def isZero (d : Double) : Bool := d.magnitude = 0

/-- Whether the double is a number with its sign bit set; this holds of
negative zero. -/
def isNegative (d : Double) : Bool := d.signBit && !d.isNaN

def neg (d : Double) : Double := ofMagnitude (!d.signBit) d.magnitude

def rank (d : Double) : Int := if d.signBit then -(d.magnitude : Int) else d.magnitude

def equal (a b : Double) : Bool := !a.isNaN && !b.isNaN && a.rank = b.rank

def less (a b : Double) : Bool := !a.isNaN && !b.isNaN && a.rank < b.rank

def atMost (a b : Double) : Bool := !a.isNaN && !b.isNaN && a.rank ≤ b.rank

def roundedQuotient (num den : Nat) : Nat :=
  let quotient := num / den
  let twice := 2 * (num % den)
  if twice < den then quotient
  else if den < twice then quotient + 1
  else quotient + quotient % 2

/-- `num / den` scaled by `2 ^ -exponent`, as a quotient of naturals. -/
def scaleRatio (num den : Nat) (exponent : Int) : Nat × Nat :=
  if 0 ≤ exponent then (num, den * 2 ^ exponent.toNat)
  else (num * 2 ^ (-exponent).toNat, den)

/-- The double nearest to `num / den`, a half going to the even significand.
Quotients at or above the largest finite double plus half a step give
infinity; a denominator of zero gives infinity as well. -/
def ofRatio (negative : Bool) (num den : Nat) : Double :=
  if num = 0 then ofMagnitude negative 0
  else if den = 0 then infinity negative
  else
    let lowest : Int := max (-1074) ((num.log2 : Int) - den.log2 - 53)
    let (n, d) := scaleRatio num den lowest
    let exponent := if 2 ^ (53 : Nat) ≤ n / d then lowest + 1 else lowest
    let (n, d) := scaleRatio num den exponent
    let magnitude := (exponent + 1074).toNat * 2 ^ (52 : Nat) + roundedQuotient n d
    ofMagnitude negative (min magnitude infiniteMagnitude)

/-- The double nearest to an integer, unless it lies beyond the finite ones. -/
def ofInt? (n : Int) : Option Double :=
  let d := ofRatio (n < 0) n.natAbs 1
  if d.isInfinite then none else some d

/-- The double nearest to `digits * 10 ^ exponent`. The number of digits bounds
the result from both sides, so a far exponent needs no power of ten. -/
def ofDecimal (negative : Bool) (digits : Nat) (exponent : Int) : Double :=
  let length : Int := (Nat.toDigits 10 digits).length
  if digits = 0 || length + exponent < -400 then ofMagnitude negative 0
  else if 400 < length + exponent then infinity negative
  else if 0 ≤ exponent then ofRatio negative (digits * 10 ^ exponent.toNat) 1
  else ofRatio negative digits (10 ^ (-exponent).toNat)

end Double

end JexlScript
