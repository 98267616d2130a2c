import JexlScript.Number.Double

/-!
# Arithmetic of doubles

Every finite double is a whole number of units, the unit being the least
positive double. Sums, products, quotients and remainders are taken exactly in
units and rounded once.
-/

namespace JexlScript.Double

-- powers are those of the core library
attribute [local instance(2000)] instPowNat

def unitsPerOne : Nat := 2 ^ (1074 : Nat)

def units? (d : Double) : Option Int :=
  match d.shape with
  | .finite negative significand exponent =>
    let n : Int := (significand * 2 ^ (exponent + 1074).toNat : Nat)
    some (if negative then -n else n)
  | _ => none

/-- The double nearest to a number of units; a sum of zero has the given
sign. -/
def ofUnits (zeroNegative : Bool) (n : Int) : Double :=
  if n = 0 then ofMagnitude zeroNegative 0
  else ofRatio (n < 0) n.natAbs unitsPerOne

def add (a b : Double) : Double :=
  match a.units?, b.units? with
  | some x, some y => ofUnits (a.signBit && b.signBit) (x + y)
  | _, _ =>
    if a.isNaN || b.isNaN then nan
    else if a.isInfinite && b.isInfinite && a.signBit != b.signBit then nan
    else if a.isInfinite then a
    else b

def sub (a b : Double) : Double := a.add b.neg

def mul (a b : Double) : Double :=
  let negative := a.signBit != b.signBit
  match a.units?, b.units? with
  | some x, some y => ofRatio negative (x.natAbs * y.natAbs) (unitsPerOne * unitsPerOne)
  | _, _ =>
    if a.isNaN || b.isNaN || a.isZero || b.isZero then nan else infinity negative

/-- The quotient, for a divisor that is not zero. -/
def div (a b : Double) : Double :=
  let negative := a.signBit != b.signBit
  match a.units?, b.units? with
  | some x, some y => ofRatio negative x.natAbs y.natAbs
  | _, _ =>
    if a.isNaN || b.isNaN || (a.isInfinite && b.isInfinite) then nan
    else if a.isInfinite then infinity negative
    else ofMagnitude negative 0

/-- The remainder with the sign of the divisor, for a divisor that is not
zero. -/
def mod (a b : Double) : Double :=
  match a.units?, b.units? with
  | some x, some y =>
    let r := x.tmod y
    if r = 0 then ofMagnitude b.signBit 0
    else
      let remainder := ofUnits false r
      if decide (r < 0) != b.signBit then remainder.add b else remainder
  | some _, none =>
    if b.isNaN then nan
    else if a.isZero then ofMagnitude b.signBit 0
    else if a.signBit != b.signBit then b
    else a
  | none, _ => nan

def floor? (d : Double) : Option Int := d.units?.map fun n => n.fdiv unitsPerOne

def isWhole (d : Double) : Bool :=
  match d.units? with
  | some n => n % unitsPerOne = 0
  | none => false

def isOdd (d : Double) : Bool :=
  match d.units? with
  | some n => n % (2 * unitsPerOne) = unitsPerOne
  | none => false

def one : Double := ofRatio false 1 1

def abs (d : Double) : Double := ofMagnitude false d.magnitude

/-- The power of a finite positive base other than one by a finite exponent. -/
def rawPower (a b : Double) : Double :=
  ⟨(Float.pow (Float.ofBits a.bits) (Float.ofBits b.bits)).toBits⟩

def compareInt (n : Int) (d : Double) : Ordering :=
  match d.units? with
  | some u => compare (n * unitsPerOne) u
  | none => if d.signBit then .gt else .lt

end JexlScript.Double
