import JexlScript.Number.Decimal

/-!
# Number text

How a number is written in a script: integers that a double holds exactly as
plain digits, everything else as the shortest decimal of the nearest double,
laid out positionally between `1e-6` and `1e21` and with an exponent outside.
Routines write the same decimals by bounds of their own (`finiteSpelling`), and
what scripts write is made from that text: `Decimal.ofText` takes the digits out
of it, and `Decimal.layout` writes them anew.
-/

namespace JexlScript

-- powers are those of the core library
attribute [local instance(2000)] instPowNat

namespace Decimal

def exponentText (e : Int) : List Char :=
  (if 0 ≤ e then '+' else '-') :: Nat.toDigits 10 e.natAbs

/-- The text of a decimal: digits and zeros up to twenty-one places, a point
inside the digits or after a zero down to six zeros, and otherwise one digit
before the point and an exponent. -/
def layout (d : Decimal) : List Char :=
  let k := d.digits.length
  if k ≤ d.point ∧ d.point ≤ 21 then
    d.digits ++ List.replicate (d.point - k).toNat '0'
  else if 0 < d.point ∧ d.point ≤ 21 then
    d.digits.take d.point.toNat ++ '.' :: d.digits.drop d.point.toNat
  else if -6 < d.point ∧ d.point ≤ 0 then
    '0' :: '.' :: List.replicate (-d.point).toNat '0' ++ d.digits
  else
    match d.digits with
    | [] => 'e' :: exponentText (d.point - 1)
    | [c] => c :: 'e' :: exponentText (d.point - 1)
    | c :: cs => c :: '.' :: cs ++ 'e' :: exponentText (d.point - 1)

/-- The exponent that a decimal text gives after its letter, zero where there is
none. -/
def readExponent : List Char → Int
  | '-' :: ds => -(Nat.ofDigitChars 10 ds 0 : Int)
  | '+' :: ds => Nat.ofDigitChars 10 ds 0
  | ds => Nat.ofDigitChars 10 ds 0

/-- The decimal that a text spells by digits around a point and perhaps an
exponent. Zeros at either end of the digits are stripped, and the point is counted
from the first digit that is left. -/
def ofText (text : List Char) : Decimal :=
  let mantissa := text.takeWhile (· != 'e')
  let whole := mantissa.takeWhile (· != '.')
  let raw := whole ++ (mantissa.dropWhile (· != '.')).tail
  let stripped := raw.dropWhile (· == '0')
  ⟨dropTrailingZeros stripped,
    whole.length - (raw.length - stripped.length : Int) +
      readExponent (text.dropWhile (· != 'e')).tail⟩

/-- Lays out anew the number that a text spells. -/
def respell (text : List Char) : List Char := (ofText text).layout

end Decimal

/-- The digits of a finite number: positional from `1e-4` up to `1e16`, else with
an exponent of two digits or more. A point is added to a whole number where one
is asked for. -/
def finiteSpelling (pointed negative : Bool) (significand : Nat) (exponent : Int) : List Char :=
  let sign := if negative then ['-'] else []
  if significand = 0 then sign ++ (if pointed then "0.0" else "0").toList
  else
    let d := Decimal.shortest significand exponent
    if -4 < d.point ∧ d.point ≤ 16 then
      let whole := decide (d.digits.length ≤ d.point)
      sign ++ d.layout ++ (if pointed && whole then ".0".toList else [])
    else
      let power := Nat.toDigits 10 (d.point - 1).natAbs
      let power := if power.length < 2 then '0' :: power else power
      let mark := if 0 ≤ d.point - 1 then '+' else '-'
      let head :=
        match d.digits with
        | c :: n :: cs => c :: '.' :: n :: cs
        | cs => cs
      sign ++ head ++ 'e' :: mark :: power

namespace Double

def text (d : Double) : List Char :=
  match d.shape with
  | .nan => "NaN".toList
  | .infinite negative => (if negative then "-Infinity" else "Infinity").toList
  | .finite negative significand exponent =>
    if significand = 0 then ['0']
    else
      let digits := Decimal.respell (finiteSpelling true false significand exponent)
      if negative then '-' :: digits else digits

end Double

def intDigits (n : Int) : List Char :=
  if n < 0 then '-' :: Nat.toDigits 10 n.natAbs else Nat.toDigits 10 n.natAbs

/-- The text of an integer: its digits where a double tells it from its
neighbours, else the text of the nearest double. There is none when the
nearest double would be infinite. -/
def intText? (n : Int) : Option (List Char) :=
  if n.natAbs < 2 ^ (53 : Nat) then some (intDigits n)
  else (Double.ofInt? n).map Double.text

end JexlScript
