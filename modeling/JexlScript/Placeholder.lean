import JexlScript.Number.Rounded
import JexlScript.Text.Quoted
import JexlScript.Value

/-!
# Placeholders

A text may hold placeholders such as `%5.2f`, which are filled with values one
after the other. A placeholder has flags, the least width, a precision, and a
letter that says how its value is written.
-/

namespace JexlScript

-- powers are those of the core library
attribute [local instance(2000)] instPowNat

inductive FillError where
  | malformed
  | overflow
  | notANumber
  /-- The values are not of the kind or the number that is asked for. -/
  | type
deriving DecidableEq, Repr

structure Placeholder where
  leftward : Bool
  signed : Bool
  blank : Bool
  full : Bool
  zeros : Bool
  width : Nat
  precision : Option Nat
  letter : Char
deriving DecidableEq, Repr

namespace Placeholder

/-! ## Reading -/

def readFlags : Placeholder → List Char → Placeholder × List Char
  | p, [] => (p, [])
  | p, c :: cs =>
    match c with
    | '-' => readFlags { p with leftward := true } cs
    | '+' => readFlags { p with signed := true } cs
    | ' ' => readFlags { p with blank := true } cs
    | '#' => readFlags { p with full := true } cs
    | '0' => readFlags { p with zeros := true } cs
    | c => (p, c :: cs)

def readNumber (cs : List Char) : Nat × List Char :=
  let digits := cs.takeWhile Char.isDigit
  (digits.foldl (fun n c => 10 * n + (c.toNat - 48)) 0, cs.drop digits.length)

/-- A width or precision that is given among the values. -/
def givenNumber (most : Nat) : List Value → Except FillError (Int × List Value)
  | [] => .error .type
  | v :: values =>
    match v.number? with
    | some (.int n) => if n.natAbs ≤ most then .ok (n, values) else .error .overflow
    | _ => .error .type

def readSize (most : Nat) (values : List Value) (cs : List Char) :
    Except FillError (Int × List Value × List Char) :=
  match cs with
  | '*' :: rest => do
    let (n, values) ← givenNumber most values
    .ok (n, values, rest)
  | cs =>
    let (n, rest) := readNumber cs
    if n ≤ most then .ok (n, values, rest) else .error .malformed

def readPrecision (values : List Value) (cs : List Char) :
    Except FillError (Option Nat × List Value × List Char) :=
  match cs with
  | '.' :: rest => do
    let (n, values, rest) ← readSize (2 ^ (31 : Nat) - 1) values rest
    .ok (some n.toNat, values, rest)
  | cs => .ok (none, values, cs)

/-- Whether a key in parentheses is closed; `depth` counts the open ones. -/
def closesKey : (depth : Nat) → List Char → Bool
  | _, [] => false
  | depth, '(' :: cs => closesKey (depth + 1) cs
  | depth, ')' :: cs => depth ≤ 1 || closesKey (depth - 1) cs
  | depth, _ :: cs => closesKey depth cs

/-- Reads a placeholder after its sign, and gives the values that are left. A key
asks for a value by name, and there are none; a negative width stands for a text
to the left. `lenient` is as in `fillFrom`. -/
def read (lenient : Bool) (values : List Value) (cs : List Char) :
    Except FillError (Placeholder × List Value × List Char) :=
  if cs.head? = some '(' then
    .error (if lenient && !closesKey 0 cs then .malformed else .type)
  else do
    let (p, cs) := readFlags ⟨false, false, false, false, false, 0, none, ' '⟩ cs
    let (width, values, cs) ← readSize (2 ^ (63 : Nat) - 1) values cs
    let (precision, values, cs) ← readPrecision values cs
    let cs := match cs with
      | c :: rest => if c = 'h' || c = 'l' || c = 'L' then rest else c :: rest
      | [] => []
    match cs with
    | [] => .error .malformed
    | letter :: rest =>
      let p := { p with leftward := p.leftward || width < 0, width := width.natAbs }
      .ok ({ p with precision, letter }, values, rest)

/-! ## Writing -/

/-- A text set into the width of a placeholder: `sign` comes before zeros and
after blanks, and so does `mark`. -/
def setInto (p : Placeholder) (isNumber : Bool) (sign mark text : List Char) : List Char :=
  let length := sign.length + mark.length + text.length
  let gap := p.width - length
  if p.leftward then sign ++ mark ++ text ++ List.replicate gap ' '
  else if isNumber && p.zeros then sign ++ mark ++ List.replicate gap '0' ++ text
  else List.replicate gap ' ' ++ sign ++ mark ++ text

def signFor (p : Placeholder) (negative : Bool) : List Char :=
  if negative then ['-'] else if p.signed then ['+'] else if p.blank then [' '] else []

def writeText (p : Placeholder) (text : List Char) : List Char :=
  p.setInto false [] [] (match p.precision with
    | some n => text.take n
    | none => text)

/-- The digits of an integer in the base of a placeholder's letter; a decimal
text has no more than 4300 of them. -/
def intDigits? (p : Placeholder) (n : Nat) : Option (List Char) :=
  let (base, limited) := match p.letter with
    | 'o' => (8, false)
    | 'x' | 'X' => (16, false)
    | _ => (10, true)
  let digits := Nat.toDigits base n
  if limited && 4300 < digits.length then none
  else some (List.replicate (p.precision.getD 0 - digits.length) '0' ++ digits)

def writeInt (p : Placeholder) (n : Int) : Except FillError (List Char) :=
  match p.intDigits? n.natAbs with
  | none => .error .malformed
  | some digits =>
    let upper := p.letter = 'X'
    let mark := if p.full then
        match p.letter with
        | 'o' => ['0', 'o']
        | 'x' => ['0', 'x']
        | 'X' => ['0', 'X']
        | _ => []
      else []
    let digits := if upper then digits.map Char.toUpper else digits
    .ok (p.setInto true (p.signFor (n < 0)) mark digits)

def writeDouble (p : Placeholder) (d : Double) : List Char :=
  let rounding : Rounding :=
    if p.letter = 'f' || p.letter = 'F' then .fixed
    else if p.letter = 'e' || p.letter = 'E' then .scientific
    else .general
  let text := d.roundedText rounding p.full (p.precision.getD 6)
  let text := if p.letter.isUpper then text.map Char.toUpper else text
  match text with
  | '-' :: digits => p.setInto true (p.signFor true) [] digits
  | digits => p.setInto true (p.signFor false) [] digits

end Placeholder

/-! ## Values -/

namespace Value

def doubleShown (d : Double) : List Char :=
  match d.shape with
  | .nan => "nan".toList
  | .infinite negative => (if negative then "-inf" else "inf").toList
  | .finite negative significand exponent => finiteSpelling true negative significand exponent

mutual

/-- The text that spells a value; an integer of more than 4300 digits has
none. -/
def spelled : Value → Except FillError (List Char)
  | .scalar .null => .ok "None".toList
  | .scalar (.bool b) => .ok (if b then "True" else "False").toList
  | .scalar (.text s) => .ok (Text.quoted s).toList
  | .scalar (.int n) =>
    if 4300 < (Nat.toDigits 10 n.natAbs).length then .error .malformed else .ok (intDigits n)
  | .scalar (.double d) => .ok (doubleShown d)
  | .list items => do
    let texts ← spelledAll items
    .ok ('[' :: (texts.intersperse ", ".toList).flatten ++ [']'])

def spelledAll : List Value → Except FillError (List (List Char))
  | [] => .ok []
  | v :: vs => do
    let first ← v.spelled
    let others ← spelledAll vs
    .ok (first :: others)

end

/-- The text that shows a value: a text itself, else what spells it. -/
def shown : Value → Except FillError (List Char)
  | .scalar (.text s) => .ok s.toList
  | v => v.spelled

def escaped (cs : List Char) : List Char :=
  cs.flatMap fun c => if c.toNat < 128 then [c] else Text.escapePoint c.toNat

def cutToInt (v : Value) : Except FillError Int :=
  match v.number? with
  | some (.int n) => .ok n
  | some (.double d) =>
    match d.shape with
    | .nan => .error .notANumber
    | .infinite _ => .error .overflow
    | .finite negative significand exponent =>
      let n := significand * 2 ^ exponent.toNat / 2 ^ (-exponent).toNat
      .ok (if negative then -(n : Int) else n)
  | none => .error .type

def nearestDouble (v : Value) : Except FillError Double :=
  match v.number? with
  | some (.int n) =>
    match Double.ofInt? n with
    | some d => .ok d
    | none => .error .overflow
  | some (.double d) => .ok d
  | none => .error .type

end Value

def Placeholder.charOf (v : Value) : Except FillError Char :=
  match v with
  | .scalar (.text s) =>
    match s.toList with
    | [c] => .ok c
    | _ => .error .type
  | v =>
    match v.number? with
    | some (.int n) =>
      if 0 ≤ n && n < 0x110000 then .ok (Char.ofNat n.toNat) else .error .overflow
    | _ => .error .type

def Placeholder.write (p : Placeholder) (v : Value) : Except FillError (List Char) :=
  if p.letter = 's' then v.shown.map p.writeText
  else if p.letter = 'r' then v.spelled.map p.writeText
  else if p.letter = 'a' then v.spelled.map fun cs => p.writeText (Value.escaped cs)
  else if p.letter = 'c' then (charOf v).map fun c => p.setInto false [] [] [c]
  else if ['d', 'i', 'u'].contains p.letter then do
    let n ← v.cutToInt
    p.writeInt n
  else if ['o', 'x', 'X'].contains p.letter then
    match v.number? with
    | some (.int n) => p.writeInt n
    | _ => .error .type
  else if ['e', 'E', 'f', 'F', 'g', 'G'].contains p.letter then v.nearestDouble.map p.writeDouble
  else .error .malformed

/-- Fills the placeholders of a text with values; a doubled sign stands for
itself. All values have to be used, unless `lenient`; `fuel` bounds the number of
placeholders and characters. -/
def fillFrom (lenient : Bool) : (fuel : Nat) → List Value → List Char →
    Except FillError (List Char)
  | 0, _, _ => .error .malformed
  | _, values, [] => if values.isEmpty || lenient then .ok [] else .error .type
  | fuel + 1, values, '%' :: '%' :: cs => do
    let others ← fillFrom lenient fuel values cs
    .ok ('%' :: others)
  | fuel + 1, values, '%' :: cs => do
    let (p, values, rest) ← Placeholder.read lenient values cs
    match values with
    | [] => .error .type
    | v :: values =>
      let text ← p.write v
      let others ← fillFrom lenient fuel values rest
      .ok (text ++ others)
  | fuel + 1, values, c :: cs => do
    let others ← fillFrom lenient fuel values cs
    .ok (c :: others)

def fill (lenient : Bool) (text : String) (values : List Value) : Except FillError String :=
  (fillFrom lenient (text.length + 1) values text.toList).map String.ofList

end JexlScript
