import JexlScript.Routine.Syntax
import JexlScript.Text.Hex

/-!
# Numbers in routines

Decimal, hexadecimal, octal and binary integers, decimals with a point or an
exponent, and imaginary numbers; single underscores may stand between digits.
-/

namespace JexlScript.Routine

open Text (digitsIn isHexDigit)

/-- Digits with single underscores between them: the digits, and what
follows. There is at least one digit, and none is missing after an
underscore. -/
def digitRun? (isDigit : Char → Bool) : List Char → Option (List Char × List Char)
  | [] => none
  | [c] => if isDigit c then some ([c], []) else none
  | c :: n :: cs =>
    if !isDigit c then none
    else if isDigit n then
      (digitRun? isDigit (n :: cs)).map fun (ds, rest) => (c :: ds, rest)
    else if n = '_' then
      (digitRun? isDigit cs).map fun (ds, rest) => (c :: ds, rest)
    else some ([c], n :: cs)

/-- Whether a character may belong to a word, before its letters are
checked. -/
def isWordish (c : Char) : Bool := c.isAlphanum || c = '_' || 128 ≤ c.toNat

/-- Whether a number may end before this text: no word may follow at once,
except one that joins expressions. -/
def endsNumber (rest : List Char) : Bool :=
  ["and", "else", "for", "if", "in", "is", "or", "not"].any
      (fun w => w.toList.isPrefixOf rest) ||
    match rest with
    | [] => true
    | c :: _ => !isWordish c

/-- An integer in a base other than ten, after its two-character mark. An
underscore may follow the mark. -/
def basedInt? (base : Nat) (isDigit : Char → Bool) (cs : List Char) :
    Option (Constant × List Char) := do
  let start :=
    match cs with
    | '_' :: rest => rest
    | _ => cs
  let (ds, rest) ← digitRun? isDigit start
  let bad := match rest with
    | [] => false
    | c :: _ => c.isDigit
  if bad || !endsNumber rest then none
  else some (.int (digitsIn base ds), rest)

/-- An exponent after its mark, if there is one: its value and what follows.
The outer `none` is a sign without digits. -/
def exponent? : List Char → Option (Option (Int × List Char))
  | '+' :: cs => (digitRun? Char.isDigit cs).map fun (ds, rest) => some (digitsIn 10 ds, rest)
  | '-' :: cs =>
    (digitRun? Char.isDigit cs).map fun (ds, rest) => some (-(digitsIn 10 ds : Int), rest)
  | c :: cs =>
    if c.isDigit then
      (digitRun? Char.isDigit (c :: cs)).map fun (ds, rest) => some (digitsIn 10 ds, rest)
    else some none
  | [] => some none

structure DecimalParts where
  whole : List Char
  fraction : Option (List Char)
  exponent : Option Int

def DecimalParts.double (p : DecimalParts) : Double :=
  let fraction := p.fraction.getD []
  Double.ofDecimal false (digitsIn 10 (p.whole ++ fraction))
    (p.exponent.getD 0 - fraction.length)

/-- The constant that the parts of a decimal make. An integer has no leading
zeros and at most 4300 digits. -/
def DecimalParts.constant? (p : DecimalParts) : Option Constant :=
  if p.fraction.isSome || p.exponent.isSome then some (.double p.double)
  else if p.whole.head? = some '0' && !p.whole.all (· = '0') then none
  else if 4300 < p.whole.length then none
  else some (.int (digitsIn 10 p.whole))

/-- The end of a decimal: an exponent, the mark of an imaginary number, and no
word right after it. -/
def decimalEnd? (whole : List Char) (fraction : Option (List Char)) (cs : List Char) :
    Option (Constant × List Char) := do
  let (exponent, rest) ←
    match cs with
    | c :: after =>
      if c = 'e' || c = 'E' then
        match exponent? after with
        | none => none
        | some none => some (none, cs)
        | some (some (e, rest)) => some (some e, rest)
      else some (none, cs)
    | [] => some (none, cs)
  let parts : DecimalParts := ⟨whole, fraction, exponent⟩
  match rest with
  | 'j' :: after | 'J' :: after =>
    if endsNumber after then some (.imaginary parts.double, after) else none
  | _ => if endsNumber rest then parts.constant?.map fun c => (c, rest) else none

def fraction? (whole cs : List Char) : Option (Constant × List Char) :=
  match cs with
  | c :: _ =>
    if c.isDigit then do
      let (ds, rest) ← digitRun? Char.isDigit cs
      decimalEnd? whole (some ds) rest
    else decimalEnd? whole (some []) cs
  | [] => decimalEnd? whole (some []) cs

def number? (cs : List Char) : Option (Constant × List Char) :=
  match cs with
  | '0' :: 'x' :: rest | '0' :: 'X' :: rest => basedInt? 16 isHexDigit rest
  | '0' :: 'o' :: rest | '0' :: 'O' :: rest =>
    basedInt? 8 (fun c => '0' ≤ c && c ≤ '7') rest
  | '0' :: 'b' :: rest | '0' :: 'B' :: rest => basedInt? 2 (fun c => c = '0' || c = '1') rest
  | '.' :: rest => fraction? [] rest
  | _ => do
    let (whole, rest) ← digitRun? Char.isDigit cs
    match rest with
    | '.' :: after => fraction? whole after
    | _ => decimalEnd? whole none rest

end JexlScript.Routine
