import JexlScript.Number.Double
import Mathlib.Tactic.Tauto

/-!
# Script tokens

The lexical grammar of script expressions: names, numerals, strings and signs,
each taken as long as it goes. What the text of an expression may hold besides
(comments, templates, regular expressions, numerals that are not decimal) is
refused. Which characters beyond the first 128 stand in names is left open.
-/

namespace JexlScript.Script.Reading

-- powers are those of the core library
attribute [local instance(2000)] instPowNat

/-- The characters that names are made of. Among the first 128 these are letters,
digits, `_` and `$`. -/
structure NameClass where
  /-- The characters that a name may start with. -/
  start : Char → Bool
  /-- The characters that a name may go on with. -/
  part : Char → Bool
  part_of_start : ∀ c, start c = true → part c = true
  start_ascii : ∀ c : Char, c.toNat < 128 → start c = (c.isAlpha || c == '_' || c == '$')
  part_ascii : ∀ c : Char, c.toNat < 128 → part c = (c.isAlphanum || c == '_' || c == '$')

/-- Names of ASCII characters only. -/
def NameClass.ascii : NameClass where
  start c := c.isAlpha || c == '_' || c == '$'
  part c := c.isAlphanum || c == '_' || c == '$'
  part_of_start c h := by
    simp only [Char.isAlphanum, Bool.or_eq_true] at h ⊢
    tauto
  start_ascii _ _ := rfl
  part_ascii _ _ := rfl

/-- A token of a script. -/
inductive Token where
  | word (text : String)
  /-- A numeral, by the double it denotes. -/
  | number (value : Double)
  | string (value : String)
  /-- A sign: an operator or a bracket. -/
  | sign (text : String)
deriving DecidableEq

/-! ## Numerals -/

/-- The double nearest to a decimal. -/
def decimalValue (digits : Nat) (exponent : Int) : Double :=
  if 0 ≤ exponent then Double.ofRatio false (digits * 10 ^ exponent.toNat) 1
  else Double.ofRatio false digits (10 ^ (-exponent).toNat)

def exponentSign : List Char → Bool × List Char
  | '+' :: cs => (false, cs)
  | '-' :: cs => (true, cs)
  | cs => (false, cs)

/-- Reads an exponent, which is zero if there is none; it fails without digits. -/
def exponentPart : List Char → Option (Int × List Char)
  | [] => some (0, [])
  | c :: cs =>
    if c = 'e' ∨ c = 'E' then
      let (negative, cs) := exponentSign cs
      let (digits, rest) := cs.span Char.isDigit
      let n : Int := Nat.ofDigitChars 10 digits 0
      if digits.isEmpty then none else some (if negative then -n else n, rest)
    else some (0, c :: cs)

/-- The digits behind a point, where there is one. -/
def fractionPart : List Char → List Char × List Char
  | '.' :: cs => cs.span Char.isDigit
  | cs => ([], cs)

/-- Reads a numeral. A leading zero is refused, and so is a name right behind it. -/
def numeral (names : NameClass) (cs : List Char) : Option (Token × List Char) := do
  let (whole, rest) := cs.span Char.isDigit
  if whole.head? = some '0' ∧ 1 < whole.length then none
  else
    let (fraction, rest) := fractionPart rest
    let (exponent, rest) ← exponentPart rest
    if rest.head?.any fun c => names.part c then none
    else
      let digits := Nat.ofDigitChars 10 (whole ++ fraction) 0
      some (.number (decimalValue digits (exponent - fraction.length)), rest)

/-! ## Strings -/

/-- The characters that end a line. -/
def isLineEnd (c : Char) : Bool := c = '\n' || c = '\r' || c = '\u2028' || c = '\u2029'

/-- The character that a letter behind a backslash stands for. -/
def escaped? (c : Char) : Option Char :=
  if c = 'b' then some '\x08'
  else if c = 't' then some '\t'
  else if c = 'n' then some '\n'
  else if c = 'v' then some '\x0b'
  else if c = 'f' then some '\x0c'
  else if c = 'r' then some '\r'
  else if c.isDigit ∨ c = 'x' ∨ c = 'u' ∨ isLineEnd c then none
  else some c

def hexDigit? (c : Char) : Option Nat :=
  if c.isDigit then some (c.toNat - '0'.toNat)
  else if 'a' ≤ c ∧ c ≤ 'f' then some (c.toNat - 'a'.toNat + 10)
  else if 'A' ≤ c ∧ c ≤ 'F' then some (c.toNat - 'A'.toNat + 10)
  else none

/-- The character with a code that is written in hexadecimal digits. -/
def hexChar? (digits : List Char) : Option Char := do
  let values ← digits.mapM hexDigit?
  let n := values.foldl (fun n v => 16 * n + v) 0
  if n.isValidChar then some (Char.ofNat n) else none

/-- Reads a string behind its opening quote. -/
def stringRest (quote : Char) : List Char → Option (List Char × List Char)
  | [] => none
  | '\\' :: 'x' :: a :: b :: cs => do
    let c ← hexChar? [a, b]
    let (s, rest) ← stringRest quote cs
    some (c :: s, rest)
  | '\\' :: 'u' :: a :: b :: c :: d :: cs => do
    let c ← hexChar? [a, b, c, d]
    let (s, rest) ← stringRest quote cs
    some (c :: s, rest)
  | '\\' :: c :: cs => do
    let c ← escaped? c
    let (s, rest) ← stringRest quote cs
    some (c :: s, rest)
  | c :: cs =>
    if c = quote then some ([], cs)
    else if isLineEnd c ∨ c = '\\' then none
    else do
      let (s, rest) ← stringRest quote cs
      some (c :: s, rest)

/-! ## Signs -/

/-- The signs of scripts, longer ones before those that they start with. -/
def signs : List String :=
  [">>>=", "...", "===", "!==", "**=", "<<=", ">>=", ">>>", "&&=", "||=", "??=",
    "=>", "==", "!=", "<=", ">=", "&&", "||", "??", "?.", "++", "--", "+=", "-=", "*=", "/=", "%=",
    "&=", "|=", "^=", "<<", ">>", "**",
    "\x7b", "\x7d", "(", ")", "[", "]", ";", ",", "<", ">", "+", "-", "*", "/", "%", "&", "|", "^",
    "!", "~", "?", ":", "=", "."]

/-- Whether a text starts with a sign. Before a digit `?.` is not one. -/
def startsWithSign (cs : List Char) (s : String) : Bool :=
  s.toList.isPrefixOf cs && !(s == "?." && (cs.drop 2).head?.any Char.isDigit)

/-- Reads the longest sign. A comment is refused. -/
def longestSign (cs : List Char) : Option (Token × List Char) :=
  if "//".toList.isPrefixOf cs || "/*".toList.isPrefixOf cs then none
  else (signs.find? (startsWithSign cs)).map fun s => (.sign s, cs.drop s.toList.length)

/-! ## Tokens -/

/-- The characters between tokens. Line ends are not among them. -/
def isBlank (c : Char) : Bool := c = ' ' || c = '\t' || c = '\x0b' || c = '\x0c'

/-- Reads a token. -/
def token (names : NameClass) : List Char → Option (Token × List Char)
  | [] => none
  | c :: cs =>
    if names.start c then
      let (word, rest) := (c :: cs).span names.part
      some (.word (String.ofList word), rest)
    else if c.isDigit || (c = '.' && cs.head?.any Char.isDigit) then numeral names (c :: cs)
    else if c = '\x22' || c = '\x27' then do
      let (s, rest) ← stringRest c cs
      some (.string (String.ofList s), rest)
    else longestSign (c :: cs)

/-- The tokens of a text, if it has nothing else. -/
def tokens (names : NameClass) (cs : List Char) : Option (List Token) :=
  match cs.dropWhile isBlank with
  | [] => some []
  | c :: cs => do
    let (t, rest) ← token names (c :: cs)
    let ts ← (by apply tokens : NameClass → List Char → Option (List Token)) names rest
    some (t :: ts)
partial_fixpoint

end JexlScript.Script.Reading
