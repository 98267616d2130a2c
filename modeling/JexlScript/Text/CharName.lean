import JexlScript.Text.CharName.Table
import JexlScript.Text.CodePoints

/-!
# Characters by name

Finds a character by its name in the Unicode standard. Capitals and small
letters are the same in a name that is listed; a name that is made by a rule is
taken as it is written.
-/

namespace JexlScript.Text

/-! ## Listed names -/

/-- Finds a name, given by its words, among those of characters that follow one
another; `previous` is the name before them. -/
def findName (name : List String) :
    (code : Nat) → (previous : List String) → List (List Char) → Option Nat
  | code, previous, ('+' :: digits) :: entries =>
    findName name (code + digitsIn 16 digits) previous entries
  | code, previous, (shared :: rest) :: entries =>
    let words := previous.take (hexValue shared) ++ (String.ofList rest).splitOn " "
    if words = name then some code else findName name (code + 1) words entries
  | _, _, _ => none

def listedName? (name : String) : Option Nat :=
  match furtherNames.find? fun row => row.2 = name with
  | some row => some row.1
  | none => findName (name.splitOn " ") 0 [] nameEntries

/-! ## Names by rule -/

def afterStart? (start : String) (cs : List Char) : Option (List Char) :=
  if start.toList.isPrefixOf cs then some (cs.drop start.length) else none

/-- The number that stands for a character in its name: four or five
hexadecimal digits in capitals. -/
def codeInName? (cs : List Char) : Option Nat :=
  if (cs.length = 4 || cs.length = 5) && cs.all fun c => c.isDigit || ('A' ≤ c && c ≤ 'F') then
    some (digitsIn 16 cs)
  else none

/-- The characters whose names end in their numbers, apart from the unified
ideographs. -/
def numberedNames : List (String × CodePoints) :=
  [("CJK COMPATIBILITY IDEOGRAPH-", [(0xf900, 0xfa6d), (0xfa70, 0xfad9), (0x2f800, 0x2fa1d)]),
    ("KHITAN SMALL SCRIPT CHARACTER-", [(0x18b00, 0x18cd5)]),
    ("NUSHU CHARACTER-", [(0x1b170, 0x1b2fb)])]

/-- The code point of a name that ends in its number, without leading zeros
beyond four digits. -/
def numberedName? (cs : List Char) : Option Nat :=
  numberedNames.findSome? fun (start, ranges) => do
    let digits ← afterStart? start cs
    let n ← codeInName? digits
    if (digits.length = 4 || 0x10000 ≤ n) && ranges.contains (Char.ofNat n) then some n else none

def selectorName? (cs : List Char) : Option Nat := do
  let digits ← afterStart? "VS" cs
  if digits.isEmpty || digits.head? = some '0' || !digits.all Char.isDigit then none
  else
    let n := digitsIn 10 digits
    if n ≤ 16 then some (0xfe00 + (n - 1))
    else if n ≤ 256 then some (0xe0100 + (n - 17))
    else none

def ideographs : CodePoints :=
  [(0x3400, 0x4dbf), (0x4e00, 0x9fff), (0x20000, 0x2a6df), (0x2a700, 0x2b739),
    (0x2b740, 0x2b81d), (0x2b820, 0x2cea1), (0x2ceb0, 0x2ebe0), (0x30000, 0x3134a),
    (0x31350, 0x323af)]

def ideograph? (digits : List Char) : Option Nat := do
  let n ← codeInName? digits
  if ideographs.contains (Char.ofNat n) then some n else none

/-! ## Korean syllables -/

def initialNames : List String :=
  ["G", "GG", "N", "D", "DD", "R", "M", "B", "BB", "S", "SS", "", "J", "JJ", "C", "K", "T", "P",
    "H"]

def vowelNames : List String :=
  ["A", "AE", "YA", "YAE", "EO", "E", "YEO", "YE", "O", "WA", "WAE", "OE", "YO", "U", "WEO", "WE",
    "WI", "YU", "EU", "YI", "I"]

def finalNames : List String :=
  ["", "G", "GG", "GS", "N", "NJ", "NH", "D", "L", "LG", "LM", "LB", "LS", "LT", "LP", "LH", "M",
    "B", "BS", "S", "SS", "NG", "J", "C", "K", "T", "P", "H"]

/-- The place of the longest name that a text starts with, and what follows
it. -/
def longestName? (names : List String) (cs : List Char) : Option (Nat × List Char) :=
  let found := names.zipIdx.filter fun (name, _) => name.toList.isPrefixOf cs
  (found.foldl
    (fun best (name, place) =>
      match best with
      | some (other, _) => if other.length < name.length then some (name, place) else best
      | none => some (name, place))
    (none : Option (String × Nat))).map fun (name, place) => (place, cs.drop name.length)

def syllable? (cs : List Char) : Option Nat := do
  let (opening, cs) ← longestName? initialNames cs
  let (vowel, cs) ← longestName? vowelNames cs
  let (closing, cs) ← longestName? finalNames cs
  if cs.isEmpty then some (0xac00 + (opening * 21 + vowel) * 28 + closing) else none

/-! ## All names -/

def codeNamed? (name : List Char) : Option Nat :=
  match afterStart? "HANGUL SYLLABLE " name with
  | some letters => syllable? letters
  | none =>
    match afterStart? "CJK UNIFIED IDEOGRAPH-" name with
    | some digits => ideograph? digits
    | none =>
      let capitals := name.map Char.toUpper
      match numberedName? capitals with
      | some n => some n
      | none =>
        match selectorName? capitals with
        | some n => some n
        | none => listedName? (String.ofList capitals)

end JexlScript.Text
