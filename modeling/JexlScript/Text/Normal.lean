import JexlScript.Text.Normal.Table

/-!
# The normal form of a text

The same name can be written in several ways: in wide letters or in those of
formulas, with ligatures, with marks joined to their letters or apart from
them. In the normal form every character is expanded into the plain ones it
stands for, the marks after a letter are ordered by their classes, and letters
are joined with their marks again.
-/

namespace JexlScript.Text

/-! ## Korean syllables -/

def firstSyllable : Nat := 0xac00

def isSyllable (n : Nat) : Bool := firstSyllable ≤ n && n < firstSyllable + 11172

/-- The letters of a syllable: an initial, a vowel and, unless it is missing, a
final. -/
def syllableLetters (n : Nat) : List Nat :=
  let place := n - firstSyllable
  let opening := 0x1100 + place / 588
  let vowel := 0x1161 + place % 588 / 28
  if place % 28 = 0 then [opening, vowel] else [opening, vowel, 0x11a7 + place % 28]

/-- The syllable that two characters make: an initial with a vowel, or a
syllable without a final with one. -/
def joinedSyllable? (a b : Nat) : Option Nat :=
  if 0x1100 ≤ a && a < 0x1113 && 0x1161 ≤ b && b < 0x1176 then
    some (firstSyllable + ((a - 0x1100) * 21 + (b - 0x1161)) * 28)
  else if isSyllable a && (a - firstSyllable) % 28 = 0 && 0x11a7 < b && b < 0x11c3 then
    some (a + (b - 0x11a7))
  else none

/-! ## Expansion -/

/-- What characters stand for: the first of a run of characters, the length of
the run, and the characters that the first one stands for. -/
def expansions : List (List Nat) := rowsFrom 0 expansionRows

def expansion (n : Nat) : List Nat :=
  if n < 0xa0 then [n]
  else if isSyllable n then syllableLetters n
  else
    match expansions.find? fun row => row.headD 0 ≤ n && n < row.headD 0 + (row.getD 1 0) with
    | some [start, _, target] => [target + (n - start)]
    | some (_ :: _ :: targets) => targets
    | _ => [n]

/-! ## Order of marks -/

def markClasses : List (List Nat) := markClassRows.map rowNumbers

def markClass (n : Nat) : Nat :=
  if n < 0x300 then 0
  else
    match markClasses.find? fun row => row.headD 0 ≤ n && n ≤ row.getD 1 0 with
    | some row => row.getD 2 0
    | none => 0

/-- Puts a code point before others whose marks are in order; it goes past the
marks of lower classes. -/
def insertMark (n : Nat) : List Nat → List Nat
  | [] => [n]
  | m :: ms =>
    if markClass m ≠ 0 && markClass m < markClass n then m :: insertMark n ms else n :: m :: ms

/-- Puts the marks after each letter in order; marks of one class stay as they
are. -/
def orderMarks (ns : List Nat) : List Nat := ns.foldr insertMark []

/-! ## Joining -/

/-- Which characters join: the character that is made, one, and the two
characters that make it. -/
def junctions : List (List Nat) := rowsFrom 0 junctionRows

def joined? (a b : Nat) : Option Nat :=
  match joinedSyllable? a b with
  | some n => some n
  | none => (junctions.find? fun row => row.drop 2 = [a, b]).bind List.head?

/-- Joins a letter with what follows, where some marks stand between that do not
join. A mark reaches the letter past those of lower classes. -/
def joinFrom (letter : Nat) (between : List Nat) : List Nat → List Nat
  | [] => letter :: between
  | n :: ns =>
    let reaches : Bool :=
      match between.getLast? with
      | some m => markClass m < markClass n
      | none => true
    match if reaches then joined? letter n else none with
    | some made => joinFrom made between ns
    | none =>
      if markClass n = 0 then letter :: between ++ joinFrom n [] ns
      else joinFrom letter (between ++ [n]) ns

def joinMarks : List Nat → List Nat
  | [] => []
  | n :: ns => if markClass n = 0 then joinFrom n [] ns else n :: joinMarks ns

def normalForm (cs : List Char) : List Char :=
  if cs.all fun c => c.toNat < 0x80 then cs
  else
    (joinMarks (orderMarks (cs.flatMap fun c => expansion c.toNat))).map Char.ofNat

end JexlScript.Text
