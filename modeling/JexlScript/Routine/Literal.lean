import JexlScript.Routine.Syntax
import JexlScript.Text.Quoted

/-!
# The text of a literal

How literals are written anew. A string inside a formatted string is written
without backslashes as far as that can be done, by a choice among four kinds of
quotes.
-/

namespace JexlScript.Routine

open Text (Points)

/-! ## Numbers -/

/-- The text of a double. There is no literal for what is not finite, but one
too large for a double. -/
def doubleSpelling (pointed : Bool) (d : Double) : List Char :=
  match d.shape with
  | .nan => "(1e309-1e309)".toList
  | .infinite negative => (if negative then "-1e309" else "1e309").toList
  | .finite negative significand exponent => finiteSpelling pointed negative significand exponent

/-- The text of an integer; one of more than 4300 digits has none. -/
def intSpelling? (n : Int) : Option (List Char) :=
  let digits := intDigits n
  if 4300 < (Nat.toDigits 10 n.natAbs).length then none else some digits

/-! ## Strings -/

def allQuotes : List (List Char) := ["'".toList, "\"".toList, "\"\"\"".toList, "'''".toList]

def holds (part : List Char) : List Char → Bool
  | [] => part.isEmpty
  | c :: cs => part.isPrefixOf (c :: cs) || holds part cs

/-- A code point as it is written whatever the quotes; line ends and tabs are
escaped where that is asked for. -/
def writtenPoint (escapeLayout : Bool) (n : Nat) : List Char :=
  match Text.charAt? n with
  | some c =>
    if !escapeLayout && (c = '\n' || c = '\t') then [c]
    else if c = '\\' then ['\\', '\\']
    else if Text.isPrintable c then [c]
    else Text.escapePoint n
  | none => Text.escapePoint n

/-- The given quotes without those that a text ends in, and after them those. A
quote right after the text would be read as part of it. -/
def quotesByEnd (text : List Char) (quotes : List (List Char)) : List (List Char) :=
  match text.getLast? with
  | some c =>
    quotes.filter (fun q => q.head? ≠ some c) ++ quotes.filter fun q => q.head? = some c
  | none => quotes

/-- A text written with one of the given quotes, and the quotes that it can
stand between, the best one first. Single quotes do not go over a line end. If
none will do, quotes are escaped. -/
def writtenBetween (quotes : List (List Char)) (escapeLayout : Bool) (ps : Points) :
    List Char × List (List Char) :=
  let text := ps.flatMap (writtenPoint escapeLayout)
  let fitting := quotes.filter fun q =>
    (q.length = 3 || !text.contains '\n') && !holds q text
  match quotesByEnd text fitting with
  | [] =>
    let escaped := Text.quotedPoints ps
    let quote := Text.quoteFor ps.chars
    ((escaped.drop 1).dropLast, [(quotes.find? (·.contains quote)).getD [quote]])
  | best :: others =>
    let text :=
      match text.getLast? with
      | some c => if best.head? = some c then text.dropLast ++ ['\\', c] else text
      | none => text
    (text, best :: others)

def plainestString (ps : Points) : List Char :=
  let (text, quotes) := writtenBetween allQuotes false ps
  quotes.headD [] ++ text ++ quotes.headD []

/-- Writes texts one after the other, each with the quotes that do for those
before it, and gives the quotes that do for all. Each text comes with whether its
line ends and tabs are escaped. -/
def writtenTogether? :
    List (List Char) → List (Points × Bool) → Option (List Char × List (List Char))
  | quotes, [] => some ([], quotes)
  | quotes, (ps, escapeLayout) :: rest =>
    let (text, fitting) := writtenBetween quotes escapeLayout ps
    if fitting.all fun q => !quotes.contains q then none
    else do
      let (others, final) ← writtenTogether? fitting rest
      some (text ++ others, final)

/-- Texts as one string: between quotes that do for all of them or, failing that,
between three apostrophes, with every apostrophe escaped. -/
def stringOfTexts (texts : List (Points × Bool)) : List Char :=
  match writtenTogether? allQuotes texts with
  | some (text, quotes) => quotes.headD [] ++ text ++ quotes.headD []
  | none =>
    let quotes := "'''".toList
    quotes ++ texts.flatMap (fun (ps, _) => ps.flatMap (Text.escapePointBetween '\x27')) ++ quotes

/-- The text of a literal, which may stand inside a formatted string. -/
def Constant.spelling? (inside : Bool) : Constant → Option (List Char)
  | .none => some "None".toList
  | .bool b => some (if b then "True" else "False").toList
  | .int n => intSpelling? n
  | .double d => some (doubleSpelling true d)
  | .imaginary d => some (doubleSpelling false d ++ ['j'])
  | .text ps marked =>
    some ((if marked then ['u'] else []) ++
      if inside then plainestString ps else Text.quotedPoints ps)
  | .bytes values => some ('b' :: Text.quotedBytes values)
  | .ellipsis => some "...".toList

end JexlScript.Routine
