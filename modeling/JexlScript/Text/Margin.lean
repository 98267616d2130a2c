/-!
# Common margins

Source text is often indented as a whole. `dedent` removes the leading blanks
that all its lines share; lines without content have no say and become empty.
-/

namespace JexlScript.Text

def splitLines : List Char → List (List Char)
  | [] => [[]]
  | c :: cs =>
    if c = '\n' then [] :: splitLines cs
    else
      match splitLines cs with
      | [] => [[c]]
      | line :: lines => (c :: line) :: lines

def joinLines : List (List Char) → List Char
  | [] => []
  | [line] => line
  | line :: lines => line ++ '\n' :: joinLines lines

def isIndent (c : Char) : Bool := c = ' ' || c = '\t'

def commonStart : List Char → List Char → List Char
  | a :: as, b :: bs => if a = b then a :: commonStart as bs else []
  | _, _ => []

/-- The leading blanks shared by all lines with content; none when there is no
such line. -/
def margin (lines : List (List Char)) : List Char :=
  match (lines.filter (!·.all isIndent)).map (·.takeWhile isIndent) with
  | [] => []
  | first :: others => others.foldl commonStart first

def dedent (text : List Char) : List Char :=
  let lines := splitLines text
  let shared := (margin lines).length
  joinLines (lines.map fun line => if line.all isIndent then [] else line.drop shared)

end JexlScript.Text
