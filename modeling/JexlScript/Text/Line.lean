/-!
# Lines

The lines of a file are ended by line feeds alone. It is cut after each of them, and the
last line need not have one.
-/

namespace JexlScript.Text

def fileLines : List Char → List (List Char)
  | [] => []
  | '\n' :: cs => ['\n'] :: fileLines cs
  | c :: cs =>
    match fileLines cs with
    | [] => [[c]]
    | line :: lines => (c :: line) :: lines

end JexlScript.Text
