import JexlScript.Text.Hex

/-!
# Sets of code points

Character classes that go beyond ASCII are given as ascending ranges of code
points.
-/

namespace JexlScript.Text

abbrev CodePoints := List (Nat × Nat)

/-- The runs of code points that lines of letters and digits describe: behind its letter, each
has the number of its code points after the first, in hexadecimal, where there are any. -/
def runsOf (lines : List String) : List (Char × Nat) :=
  let add (runs : List (Char × Nat)) (c : Char) : List (Char × Nat) :=
    match isHexDigit c, runs with
    | true, (kind, more) :: runs => (kind, 16 * more + hexValue c) :: runs
    | _, runs => (c, 0) :: runs
  ((lines.flatMap String.toList).foldl add []).reverse

def CodePoints.ofRuns (kind : Char) : (start : Nat) → List (Char × Nat) → CodePoints
  | _, [] => []
  | start, (k, more) :: runs =>
    let rest := ofRuns kind (start + more + 1) runs
    if k = kind then (start, start + more) :: rest else rest

def CodePoints.contains (ranges : CodePoints) (c : Char) : Bool :=
  List.any ranges fun (low, high) => low ≤ c.toNat && c.toNat ≤ high

end JexlScript.Text
