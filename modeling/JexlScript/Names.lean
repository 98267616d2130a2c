/-!
# Lists of names

Names are collected in the order in which they are first met, each once.
-/

namespace JexlScript.Names

def add (names : List String) (name : String) : List String :=
  if names.contains name then names else names ++ [name]

def distinct (names : List String) : List String := names.foldl add []

def insertSorted (name : String) : List String → List String
  | [] => [name]
  | n :: ns =>
    if name = n then n :: ns
    else if name < n then name :: n :: ns
    else n :: insertSorted name ns

def sorted (names : List String) : List String := names.foldr insertSorted []

end JexlScript.Names
