/-!
# Tables

Values by name. A name keeps its place when it is given a new value, and a new
name goes to the end.
-/

namespace JexlScript

/-- Values by name, in the order in which the names were first given. -/
abbrev Table (α : Type) := List (String × α)

namespace Table

variable {α : Type}

def get? (t : Table α) (name : String) : Option α := t.lookup name

def set : Table α → String → α → Table α
  | [], name, value => [(name, value)]
  | (n, v) :: t, name, value =>
    if n = name then (n, value) :: t else (n, v) :: Table.set t name value

/-- Gives several names their values, one after the other. -/
def setAll (t : Table α) (entries : List (String × α)) : Table α :=
  entries.foldl (fun t (name, value) => Table.set t name value) t

def remove (t : Table α) (name : String) : Table α := t.filter fun (n, _) => n != name

def names (t : Table α) : List String := t.map Prod.fst

end Table

end JexlScript
