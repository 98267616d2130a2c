import JexlScript.Inline.Callable
import JexlScript.Text.Quoted

/-!
# What lowering reports

Beside its result, the lowering of a formula keeps the equalities that it made
strict and the decisions that it took.
-/

namespace JexlScript

inductive Event where
  | destructured (names : List String)
  | unresolved (pool name : String)
  | plainCall (pool name strategy : String)
  | notInlined (why : Inline.Obstacle)
deriving DecidableEq, Repr

def Event.text : Event → String
  | .destructured names => "Relative filter destructures " ++ Text.quotedList names
  | .unresolved pool name => "No implementation for " ++ pool ++ " " ++ Text.quoted name
  | .plainCall pool name strategy =>
    "Emitting plain call to " ++ pool ++ " " ++ Text.quoted name ++ " (" ++ strategy ++ ")"
  | .notInlined why => why.text

structure Journal where
  looseEqualities : List String
  events : List Event

namespace Journal

def empty : Journal := ⟨[], []⟩

def noteEquality (j : Journal) (op : String) : Journal :=
  { j with looseEqualities := Names.add j.looseEqualities op }

def noteEvent (j : Journal) (event : Event) : Journal :=
  { j with events := j.events ++ [event] }

end Journal

end JexlScript
