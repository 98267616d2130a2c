import JexlScript.Routine.Error
import JexlScript.Table

/-!
# Fitting arguments to parameters

Arguments by position go to the parameters from left to right, those by name to
the parameter of that name. What does not fit is told by the first parameter,
and then the first name, that is in the way.
-/

namespace JexlScript.Routine

structure Signature where
  /-- Those that take an argument by position or by name, and whether they need
  one. -/
  params : List (String × Bool)
  rest : Bool
  named : List String

/-- The arguments of a call, each at its parameter. -/
structure Bound (α : Type) where
  args : Table α
  rest : List α

variable {α : Type}

/-- Gives each parameter its argument by position, as far as these go. -/
def bindPositional (rest : Bool) (keywords : Table α) :
    List (String × Bool) → List α → Except BindError (Bound α × List (String × Bool))
  | params, [] => .ok (⟨[], []⟩, params)
  | [], arg :: args => if rest then .ok (⟨[], arg :: args⟩, []) else .error .tooMany
  | (param, _) :: params, arg :: args =>
    if (keywords.get? param).isSome then .error (.multiple param)
    else do
      let (bound, left) ← bindPositional rest keywords params args
      .ok ({ bound with args := (param, arg) :: bound.args }, left)

/-- Gives the parameters without an argument by position those by name. -/
def bindNamed (keywords : Table α) : List (String × Bool) → Except BindError (Table α)
  | [] => .ok []
  | (param, required) :: params =>
    match keywords.get? param with
    | some arg => do
      let others ← bindNamed keywords params
      .ok ((param, arg) :: others)
    | none => if required then .error (.missing param) else bindNamed keywords params

/-- The name of the argument that every call comes with, beside those that are
written. -/
def contextName : String := "ctx"

/-- Fits the arguments of a call to the parameters. -/
def Signature.bind (sig : Signature) (args : List α) (keywords : List (String × α)) :
    Except BindError (Bound α) := do
  let keywords := Table.setAll [] keywords
  if (keywords.get? contextName).isSome then .error (.repeated contextName)
  let (bound, left) ← bindPositional sig.rest keywords sig.params args
  let named ← bindNamed keywords (left ++ sig.named.map fun n => (n, false))
  let known := sig.params.map Prod.fst ++ sig.named
  match keywords.names.find? fun n => !known.contains n with
  | some n => .error (.unexpected n)
  | none => .ok { bound with args := bound.args ++ named }

end JexlScript.Routine
