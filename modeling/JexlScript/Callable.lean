/-!
# Callables

What a grammar registers for an operator, a transform or a function. Only the
name and the source text matter here: a callable is never run, it is read.
-/

namespace JexlScript

/-- A function with its name and, where it can be had, its source text. -/
structure Callable where
  name : String
  source : Option String
deriving DecidableEq, Repr

/-- A function of the runtime, which has no source text. -/
def Callable.native (name : String) : Callable := ⟨name, none⟩

end JexlScript
