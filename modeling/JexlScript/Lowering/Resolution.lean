import JexlScript.Formula.Grammar

/-!
# Finding implementations

A name is looked up with one strategy after the other, and the first that knows
it answers. Usually these are the overrides of a caller and then the grammar.
-/

namespace JexlScript

inductive Kind where
  | transforms
  | functions
  | binaryOp
  | unaryOp
deriving DecidableEq, Repr

def Kind.ofText? (text : String) : Option Kind :=
  if text = "transforms" then some .transforms
  else if text = "functions" then some .functions
  else if text = "binaryOp" then some .binaryOp
  else if text = "unaryOp" then some .unaryOp
  else none

structure Strategy (κ ι : Type) where
  name : String
  lookup : κ → String → Option ι

/-- The implementation of the first strategy that knows one, with the name of
the strategy. -/
def resolve {κ ι : Type} (strategies : List (Strategy κ ι)) (kind : κ) (name : String) :
    Option (ι × String) :=
  strategies.findSome? fun s => (s.lookup kind name).map fun impl => (impl, s.name)

/-- Implementations by kind, which go before those of a grammar. -/
structure Overrides (ι : Type) where
  transforms : Table ι
  functions : Table ι
  binaryOps : Table ι
  unaryOps : Table ι

variable {ι : Type}

def Overrides.none : Overrides ι := ⟨[], [], [], []⟩

def Overrides.table (o : Overrides ι) : Kind → Table ι
  | .transforms => o.transforms
  | .functions => o.functions
  | .binaryOp => o.binaryOps
  | .unaryOp => o.unaryOps

def Overrides.strategy (o : Overrides ι) : Strategy Kind ι :=
  ⟨"override", fun kind name => (o.table kind).get? name⟩

def Grammar.implementation? (g : Grammar ι) : Kind → String → Option ι
  | .transforms, name => g.transforms.get? name
  | .functions, name => g.functions.get? name
  | .binaryOp, name => (g.lookup? name .binaryOp).bind (·.implementation)
  | .unaryOp, name => (g.lookup? name .unaryOp).bind (·.implementation)

def Grammar.strategy (g : Grammar ι) : Strategy Kind ι := ⟨"grammar", g.implementation?⟩

def usualStrategies (g : Grammar ι) (o : Overrides ι) : List (Strategy Kind ι) :=
  [o.strategy, g.strategy]

end JexlScript
