import JexlScript.Formula.Basic
import JexlScript.Lowering.Operator
import Mathlib.Tactic.SplitIfs

/-!
# Values of formulas and of scripts

A `Domain` says what values are and what is done with them: reading a property,
telling whether a value holds, the operators, and the calls of methods. It is
shared by the two evaluators. That of formulas keeps the element at which the
innermost relative filter looks, from which relative names are read. That of
scripts knows nothing of elements: it reads every name where its scope has it,
and a function's parameters take names out of what the function is called with.

Both may fail, and an evaluator that fails says nothing of a value: a formula
fails when a relative filter is applied to something that has no elements, a
script when it is of a form that no formula is lowered to.
-/

namespace JexlScript

variable {V : Type}

/-! ## Domains -/

/-- What a method is called with: a value or a function, which may fail. -/
inductive Argument (V : Type) where
  | value (v : V)
  /-- A function of the values that it is called with. -/
  | function (body : List V → Option V)

/-- The values that pass a test, which may fail. -/
def keep (test : V → Option Bool) : List V → Option (List V)
  | [] => some []
  | x :: xs => do
    let holds ← test x
    let others ← keep test xs
    some (if holds then x :: others else others)

/-- What values are and what can be done with them. -/
structure Domain (V : Type) where
  undefined : V
  literal : Scalar → V
  array : List V → V
  object : List (String × V) → V
  /-- The property of a value at a key. Every value has one. -/
  get : V → V → V
  /-- Whether a value holds as a condition. -/
  truthy : V → Bool
  unary : String → V → V
  binary : String → V → V → V
  /-- The operators of truth values, which need not look at the outcome of their
  right operand. -/
  logical : String → V → Option V → Option V
  /-- The elements of a value that is an array. -/
  elements? : V → Option (List V)
  invoke : V → String → List (Argument V) → Option V
  /-- What is settled while the right operand fails is settled. -/
  logical_settled : ∀ {op x v}, logical op x none = some v → ∀ y, logical op x (some y) = some v
  /-- The method `filter` of an array keeps the elements at which a function
  holds. -/
  invoke_filter : ∀ {v items}, elements? v = some items → ∀ body : List V → Option V,
    invoke v "filter" [.function body] =
      (keep (fun x => (body [x]).map truthy) items).map array

namespace Domain

variable (D : Domain V)

/-- Reads a property by its name. -/
def field (v : V) (name : String) : V := D.get v (D.literal (.text name))

/-- What an operator of a formula does, with `Math` for the rounding of `//`. The right operand is
only evaluated where it is needed. -/
def operation (math : V) (op : String) (left right : Option V) : Option V :=
  left.bind fun x =>
    if logicalOps.contains op then D.logical op x right
    else right.bind fun y =>
      if op = "==" then some (D.binary "===" x y)
      else if op = "!=" then some (D.binary "!==" x y)
      else if op = "^" then some (D.binary "**" x y)
      else if op = "//" then D.invoke math "floor" [.value (D.binary "/" x y)]
      else if op = "in" then D.invoke y "includes" [.value x]
      else some (D.binary op x y)

/-- A scope in which a parameter has a value; a pattern takes names out of it. -/
def bindParam (scope : String → V) (v : V) : Script.Param → String → V
  | .name n => fun name => if name = n then v else scope name
  | .pattern names => fun name => if name ∈ names then D.field v name else scope name

/-- A scope in which parameters have values, and `undefined` where there are too few. -/
def bindParams (scope : String → V) : List Script.Param → List V → String → V
  | [], _ => scope
  | p :: ps, vs => bindParams (D.bindParam scope (vs.headD D.undefined) p) ps vs.tail

end Domain

/-! ## Plain data -/

/-- Values that are written out in full. -/
inductive Datum where
  | undefined
  | scalar (value : Scalar)
  | array (items : List Datum)
  | object (entries : List (String × Datum))

namespace Datum

/-- Reads a property of an object. -/
def get : Datum → Datum → Datum
  | .object entries, .scalar (.text name) => (entries.lookup name).getD .undefined
  | _, _ => .undefined

/-- Only what is missing, null or false does not hold. -/
def truthy : Datum → Bool
  | .undefined | .scalar .null | .scalar (.bool false) => false
  | _ => true

/-- Strict equality of scalars. Objects are never the same here. -/
def isSame : Datum → Datum → Bool
  | .scalar a, .scalar b => a == b
  | _, _ => false

/-- Data as values, with no more operations than the examples need. -/
def domain : Domain Datum where
  undefined := .undefined
  literal := .scalar
  array := .array
  object := .object
  get := get
  truthy := truthy
  unary _ v := .scalar (.bool !v.truthy)
  binary op x y := if op = "===" then .scalar (.bool (isSame x y)) else .undefined
  logical op x right := if x.truthy = (op == "&&") then right else some x
  elements?
    | .array items => some items
    | _ => none
  invoke
    | .array items, "filter", [.function body] =>
      (keep (fun x => (body [x]).map truthy) items).map .array
    | _, _, _ => none
  logical_settled := by
    intro op x v settled y
    split_ifs at settled ⊢
    exact settled
  invoke_filter := by
    intro v items elements body
    cases v with
    | array _ =>
      cases elements
      rfl
    | _ => cases elements

end Datum

/-! ## Formulas -/

namespace Formula

mutual

/-- The value of a formula, given the values of names and the element that the
innermost relative filter looks at. The quotient of `//` is rounded by the method
`floor` of what the environment has under the name `Math`, as the script rounds it:
where a formula has a `Math` of its own, its `//` calls that one. -/
def eval (D : Domain V) (env : String → V) : Formula → (element : Option V) → Option V
  | .literal value, _ => some (D.literal value)
  | .root name false, _ => some (env name)
  | .root name true, element => element.map (D.field · name)
  | .field parent name _, element => (parent.eval D env element).map (D.field · name)
  | .unary op e, element => (e.eval D env element).map (D.unary op)
  | .binary op l r, element =>
    D.operation (env "Math") op (l.eval D env element) (r.eval D env element)
  | .conditional t c a, element => do
    let test ← t.eval D env element
    if D.truthy test then c.eval D env element else a.eval D env element
  | .array es, element => (evalList D env es element).map D.array
  | .object ps, element => (evalEntries D env ps element).map D.object
  | .filter s e false, element => do
    let subject ← s.eval D env element
    let index ← e.eval D env element
    some (D.get subject index)
  | .filter s e true, element => do
    let subject ← s.eval D env element
    let items ← D.elements? subject
    let kept ← keep (fun x => (e.eval D env (some x)).map D.truthy) items
    some (D.array kept)
  | .call _ _ _, _ => none
  | .stray _, _ => none

def evalList (D : Domain V) (env : String → V) :
    List Formula → (element : Option V) → Option (List V)
  | [], _ => some []
  | f :: fs, element => do
    let v ← f.eval D env element
    let vs ← evalList D env fs element
    some (v :: vs)

def evalEntries (D : Domain V) (env : String → V) :
    List (String × Formula) → (element : Option V) → Option (List (String × V))
  | [], _ => some []
  | (key, f) :: fs, element => do
    let v ← f.eval D env element
    let vs ← evalEntries D env fs element
    some ((key, v) :: vs)

end

attribute [simp] eval evalList evalEntries

end Formula

/-! ## Scripts -/

namespace Script

mutual

/-- The value of a script in a scope. A function has none, and can only be
passed to a method. -/
def Expr.eval (D : Domain V) : Expr → (scope : String → V) → Option V
  | .ident name, scope => some (scope name)
  | .lit value, _ => some (D.literal value)
  | .undefined, _ => some D.undefined
  | .array es, scope => (evalExprs D es scope).map D.array
  | .object ps, scope => (evalProps D ps scope).map D.object
  | .member obj (.ident name) false false, scope => (obj.eval D scope).map (D.field · name)
  | .member obj index true false, scope => do
    let v ← obj.eval D scope
    let key ← index.eval D scope
    some (D.get v key)
  | .call (.member obj (.ident method) false false) args, scope => do
    let v ← obj.eval D scope
    let given ← evalArguments D args scope
    D.invoke v method given
  | .unary op e, scope => (e.eval D scope).map (D.unary op)
  | .binary l op r, scope => do
    let x ← l.eval D scope
    let y ← r.eval D scope
    some (D.binary op x y)
  | .logical l op r, scope => do
    let x ← l.eval D scope
    D.logical op x (r.eval D scope)
  | .ternary c y n, scope => do
    let test ← c.eval D scope
    if D.truthy test then y.eval D scope else n.eval D scope
  | _, _ => none

def evalExprs (D : Domain V) : List Expr → (scope : String → V) → Option (List V)
  | [], _ => some []
  | e :: es, scope => do
    let v ← e.eval D scope
    let vs ← evalExprs D es scope
    some (v :: vs)

def evalProps (D : Domain V) :
    List (String × Expr) → (scope : String → V) → Option (List (String × V))
  | [], _ => some []
  | (key, e) :: ps, scope => do
    let v ← e.eval D scope
    let vs ← evalProps D ps scope
    some ((key, v) :: vs)

/-- Arguments of a call, where an arrow is a function of the values it is called with. -/
def evalArguments (D : Domain V) : List Expr → (scope : String → V) → Option (List (Argument V))
  | [], _ => some []
  | .arrow params body :: es, scope => do
    let others ← evalArguments D es scope
    some (.function (fun vs => body.eval D (D.bindParams scope params vs)) :: others)
  | e :: es, scope => do
    let v ← e.eval D scope
    let others ← evalArguments D es scope
    some (.value v :: others)

end

attribute [simp] Expr.eval evalExprs evalProps evalArguments

end Script

end JexlScript
