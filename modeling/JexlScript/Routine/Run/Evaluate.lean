import JexlScript.Routine.Run.Call

/-!
# Expressions

What names and expressions stand for, and how targets are given values. A
comprehension is a generator that is gone over at once, except where it is an
iterator itself.
-/

namespace JexlScript.Routine

open Run

/-! ## Comprehensions as statements -/

def whereAll (conditions : List Expr) (body : List Stmt) : List Stmt :=
  conditions.foldr (fun c body => [.cond c body []]) body

/-- The statements of the loops of a comprehension after the first, which yield
its elements. -/
def loopsYielding (element : Expr) : List Generator → List Stmt
  | [] => [.expr (.yield (some element))]
  | .mk target iterable conditions isAsync :: rest =>
    [.loop isAsync target iterable (whereAll conditions (loopsYielding element rest)) []]

namespace Machine

variable (m : Machine)

/-! ## Names -/

def lookup (scope : Scope) (name : String) : Run Datum := do
  let frames := if scope.globals.contains name then [moduleFrame]
    else scope.frame :: scope.around ++ [moduleFrame]
  match ← namedIn? name frames with
  | some value => pure value
  | none =>
    if name = "__name__" then pure (.text "module")
    else if isStandard name then pure (.standard name)
    -- after everything has been imported from a module, any name may have come from it
    else if (← named? moduleFrame "*").isSome then pure .unknown
    else raise "NameError"

def giveScoped (scope : Scope) (name : String) (value : Datum) : Run Unit := do
  giveName (← frameFor scope name) name value

/-! ## Targets -/

/-- The members of a datum for a number of targets, of which one may take up
several. -/
def membersFor (d : Datum) (targets : List Expr) : Run (List Datum) := do
  let isStar : Expr → Bool := fun
    | .starred _ => true
    | _ => false
  if d.isForeign then pure (List.replicate targets.length .unknown)
  else
    let members ← m.members d
    let fits := if targets.any isStar then targets.length ≤ members.length + 1
      else targets.length = members.length
    if fits then pure members else raise "ValueError"

mutual

def give (scope : Scope) (value : Datum) : Expr → Run Unit
  | .name id => giveScoped scope id value
  | .tuple targets | .list targets => do
    giveAll scope (← m.membersFor value targets) targets
  | .starred target => give scope value target
  | .subscript base index => do
    let b ← m.value scope base
    let key ← m.value scope index
    m.giveElement b key value
  | .attribute base name => do
    let b ← m.value scope base
    m.giveAttribute b name value
  | _ => pure ()

/-- Gives targets their values, of which a starred one takes up all that the
others leave. -/
def giveAll (scope : Scope) (values : List Datum) : List Expr → Run Unit
  | [] => pure ()
  | .starred target :: targets => do
    let count := values.length - targets.length
    let taken ← makeList (values.take count)
    give scope taken target
    giveAll scope (values.drop count) targets
  | target :: targets => do
    give scope (values.headD .unknown) target
    giveAll scope values.tail targets

end

def drop (scope : Scope) : Expr → Run Unit
  | .name id => do
    let frame ← frameFor scope id
    if (← named? frame id).isSome then changeEntries frame (withoutEntry (.text id))
    else raise "NameError"
  | .subscript base index => do
    let b ← m.value scope base
    let key ← m.value scope index
    m.dropElement b key
  | .attribute base name => do
    let b ← m.value scope base
    dropAttribute b name
  | _ => pure ()

/-! ## Several expressions -/

def listed (scope : Scope) : List Expr → Run (List Datum)
  | [] => pure []
  | .starred e :: es => do
    let d ← m.value scope e
    let first ← m.members d
    let others ← listed scope es
    pure (first ++ others)
  | e :: es => do
    let first ← m.value scope e
    let others ← listed scope es
    pure (first :: others)

def keywords (scope : Scope) : List (Option String × Expr) → Run (List (String × Datum))
  | [] => pure []
  | (some name, e) :: rest => do
    let first ← m.value scope e
    let others ← keywords scope rest
    pure ((name, first) :: others)
  | (none, e) :: rest => do
    let d ← m.value scope e
    let entries ← if d.isForeign then pure [] else m.entriesFrom [d] []
    let others ← keywords scope rest
    pure (entries.filterMap (fun (k, v) => k.text?.map (·, v)) ++ others)

def entered (scope : Scope) : List Entry → Run (List (Datum × Datum))
  | [] => pure []
  | .pair key value :: rest => do
    let k ← m.value scope key
    let v ← m.value scope value
    let others ← entered scope rest
    pure ((k, v) :: others)
  | .spread e :: rest => do
    let d ← m.value scope e
    let entries ← if d.isForeign then pure [] else m.entriesFrom [d] []
    let others ← entered scope rest
    pure (entries ++ others)

def connected (scope : Scope) (op : BoolOp) : List Expr → Run Datum
  | [] => pure .unknown
  | [e] => m.value scope e
  | e :: es => do
    let d ← m.value scope e
    match ← m.truth? d with
    | some b => if b = (op = .or) then pure d else connected scope op es
    | none => pure .unknown

def compared (scope : Scope) (left : Datum) : List (CmpOp × Expr) → Run Datum
  | [] => pure (.bool true)
  | (op, e) :: rest => do
    let right ← m.value scope e
    let d ← m.compare op left right
    match rest, ← m.truth? d with
    | [], _ | _, some false => pure d
    | rest, some true => compared scope right rest
    | _, none => pure .unknown

/-- The defaults of the last parameters that take arguments by position, and
those of the ones that take them by name. -/
def defaults (scope : Scope) (params : Params Expr) :
    Run (List Datum × List (String × Datum)) := do
  let byPosition ← params.defaults.mapM (m.value scope)
  let byName ← (params.named.zip params.namedDefaults).filterMapM fun (name, e) => do
    match e with
    | some e => do pure (some (name, ← m.value scope e))
    | none => pure none
  pure (byPosition, byName)

/-- The text of parts with values in them. A value with a conversion or a format
is not followed. -/
def partsText? (scope : Scope) : List Part → Run (Option String)
  | [] => pure (some "")
  | part :: parts => do
    let text ← match part with
      | .text value => pure (some value.toText)
      | .value e none none => do pure (shown? (← m.value scope e))
      | .value e _ _ =>
        let _ ← m.value scope e
        pure none
    let others ← partsText? scope parts
    pure (do some ((← text) ++ (← others)))

/-- The place that a bound of a slice says, where it is known. -/
def sliceBound (scope : Scope) : Option Expr → Run (Option Int)
  | none => pure none
  | some e => do pure (← m.value scope e).int?

/-! ## Comprehensions -/

/-- What a run of work yields until its end, after what was found before,
backwards; `fuel` bounds how much that is. -/
def collected (scope : Scope) : (fuel : Nat) → List Work → List Datum → Run (List Datum)
  | 0, _, _ => throw .exhausted
  | fuel + 1, work, found => do
    match ← m.run scope work (.go .nothing) with
    | .yielded d work => collected scope fuel work (d :: found)
    | .ended _ => pure found.reverse

/-- The scope and the work of a comprehension. It has names of its own; what its
first loop goes over is seen from outside. -/
def comprehension (scope : Scope) (element : Expr) (generators : List Generator) :
    Run (Scope × List Work) := do
  let frame ← makeFrame []
  let inner : Scope := { scope with
    frame, around := scope.inner, inner := frame :: scope.inner, globals := [], nonlocals := [] }
  match generators with
  | [] => pure (inner, [])
  | .mk target iterable conditions _ :: rest =>
    let it ← m.iteratorOf (← m.value scope iterable)
    pure (inner, [.loop it target (whereAll conditions (loopsYielding element rest)) []])

def comprehended (scope : Scope) (element : Expr) (generators : List Generator) :
    Run (List Datum) := do
  let (inner, work) ← m.comprehension scope element generators
  m.collected inner ((← get).steps + 1) work []

/-! ## Expressions -/

/-- What a call gives, where it is made from. -/
def callFrom (scope : Scope) (f : Datum) (args : List Datum) (named : List (String × Datum)) :
    Run Datum := do
  match f, args with
  | .standard "super", [] =>
    let subject ← match scope.first with
      | some first => named? scope.frame first
      | none => pure none
    match ← namedIn? "__class__" scope.around, subject with
    | some type, some subject => make (.parent type subject)
    | _, _ => raise "RuntimeError"
  | .standard "locals", [] | .standard "vars", [] => pure (.object scope.frame)
  | f, args => m.call f args named

def evaluate (scope : Scope) (e : Expr) : Run Datum := do
  step
  match e with
  | .const c => pure (.ofConstant c)
  | .name id => lookup scope id
  | .lambda params body place =>
    let (byPosition, byName) ← m.defaults scope params
    makeFunction (.ofLambda params body place) scope byPosition byName
  | .list es => do makeList (← m.listed scope es)
  | .tuple es => do pure (.tuple (← m.listed scope es))
  | .set es => do make (.items true (distinct (← m.listed scope es)))
  | .dict entries => do makeEntries (withEntries [] (← m.entered scope entries))
  | .attribute e name => do m.attributeOf (← m.value scope e) name
  | .subscript e (.slice lower upper none) =>
    let d ← m.value scope e
    let lower ← m.sliceBound scope lower
    let upper ← m.sliceBound scope upper
    part d lower upper
  | .subscript e index =>
    let d ← m.value scope e
    let key ← m.value scope index
    m.element d key
  | .unary op e => do m.signed op (← m.value scope e)
  | .binary left op right =>
    let a ← m.value scope left
    let b ← m.value scope right
    m.operator op a b
  | .bool op es => m.connected scope op es
  | .compare left rest => do m.compared scope (← m.value scope left) rest
  | .ifExp test yes no =>
    let d ← m.value scope test
    if ← m.holds d then m.value scope yes else m.value scope no
  | .named target e =>
    let d ← m.value scope e
    giveScoped { scope with frame := scope.home } target d
    pure d
  | .comprehension .iterator element generators =>
    let (inner, work) ← m.comprehension scope element generators
    make (.iterator (.function inner work))
  | .comprehension .list element generators => do
    makeList (← m.comprehended scope element generators)
  | .comprehension .set element generators => do
    make (.items true (distinct (← m.comprehended scope element generators)))
  | .dictComp key value generators =>
    let pairs ← m.comprehended scope (.tuple [key, value]) generators
    makeEntries (withEntries [] (pairs.filterMap fun
      | .tuple [k, v] => some (k, v)
      | _ => none))
  | .call f args named =>
    let f ← m.value scope f
    let args ← m.listed scope args
    let named ← m.keywords scope named
    m.callFrom scope f args named
  | .joined parts => do pure (ofText? (← m.partsText? scope parts))
  | .slice .. | .await _ | .yield _ | .yieldFrom _ | .starred _ => pure .unknown

end Machine

end JexlScript.Routine
