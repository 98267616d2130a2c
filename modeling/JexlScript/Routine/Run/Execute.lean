import JexlScript.Routine.Run.Evaluate

/-!
# Statements

A run of statements does the work at the head of a list, which may put more work
before the rest, until the list is empty or a `yield` is met. How a statement
ends is a `Signal` that the work after it is taken up with.
-/

namespace JexlScript.Routine

open Run

inductive Turn where
  | on (work : List Work) (signal : Signal)
  /-- A value is yielded; there may be work to do before the rest. -/
  | pause (value : Datum) (work : List Work)

namespace Turn

def done : Turn := .on [] (.go .nothing)

def doing (work : List Work) : Turn := .on work (.go .nothing)

def before (ws : List Work) : Turn → Turn
  | .on work signal => .on (work ++ ws) signal
  | .pause value work => .pause value (work ++ ws)

end Turn

namespace Machine

variable (m : Machine)

/-! ## Definitions -/

/-- What decorators make of a function or class, the last of them first. One that
is not known leaves it as it is. -/
def decorated (scope : Scope) (decorators : List Datum) (d : Datum) : Run Datum :=
  decorators.foldrM
    (fun decorator d => do
      let result ← m.callFrom scope decorator [d] []
      pure (if result.isUnknown then d else result))
    d

/-- The scope of what has type parameters, of which nothing is known. -/
def typed (scope : Scope) (types : List String) : Run Scope := do
  if types.isEmpty then pure scope
  else
    let frame ← makeFrame (types.map fun t => (t, .unknown))
    pure { scope with
      frame, around := scope.frame :: scope.around, inner := frame :: scope.inner }

/-- Defines a class. One with type parameters has a base that is not known. -/
def defineType (scope : Scope) (name : String) (types : List String) (bases : List Expr)
    (named : List (Option String × Expr)) (body : List Stmt) (decorators : List Expr) :
    Run Unit := do
  let decorators ← decorators.mapM (m.value scope)
  let typed ← typed scope types
  let bases ← m.listed typed bases
  let bases := if types.isEmpty then bases else bases ++ [.unknown]
  let named ← m.keywords typed named
  let frame ← makeFrame []
  -- functions in a class do not see its names, but the class itself
  let cell ← makeFrame []
  let inner : Scope := {
    frame, around := typed.inner, inner := cell :: typed.inner, home := frame,
    globals := stmtsElsewhere true body, nonlocals := stmtsElsewhere false body, first := none }
  let _ ← m.run inner [.stmts body] (.go .nothing)
  let named := named.filter fun (n, _) => n ≠ "metaclass"
  let type ← m.makeType name bases frame named
  giveName cell "__class__" type
  giveScoped scope name (← m.decorated scope decorators type)

def defineFunction (scope : Scope) (isAsync : Bool) (name : String) (params : Params Expr)
    (types : List String) (body : List Stmt) (start : Nat) (decorators : List Expr) :
    Run Unit := do
  let decorators ← decorators.mapM (m.value scope)
  let (byPosition, byName) ← m.defaults scope params
  let typed ← typed scope types
  let f ← makeFunction (.ofDefinition isAsync name params body start) typed byPosition byName
  giveScoped scope name (← m.decorated scope decorators f)

/-! ## Assignments -/

def augment (scope : Scope) (op : BinOp) (target e : Expr) : Run Unit := do
  match target with
  | .attribute base name =>
    let b ← m.value scope base
    let a ← m.attributeOf b name
    let d ← m.operatorInPlace op a (← m.value scope e)
    m.giveAttribute b name d
  | .subscript base index =>
    let b ← m.value scope base
    let key ← m.value scope index
    let a ← m.element b key
    let d ← m.operatorInPlace op a (← m.value scope e)
    m.giveElement b key d
  | target =>
    let a ← m.value scope target
    let d ← m.operatorInPlace op a (← m.value scope e)
    m.give scope d target

/-! ## Exceptions and contexts -/

/-- Fails with what a `raise` gives. -/
def raiseDatum {α : Type} (d : Datum) : Run α := do
  let what ← if ← isClassDatum d then m.call d [] [] else pure d
  if what.isForeign then raiseWith "Exception" [what]
  else if (← isA what "BaseException") || (← isForeignRecord what) then throw (.raised what)
  else raise "TypeError"

def handlerFor? (scope : Scope) (what : Datum) : List Handler → Run (Option Handler)
  | [] => pure none
  | .mk type name body :: rest => do
    let isHandled ← match type with
      | none => pure true
      | some e => do pure ((← isInstance? what (← m.value scope e)).getD true)
    if isHandled then pure (some (.mk type name body)) else handlerFor? scope what rest

/-- What follows the body of a `try` that has failed. -/
def handle (scope : Scope) (handlers : List Handler) (what : Datum) : Run Turn := do
  match ← m.handlerFor? scope what handlers with
  | none => pure (.on [] (.raised what))
  | some (.mk _ name body) =>
    let before := (← get).handled
    modify fun s => { s with handled := what :: s.handled }
    match name with
    | some name => m.give scope what (.name name)
    | none => pure ()
    pure (.doing [.stmts body, .handling before])

/-- What a context gives when it is entered, and what is called when it is
left. -/
def enter (d : Datum) : Run (Datum × Datum) := do
  match ← m.callMethod? d "__enter__" [], ← special? d "__exit__" with
  | some entered, some kept => do pure (entered, ← m.handOut (some d) (← typeOf d) kept)
  | _, _ =>
    if d.isForeign || (← isForeignRecord d) then pure (.unknown, .unknown) else raise "TypeError"

/-- Leaves a context, which may keep back an exception. -/
def leave (f : Datum) (signal : Signal) : Run Turn := do
  let args ← match signal with
    | .raised what => do pure [← typeOf what, what, .nothing]
    | _ => pure [.nothing, .nothing, .nothing]
  let answer ← m.call f args []
  match signal with
  | .raised _ => if (← m.truth? answer) = some true then pure .done else pure (.on [] signal)
  | _ => pure (.on [] signal)

/-! ## Patterns -/

mutual

/-- Whether a datum fits a pattern, whose names it is given to. A pattern that
looks inside the datum is not followed. -/
def fits (scope : Scope) (d : Datum) : Pattern → Run Bool
  | .value e => do m.equal d (← m.value scope e)
  | .capture none => pure true
  | .capture (some name) => do
    giveScoped scope name d
    pure true
  | .named p name => do
    if ← fits scope d p then
      giveScoped scope name d
      pure true
    else pure false
  | .either options => fitsAny scope d options
  | .star _ | .sequence _ | .mapping .. | .ofClass .. => pure false

def fitsAny (scope : Scope) (d : Datum) : List Pattern → Run Bool
  | [] => pure false
  | p :: ps => do if ← fits scope d p then pure true else fitsAny scope d ps

end

def choose (scope : Scope) (d : Datum) : List Case → Run (List Stmt)
  | [] => pure []
  | .mk pattern guard body :: rest => do
    let guarded (e : Expr) : Run Bool := do m.holds (← m.value scope e)
    if (← m.fits scope d pattern) && (← guard.toList.allM guarded) then pure body
    else choose scope d rest

/-! ## Imports -/

/-- Requires that there is a module of a name; of what stands in it nothing is
known. -/
def requireModule (path : List String) : Run Unit :=
  if moduleNames.contains (path.headD "") then pure () else raise "ModuleNotFoundError"

def importNames (scope : Scope) (path : List String) (names : List (String × Option String)) :
    Run Unit := do
  requireModule path
  if names.isEmpty then giveName moduleFrame "*" .unknown
  names.forM fun (name, other) =>
    giveScoped scope (other.getD name) (.standard (".".intercalate (path ++ [name])))

def importModules (scope : Scope) (modules : List (List String × Option String)) : Run Unit :=
  modules.forM fun (path, other) => do
    requireModule path
    match other with
    | some name => giveScoped scope name (.standard (".".intercalate path))
    | none => giveScoped scope (path.headD "") (.standard (path.headD ""))

/-! ## Statements -/

def yieldValue (scope : Scope) : Option Expr → Run Datum
  | none => pure .nothing
  | some e => m.value scope e

def execute (scope : Scope) (s : Stmt) : Run Turn := do
  match s with
  | .function isAsync name params types body start decorators =>
    m.defineFunction scope isAsync name params types body start decorators
    pure .done
  | .class name types bases named body decorators =>
    m.defineType scope name types bases named body decorators
    pure .done
  | .ret none => pure (.on [] (.flow (.returned .nothing)))
  | .expr (.yield e) => do pure (.pause (← m.yieldValue scope e) [])
  | .assign targets (.yield e) => do pure (.pause (← m.yieldValue scope e) [.give targets])
  | .expr (.yieldFrom e) | .ret (some (.yieldFrom e)) => do
    pure (.doing [.delegate (← m.iteratorOf (← m.value scope e))])
  | .assign targets (.yieldFrom e) => do
    pure (.doing [.delegate (← m.iteratorOf (← m.value scope e)), .give targets])
  | .ret (some e) => do pure (.on [] (.flow (.returned (← m.value scope e))))
  | .expr e =>
    let _ ← m.value scope e
    pure .done
  | .assign targets e =>
    let d ← m.value scope e
    targets.forM (m.give scope d)
    pure .done
  | .annAssign target _ (some e) =>
    m.give scope (← m.value scope e) target
    pure .done
  | .augAssign target op e =>
    m.augment scope op target e
    pure .done
  | .cond test yes no =>
    let d ← m.value scope test
    pure (.doing [.stmts (if ← m.holds d then yes else no)])
  | .loop _ target iterable body other =>
    let it ← m.iteratorOf (← m.value scope iterable)
    pure (.doing [.loop it target body other])
  | .while test body other => pure (.doing [.around test body other])
  | .context _ [] body => pure (.doing [.stmts body])
  | .context isAsync ((e, target) :: items) body =>
    let (entered, leave) ← m.enter (← m.value scope e)
    pure (.on [.give target.toList, .stmts [.context isAsync items body], .context leave]
      (.go entered))
  | .attempt _ body handlers other last => pure (.doing [.stmts body, .attempt handlers other last])
  | .raise (some e) _ => m.raiseDatum (← m.value scope e)
  | .raise none _ =>
    match (← get).handled with
    | what :: _ => throw (.raised what)
    | [] => raise "RuntimeError"
  | .assert test _ =>
    let d ← m.value scope test
    if ← m.holds d then pure .done else raise "AssertionError"
  | .delete targets =>
    targets.forM (m.drop scope)
    pure .done
  | .typeAlias name =>
    giveScoped scope name .unknown
    pure .done
  | .import modules =>
    importModules scope modules
    pure .done
  | .importFrom true _ _ => raise "ImportError"
  | .importFrom false path names =>
    importNames scope path names
    pure .done
  | .break => pure (.on [] (.flow .stopped))
  | .continue => pure (.on [] (.flow .again))
  | .match subject cases => do
    pure (.doing [.stmts (← m.choose scope (← m.value scope subject) cases)])
  | .annAssign _ _ none | .pass | .elsewhere .. => pure .done

/-! ## Work -/

/-- Asks the iterator of a `yield from` for more. -/
def delegate (it : Datum) (signal : Signal) : Run Turn := do
  match ← m.next it signal with
  | .more d => pure (.pause d [.delegate it])
  | .done d => pure (.on [] (.go d))

def turn (scope : Scope) (work : Work) (signal : Signal) : Run Turn := do
  match work, signal with
  | .stmts [], signal => pure (.on [] signal)
  | .stmts (s :: ss), .go _ => do
    pure ((← m.execute scope s).before (if ss.isEmpty then [] else [.stmts ss]))
  | .loop it target body other, .go _ | .loop it target body other, .flow .again =>
    match ← m.next it (.go .nothing) with
    | .more d =>
      m.give scope d target
      pure (.doing [.stmts body, .loop it target body other])
    | .done _ => pure (.doing [.stmts other])
  | .around test body other, .go _ | .around test body other, .flow .again =>
    let d ← m.value scope test
    if (← m.truth? d) = some true then pure (.doing [.stmts body, .around test body other])
    else pure (.doing [.stmts other])
  | .loop .., .flow .stopped | .around .., .flow .stopped => pure .done
  | .attempt _ other last, .go _ => pure (.doing [.stmts other, .lastly last])
  | .attempt handlers _ last, .raised what =>
    match ← observe (m.handle scope handlers what) with
    | .ok turn => pure (turn.before [.lastly last])
    | .error what => pure (.on [.lastly last] (.raised what))
  | .attempt _ _ last, signal => pure (.on [.lastly last] signal)
  | .handling before, signal =>
    modify fun s => { s with handled := before }
    pure (.on [] signal)
  | .lastly [], signal => pure (.on [] signal)
  | .lastly ss, signal => pure (.doing [.stmts ss, .pending signal])
  | .pending signal, .go _ => pure (.on [] signal)
  | .context f, signal => m.leave f signal
  | .give targets, .go d =>
    targets.forM (m.give scope d)
    pure .done
  | .delegate it, signal => m.delegate it signal
  | _, signal => pure (.on [] signal)

/-- Does work until a value is yielded or nothing is left; `fuel` bounds how much
is done. -/
def drive (scope : Scope) : (fuel : Nat) → List Work → Signal → Run Pause
  | 0, _, _ => throw .exhausted
  | _ + 1, [], .flow (.returned d) => pure (.ended d)
  | _ + 1, [], .raised what => throw (.raised what)
  | _ + 1, [], _ => pure (.ended .nothing)
  | fuel + 1, w :: ws, signal => do
    step
    match ← observe (m.turn scope w signal) with
    | .ok (.on work signal) => drive scope fuel (work ++ ws) signal
    | .ok (.pause d work) => pure (.yielded d (work ++ ws))
    | .error what => drive scope fuel ws (.raised what)

def runWork (scope : Scope) (work : List Work) (signal : Signal) : Run Pause := do
  m.drive scope ((← get).steps + 2) work signal

end Machine

end JexlScript.Routine
