import JexlScript.Routine.Run.Execute

/-!
# Running a module

`machineAt` closes the circle of the layers, with its argument bounding how deep
a run goes: beyond that it fails as an endless recursion does. A statement of a
module that fails, or takes too many steps, is passed over: a module that fails as
a whole has no functions to ask for.
-/

namespace JexlScript.Routine

open Run

def machineAt : (depth : Nat) → Machine
  | 0 =>
    ⟨fun _ _ => raise "RecursionError", fun _ _ _ => raise "RecursionError",
      fun _ _ _ => raise "RecursionError", fun _ _ => raise "RecursionError"⟩
  | depth + 1 =>
    let m := machineAt depth
    ⟨m.evaluate, m.callDatum, m.runWork, m.nextMember⟩

def mostSteps : Nat := 1000000

def mostDeep : Nat := 8000

/-- A store that holds only the names of a module. -/
def Store.ofNames (names : List (String × Datum)) : Store :=
  ⟨#[.entries (names.map fun (n, v) => (.text n, v))], mostSteps, []⟩

def runStmts (m : Machine) : List Stmt → Store → Store
  | [], store => { store with steps := mostSteps, handled := [] }
  | s :: ss, store =>
    let scope : Scope := ⟨moduleFrame, [], [], moduleFrame, [], [], none⟩
    let store := { store with steps := mostSteps, handled := [] }
    runStmts m ss (m.runWork scope [.stmts [s]] (.go .nothing) store).2

/-- The store after the statements of a module have been run, where some names are
given. -/
def runModule (given : List (String × Datum)) (body : List Stmt) : Store :=
  runStmts (machineAt mostDeep) body (Store.ofNames given)

inductive Key where
  | index (n : Int)
  | name (name : String)

def Key.datum : Key → Datum
  | .index n => .int n
  | .name text => .text text

namespace Machine

variable (m : Machine)

/-- What a name of a module stands for, or an element of it: an attribute of a
class, a member of a list or dictionary, or else an attribute. -/
def find (name : String) (key : Option Key) : Run Datum := do
  let d := (← named? moduleFrame name).getD .unknown
  match key with
  | none => pure d
  | some key =>
    match ← isClassDatum d, key with
    | true, .name name => m.attributeOf d name
    | _, key =>
      match ← observe (m.element d key.datum), key with
      | .ok value, _ => pure value
      | .error _, .name name => m.attributeOf d name
      | .error what, _ => throw (.raised what)

/-- The function whose text is that of another: the one that it says it wraps, if
any; `depth` bounds how far this is followed. -/
def unwrapped : (depth : Nat) → Datum → Run (Option Code)
  | 0, _ => pure none
  | depth + 1, d => do
    match ← m.attribute? d "__wrapped__", ← object? d with
    | some .unknown, some (.function code ..) | none, some (.function code ..) => pure (some code)
    | none, some (.method _ f) => unwrapped depth f
    | some inner, _ => unwrapped depth inner
    | none, _ => pure none

/-- The name that a function tells, what it does itself, and the code that its
text is that of. -/
def toldOf (d : Datum) : Run (Option (String × Code × Option Code)) := do
  match ← object? d with
  | some (.function code _ attributes) =>
    let name := ((← named? attributes "__name__").bind Datum.text?).getD ""
    let inner ← m.unwrapped 100 d
    pure (some (name, code, inner))
  | _ => pure none

end Machine

end JexlScript.Routine
