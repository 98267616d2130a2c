import Mathlib.Logic.Function.Basic
import JexlScript.Proofs.RoutineBody

/-!
# Executing bodies

The statements of routines and those of scripts are executed over one interpretation of
their expressions. A routine has one store for its whole body, where a local name may be
unassigned. A script has blocks: the names that a block declares are known from its start,
but cannot be used before their declaration was executed, and are gone after its end.

What an expression does is an `Inquiry`: it asks for the values of names, one after the
other and depending on the values before, and then has a value. So it is known which names
an evaluation reads.
-/

namespace JexlScript.Execution

open Script (blockNames paramNames)

/-! ## Expressions -/

/-- What evaluating an expression takes. -/
inductive Inquiry (V : Type) where
  | answer (value : V)
  /-- The value of a name is needed to go on. -/
  | ask (name : String) (next : V → Inquiry V)

/-- Looks up what is asked for. -/
def Inquiry.run {ε V : Type} (look : String → Except ε V) : Inquiry V → Except ε V
  | .answer v => .ok v
  | .ask x next => do
    let v ← look x
    (next v).run look

/-- An interpretation of the expressions of both languages. -/
structure Meaning (V : Type) where
  /-- What an expression of a routine takes. -/
  routine : Routine.Expr → Inquiry V
  /-- What an expression of a script takes. -/
  script : Script.Expr → Inquiry V
  /-- Whether a value counts as true. -/
  truthy : V → Bool
  /-- The value that the operator of an augmented assignment makes of two. -/
  combine : String → V → V → V
  /-- The value of a name that is declared without one. -/
  undefined : V
  /-- The values of names from outside. -/
  outer : String → Option V

/-! ## Runs -/

/-- How a list of statements ends: behind its last one, or by a return. -/
inductive Ending (V : Type) where
  | through
  | returned (value : Option V)

/-- How a run ends, the store behind it, and the expressions that were evaluated with their
values. -/
abbrev Run (ε S E V : Type) := Except ε (Ending V × S × List (E × V))

section

variable {ε S E V : Type}

/-- Ends with nothing evaluated. -/
def Run.stop (ending : Ending V) (s : S) : Run ε S E V := .ok (ending, s, [])

/-- Evaluations came before. -/
def Run.after (seen : List (E × V)) (run : Run ε S E V) : Run ε S E V :=
  run.map fun (ending, s, seen') => (ending, s, seen ++ seen')

/-- Goes on unless something was returned. -/
def Run.andThen (first : Run ε S E V) (next : S → Run ε S E V) : Run ε S E V :=
  match first with
  | .ok (.through, s, seen) => (next s).after seen
  | returned => returned

/-- Goes on with the value of an expression. -/
def Run.evaluate (e : E) (value : Except ε V) (next : V → Run ε S E V) : Run ε S E V :=
  value.bind fun v => (next v).after [(e, v)]

end

variable {V : Type} (M : Meaning V)

/-! ## Routines -/

/-- Why a routine cannot go on. -/
inductive Failure where
  | unassigned (name : String)
  /-- A name is not known from outside. -/
  | unknown (name : String)
  | unsupported

/-- A local name is in the store, or it is not assigned yet. -/
def lookup (own : List String) (σ : String → Option V) (x : String) : Except Failure V :=
  if x ∈ own then (σ x).elim (.error (.unassigned x)) .ok
  else (M.outer x).elim (.error (.unknown x)) .ok

section

variable (own : List String)

mutual

/-- Executes a statement of a routine. -/
def exec : Routine.Stmt → (String → Option V) → Run Failure (String → Option V) Routine.Expr V
  | .ret none, σ => .stop (.returned none) σ
  | .ret (some e), σ =>
    .evaluate e ((M.routine e).run (lookup M own σ)) fun v => .stop (.returned (some v)) σ
  | .pass, σ => .stop .through σ
  | .expr e, σ => .evaluate e ((M.routine e).run (lookup M own σ)) fun _ => .stop .through σ
  | .augAssign (.name x) op e, σ =>
    match op.operator? with
    | some symbol =>
      (lookup M own σ x).bind fun old =>
        Run.evaluate e ((M.routine e).run (lookup M own σ)) fun v =>
          .stop .through (Function.update σ x (some (M.combine symbol old v)))
    | none => .error .unsupported
  | .assign [.name x] e, σ | .annAssign (.name x) _ (some e), σ =>
    .evaluate e ((M.routine e).run (lookup M own σ)) fun v =>
      .stop .through (Function.update σ x (some v))
  | .annAssign (.name _) _ none, σ => .stop .through σ
  | .cond test yes no, σ =>
    .evaluate test ((M.routine test).run (lookup M own σ)) fun v =>
      if M.truthy v then execAll yes σ else execAll no σ
  | _, _ => .error .unsupported

/-- Executes statements one after the other. -/
def execAll : List Routine.Stmt → (String → Option V) →
    Run Failure (String → Option V) Routine.Expr V
  | [], σ => .stop .through σ
  | s :: ss, σ => (exec s σ).andThen (execAll ss)

end

end

mutual

/-- The names of augmented assignments, also in branches. -/
def augmented : Routine.Stmt → List String
  | .augAssign target _ _ => [target].filterMap Routine.Expr.name?
  | .cond _ yes no => augmentedAll yes ++ augmentedAll no
  | _ => []

def augmentedAll : List Routine.Stmt → List String
  | [] => []
  | s :: ss => augmented s ++ augmentedAll ss

end

/-- The names that a routine assigns anywhere, and its parameters. -/
def localNames (names : List String) (body : List Routine.Stmt) : List String :=
  names ++ (Routine.assignedAll body ++ augmentedAll body)

/-- Calls a routine with the given values of its parameters. The text that describes it is
not executed. -/
def callRoutine (names : List String) (body : List Routine.Stmt) (args : String → V) :
    Except Failure (Ending V × List (Routine.Expr × V)) :=
  let body := Routine.withoutDescription body
  (execAll M (localNames names body) body fun x => if x ∈ names then some (args x) else none).map
    fun (ending, _, seen) => (ending, seen)

/-! ## Scripts -/

/-- Why a script cannot go on. -/
inductive Fault where
  | undeclared (name : String)
  /-- A name is used ahead of its declaration. -/
  | deadZone (name : String)
  | redeclared
  | unsupported

/-- The names that are declared, each with its value once its declaration was executed. -/
abbrev Scoped (V : Type) := String → Option (Option V)

/-- Reads a name. -/
def read (env : Scoped V) (x : String) : Except Fault V :=
  match env x with
  | some (some v) => .ok v
  | some none => .error (.deadZone x)
  | none => (M.outer x).elim (.error (.undeclared x)) .ok

/-- Assigns to a name that is declared. -/
def write (env : Scoped V) (x : String) (v : V) : Run Fault (Scoped V) Script.Expr V :=
  match env x with
  | some (some _) => .stop .through (Function.update env x (some (some v)))
  | some none => .error (.deadZone x)
  | none => .error (.undeclared x)

/-- Runs a block, whose names are known in it only. -/
def inBlock (names : List String) (run : Scoped V → Run Fault (Scoped V) Script.Expr V)
    (env : Scoped V) : Run Fault (Scoped V) Script.Expr V :=
  if names.Nodup then
    (run fun x => if x ∈ names then some none else env x).map fun (ending, env', seen) =>
      (ending, fun x => if x ∈ names then env x else env' x, seen)
  else .error .redeclared

mutual

/-- Executes a statement of a script. -/
def execScript : Script.Stmt → Scoped V → Run Fault (Scoped V) Script.Expr V
  | .ret e, env =>
    .evaluate e ((M.script e).run (read M env)) fun v => .stop (.returned (some v)) env
  | .retNothing, env => .stop (.returned none) env
  | .expr e, env => .evaluate e ((M.script e).run (read M env)) fun _ => .stop .through env
  | .bare ⟨x, some .let, none⟩, env =>
    .stop .through (Function.update env x (some (some M.undefined)))
  | .assign ⟨x, some .let, none⟩ e, env =>
    .evaluate e ((M.script e).run (read M env)) fun v =>
      .stop .through (Function.update env x (some (some v)))
  | .assign ⟨x, none, none⟩ e, env =>
    .evaluate e ((M.script e).run (read M env)) fun v => write env x v
  | .assign ⟨x, none, some op⟩ e, env =>
    (read M env x).bind fun old =>
      Run.evaluate e ((M.script e).run (read M env)) fun v => write env x (M.combine op old v)
  | .cond c yes no, env =>
    .evaluate c ((M.script c).run (read M env)) fun v =>
      if M.truthy v then inBlock (blockNames yes) (runScript yes) env
      else inBlock (blockNames no) (runScript no) env
  | .block body, env => inBlock (blockNames body) (runScript body) env
  | _, _ => .error .unsupported

/-- Executes statements one after the other. -/
def runScript : List Script.Stmt → Scoped V → Run Fault (Scoped V) Script.Expr V
  | [], env => .stop .through env
  | s :: ss, env => (execScript s env).andThen (runScript ss)

end

/-- Calls a function with the given values of its parameters, which its block may not
declare. -/
def callFunction (ps : List Script.Param) (block : List Script.Stmt) (args : String → V) :
    Except Fault (Ending V × List (Script.Expr × V)) :=
  if ∀ x ∈ blockNames block, x ∉ paramNames ps then
    (inBlock (blockNames block) (runScript M block) fun x =>
      if x ∈ paramNames ps then some (some (args x)) else none).map
      fun (ending, _, seen) => (ending, seen)
  else .error .redeclared

/-! ## Expressions of a body -/

mutual

/-- The expressions of a statement of a routine, in the order of the text. -/
def routineExprs : Routine.Stmt → List Routine.Expr
  | .ret (some e) | .expr e | .assign _ e | .annAssign _ _ (some e) | .augAssign _ _ e => [e]
  | .cond test yes no => test :: (routineExprsAll yes ++ routineExprsAll no)
  | _ => []

def routineExprsAll : List Routine.Stmt → List Routine.Expr
  | [] => []
  | s :: ss => routineExprs s ++ routineExprsAll ss

end

mutual

/-- The expressions of a statement of a script, in the order of the text. -/
def scriptExprs : Script.Stmt → List Script.Expr
  | .ret e | .expr e | .assign _ e => [e]
  | .cond c yes no => c :: (scriptExprsAll yes ++ scriptExprsAll no)
  | .block body => scriptExprsAll body
  | _ => []

def scriptExprsAll : List Script.Stmt → List Script.Expr
  | [] => []
  | s :: ss => scriptExprs s ++ scriptExprsAll ss

end

/-- The expressions of a body with those that stand in their places in its script. -/
def counterparts (body : List Routine.Stmt) (block : List Script.Stmt) :
    List (Routine.Expr × Script.Expr) :=
  (routineExprsAll (Routine.withoutDescription body)).zip (scriptExprsAll block)

mutual

/-- Whether all annotations in a statement have a value. -/
def valued : Routine.Stmt → Bool
  | .annAssign _ _ value => value.isSome
  | .cond _ yes no => valuedAll yes && valuedAll no
  | _ => true

def valuedAll : List Routine.Stmt → Bool
  | [] => true
  | s :: ss => valued s && valuedAll ss

end

end JexlScript.Execution
