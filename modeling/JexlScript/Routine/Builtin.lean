import JexlScript.Routine.Signature
import JexlScript.Script.Basic

/-!
# Builtin functions and their counterparts

The functions, methods, modules and constructors that a routine may use and the
script that stands for each. The arguments of a call come with their own
outcomes: a refused argument refuses the call only when its turn comes, and
after all questions of how the arguments fit.
-/

namespace JexlScript.Routine

/-- What an expression of a routine gives: its script or why there is none. -/
abbrev Outcome := Except Refusal Script.Expr

/-- The outcomes of several expressions, the first refusal going first. -/
def allOk : List Outcome → Except Refusal (List Script.Expr)
  | [] => .ok []
  | o :: os => do
    let e ← o
    let es ← allOk os
    .ok (e :: es)

inductive Builtin where
  | print
  | len
  | min
  | max
  | abs
  | round
  | pow
  | str
  | int
  | float
  | bool
  | list
  | any
  | all
  | sum
  /-- A function of one number in `Math`, under its name there. -/
  | math (name : String)
  | jsonLoads
  | jsonDumps
deriving DecidableEq, Repr

/-! ## What is known by name -/

def builtins : Table Builtin :=
  [("print", .print), ("len", .len), ("min", .min), ("max", .max), ("abs", .abs),
    ("round", .round), ("pow", .pow), ("str", .str), ("int", .int), ("float", .float),
    ("bool", .bool), ("list", .list), ("any", .any), ("all", .all), ("sum", .sum)]

def moduleFunctions : Table (Table Builtin) :=
  [("math", [("floor", .math "floor"), ("ceil", .math "ceil"), ("sqrt", .math "sqrt"),
      ("trunc", .math "trunc")]),
    ("json", [("loads", .jsonLoads), ("dumps", .jsonDumps)])]

def moduleConstants : Table (Table Script.Expr) :=
  [("math", [("pi", (Script.Expr.ident "Math").dot "PI"), ("e", (Script.Expr.ident "Math").dot "E"),
    ("inf", .ident "Infinity")])]

def isModule (name : String) : Bool := (moduleFunctions.get? name).isSome

def moduleFunction? (module name : String) : Option Builtin :=
  (moduleFunctions.get? module).bind fun t => t.get? name

def moduleConstant? (module name : String) : Option Script.Expr :=
  (moduleConstants.get? module).bind fun t => t.get? name

def methodNames : Table String :=
  [("upper", "toUpperCase"), ("lower", "toLowerCase"), ("strip", "trim"),
    ("lstrip", "trimStart"), ("rstrip", "trimEnd"), ("startswith", "startsWith"),
    ("endswith", "endsWith"), ("append", "push")]

def methodName (name : String) : String := (methodNames.get? name).getD name

def constructors : List String :=
  ["Date", "Array", "Map", "Set", "RegExp", "Error", "Promise", "WeakMap", "WeakSet"]

/-! ## Calls -/

namespace Builtin

def signature : Builtin → Signature
  | .print | .min | .max | .int | .sum => ⟨[], true, []⟩
  | .len | .abs | .str | .float | .bool | .list | .any | .all | .math _ =>
    ⟨[("x", true)], false, []⟩
  | .round => ⟨[("number", true), ("ndigits", false)], false, []⟩
  | .pow => ⟨[("base", true), ("exp", true)], false, []⟩
  | .jsonLoads => ⟨[("s", true)], false, []⟩
  | .jsonDumps => ⟨[("obj", true)], false, ["indent"]⟩

def mathCall (name : String) (args : List Script.Expr) : Script.Expr :=
  (Script.Expr.ident "Math").invoke name args

def mapped? : Script.Expr → Option (Script.Expr × Script.Expr)
  | .call (.member obj (.ident prop) _ _) [arg] => if prop = "map" then some (obj, arg) else none
  | _ => none

/-- Whether some or all members are true, by the method named. A mapping before
it is done by the method itself. -/
def quantified (method : String) (value : Script.Expr) : Script.Expr :=
  match mapped? value with
  | some (items, f) => items.invoke method [f]
  | none => value.invoke method [.arrow [.name "v"] (.ident "v")]

def adder : Script.Expr :=
  .arrow [.name "a", .name "b"] (.binary (.ident "a") "+" (.ident "b"))

def argument (bound : Bound Outcome) (param : String) : Outcome :=
  match bound.args.get? param with
  | some o => o
  | none => .error (.call param (.missing param))

def applied (bound : Bound Outcome) (f : Script.Expr → Script.Expr) : Outcome := do
  let x ← argument bound "x"
  .ok (f x)

def call (bound : Bound Outcome) : Builtin → Outcome
  | .print => do
    let args ← allOk bound.rest
    .ok ((Script.Expr.ident "console").invoke "log" args)
  | .len => applied bound fun x => x.dot "length"
  | .min =>
    if bound.rest.length < 2 then .error (.singleIterable "min")
    else do
      let args ← allOk bound.rest
      .ok (mathCall "min" args)
  | .max =>
    if bound.rest.length < 2 then .error (.singleIterable "max")
    else do
      let args ← allOk bound.rest
      .ok (mathCall "max" args)
  | .abs => applied bound fun x => mathCall "abs" [x]
  | .round => do
    let number ← argument bound "number"
    match bound.args.get? "ndigits" with
    | none => .ok (mathCall "round" [number])
    | some digits =>
      let digits ← digits
      .ok (.call (.ident "Number") [number.invoke "toFixed" [digits]])
  | .pow => do
    let base ← argument bound "base"
    let exp ← argument bound "exp"
    .ok (.binary base "**" exp)
  | .str => applied bound fun x => .call (.ident "String") [x]
  | .int =>
    if bound.rest.length = 1 ∨ bound.rest.length = 2 then do
      let args ← allOk bound.rest
      .ok (.call (.ident "parseInt") args)
    else .error (.oneOrTwo "int")
  | .float => applied bound fun x => .call (.ident "parseFloat") [x]
  | .bool => applied bound fun x => .call (.ident "Boolean") [x]
  | .list => applied bound fun x => (Script.Expr.ident "Array").invoke "from" [x]
  | .any => applied bound (quantified "some")
  | .all => applied bound (quantified "every")
  | .sum =>
    match bound.rest with
    | [items] => do
      let items ← items
      .ok (items.invoke "reduce" [adder, .lit (.int 0)])
    | [items, start] => do
      let start ← start
      let items ← items
      .ok (items.invoke "reduce" [adder, start])
    | _ => .error (.oneOrTwo "sum")
  | .math name => applied bound fun x => mathCall name [x]
  | .jsonLoads => do
    let s ← argument bound "s"
    .ok ((Script.Expr.ident "JSON").invoke "parse" [s])
  | .jsonDumps => do
    let obj ← argument bound "obj"
    match bound.args.get? "indent" with
    | none => .ok ((Script.Expr.ident "JSON").invoke "stringify" [obj])
    | some indent =>
      let indent ← indent
      .ok ((Script.Expr.ident "JSON").invoke "stringify" [obj, .lit .null, indent])

/-- The script for a call under a name, with arguments by position and by
name. -/
def lower (b : Builtin) (name : String) (args : List Outcome)
    (keywords : List (String × Outcome)) : Outcome :=
  match b.signature.bind args keywords with
  | .ok bound => b.call bound
  | .error why => .error (.call name why)

end Builtin

end JexlScript.Routine
