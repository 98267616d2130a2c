import JexlScript.Operation
import JexlScript.Routine.Reading

/-!
# The store of a run

A module is run to learn which functions its names stand for. What a run works
on is held in a store of objects that are known by their addresses, so that two
names can stand for one object and both see it change. Whatever the run does not
follow is `Datum.unknown`.

What is left to do of a function is a list of `Work`, so that a generator can be
left and taken up again: it is kept in the store like any other object.
-/

namespace JexlScript.Routine

/-! ## Data -/

inductive Datum where
  | nothing
  | bool (value : Bool)
  | int (value : Int)
  | double (value : Double)
  | text (value : String)
  | tuple (members : List Datum)
  | object (address : Nat)
  /-- A standard function, class or module, by its name. -/
  | standard (name : String)
  /-- A method of a datum that no class of the module keeps. -/
  | bound (subject : Datum) (name : String)
  | unknown

namespace Datum

instance : Inhabited Datum := ⟨.unknown⟩

def ofConstant : Constant → Datum
  | .none => .nothing
  | .bool b => .bool b
  | .int n => .int n
  | .double v => .double v
  | .text value _ => .text value.toText
  | .imaginary _ | .bytes _ | .ellipsis => .unknown

def text? : Datum → Option String
  | .text s => some s
  | _ => none

def int? : Datum → Option Int
  | .int n => some n
  | .bool b => some (if b then 1 else 0)
  | _ => none

def number? : Datum → Option Number
  | .double v => some (.double v)
  | d => d.int?.map Number.int

def ofNumber : Number → Datum
  | .int n => .int n
  | .double v => .double v

def ofBool? (b : Option Bool) : Datum := (b.map Datum.bool).getD .unknown

def isUnknown : Datum → Bool
  | .unknown => true
  | _ => false

def isNothing : Datum → Bool
  | .nothing => true
  | _ => false

mutual

/-- Whether two data are the same key: numbers by their value, texts by their
characters, tuples by their members, objects by their address. -/
def same : Datum → Datum → Bool
  | .nothing, .nothing => true
  | .text a, .text b => a == b
  | .tuple as, .tuple bs => sameAll as bs
  | .object a, .object b => a == b
  | .standard a, .standard b => a == b
  | .bound d a, .bound e b => a == b && d.same e
  | a, b =>
    match a.number?, b.number? with
    | some x, some y => x.compare? y == some .eq
    | _, _ => false

def sameAll : List Datum → List Datum → Bool
  | [], [] => true
  | a :: as, b :: bs => a.same b && sameAll as bs
  | _, _ => false

end

end Datum

/-! ## Functions and scopes -/

def lambdaName : String := "<lambda>"

inductive Body where
  | value (place : Span) (value : Expr)
  | block (start : Nat) (stmts : List Stmt)

structure Code where
  name : String
  params : Params Expr
  body : Body
  isAsync : Bool
  /-- Whether a call gives a generator. -/
  yields : Bool
  globals : List String
  nonlocals : List String

def Code.start (code : Code) : Nat :=
  match code.body with
  | .value place _ => place.start
  | .block start _ => start

/-- Where names are looked for and given. Frames are dictionaries of the
store. -/
structure Scope where
  frame : Nat
  /-- The frames that are looked in after the own one. -/
  around : List Nat
  /-- The frames that a function written here looks in. -/
  inner : List Nat
  /-- The frame that takes the names given inside an expression. -/
  home : Nat
  globals : List String
  nonlocals : List String
  /-- The first parameter of the function, which `super` asks for. -/
  first : Option String

/-! ## Work -/

inductive Flow where
  | returned (value : Datum)
  | stopped
  | again

inductive Signal where
  | go (value : Datum)
  | flow (flow : Flow)
  | raised (what : Datum)

inductive Work where
  | stmts (ss : List Stmt)
  /-- The rest of a `for`. -/
  | loop (iterator : Datum) (target : Expr) (body other : List Stmt)
  /-- The rest of a `while`. -/
  | around (test : Expr) (body other : List Stmt)
  /-- What comes after the body of a `try`. -/
  | attempt (handlers : List Handler) (other last : List Stmt)
  /-- The end of a handler: what was handled before is handled again. -/
  | handling (before : List Datum)
  /-- What a `finally` does. -/
  | lastly (ss : List Stmt)
  /-- What goes on after a `finally`. -/
  | pending (signal : Signal)
  /-- The end of a `with`, given how it is left. -/
  | context (leave : Datum)
  | give (targets : List Expr)
  /-- The rest of a `yield from`. -/
  | delegate (iterator : Datum)

/-! ## Objects -/

inductive Supply where
  | members (rest : List Datum)
  /-- The members of a list from one place on, which may come to be more. -/
  | places (source : Datum) (next : Nat)
  | function (scope : Scope) (work : List Work)
  | running
  | finished

/-- An object of the store. Where an object has attributes, these are a
dictionary of the store. -/
inductive Object where
  | items (isSet : Bool) (members : List Datum)
  | entries (members : List (Datum × Datum))
  /-- A function, with the scope it was written in. -/
  | function (code : Code) (scope : Scope) (attributes : Nat)
  /-- A class, with the classes it takes attributes from after itself. -/
  | type (name : String) (line : List Datum) (attributes : Nat)
  | record (type : Datum) (attributes : Nat)
  | method (subject function : Datum)
  | static (function : Datum)
  | ofClass (function : Datum)
  | property (getter setter : Datum)
  | iterator (supply : Supply)
  /-- What `super` gives. -/
  | parent (type subject : Datum)

instance : Inhabited Object := ⟨.items false []⟩

structure Store where
  objects : Array Object
  /-- How many steps the run may still take. -/
  steps : Nat
  /-- The exceptions that are being handled, the latest first. -/
  handled : List Datum

def moduleFrame : Nat := 0

inductive Halt where
  | raised (what : Datum)
  | exhausted

abbrev Run := ExceptT Halt (StateM Store)

namespace Run

def step : Run Unit := do
  let left ← modifyGet fun s => (s.steps, { s with steps := s.steps - 1 })
  if left = 0 then throw .exhausted

def allocate (o : Object) : Run Nat :=
  modifyGet fun s => (s.objects.size, { s with objects := s.objects.push o })

def make (o : Object) : Run Datum := do
  let address ← allocate o
  pure (.object address)

def makeList (members : List Datum) : Run Datum := make (.items false members)

def makeEntries (members : List (Datum × Datum)) : Run Datum := make (.entries members)

def makeIterator (members : List Datum) : Run Datum := make (.iterator (.members members))

def object? : Datum → Run (Option Object)
  | .object address => do pure (← get).objects[address]?
  | _ => pure none

def replace (address : Nat) (o : Object) : Run Unit :=
  modify fun s => { s with objects := s.objects.setIfInBounds address o }

/-- What a part of a run gives, or the exception that it fails with. -/
def observe {α : Type} (p : Run α) : Run (Except Datum α) := fun s =>
  match p s with
  | (.ok a, s) => (.ok (.ok a), s)
  | (.error (.raised what), s) => (.ok (.error what), s)
  | (.error .exhausted, s) => (.error .exhausted, s)

end Run

/-! ## Dictionaries -/

def entryAt? (members : List (Datum × Datum)) (key : Datum) : Option Datum :=
  (members.find? fun (k, _) => k.same key).map Prod.snd

def withEntry (key value : Datum) : List (Datum × Datum) → List (Datum × Datum)
  | [] => [(key, value)]
  | (k, v) :: rest => if k.same key then (k, value) :: rest else (k, v) :: withEntry key value rest

def withEntries (members more : List (Datum × Datum)) : List (Datum × Datum) :=
  more.foldl (fun members (k, v) => withEntry k v members) members

def withoutEntry (key : Datum) (members : List (Datum × Datum)) : List (Datum × Datum) :=
  members.filter fun (k, _) => !k.same key

namespace Run

def entriesAt (address : Nat) : Run (List (Datum × Datum)) := do
  match ← object? (.object address) with
  | some (.entries members) => pure members
  | _ => pure []

def changeEntries (address : Nat) (f : List (Datum × Datum) → List (Datum × Datum)) :
    Run Unit := do
  replace address (.entries (f (← entriesAt address)))

def named? (frame : Nat) (name : String) : Run (Option Datum) := do
  pure (entryAt? (← entriesAt frame) (.text name))

def giveName (frame : Nat) (name : String) (value : Datum) : Run Unit :=
  changeEntries frame (withEntry (.text name) value)

def namedIn? (name : String) : List Nat → Run (Option Datum)
  | [] => pure none
  | frame :: frames => do
    match ← named? frame name with
    | some value => pure (some value)
    | none => namedIn? name frames

def frameFor (s : Scope) (name : String) : Run Nat := do
  if s.globals.contains name then pure moduleFrame
  else if s.nonlocals.contains name then
    let found ← s.around.filterM fun frame => do pure (← named? frame name).isSome
    pure (found.headD s.frame)
  else pure s.frame

def makeFrame (names : List (String × Datum)) : Run Nat :=
  allocate (.entries (withEntries [] (names.map fun (n, v) => (.text n, v))))

/-! ## Exceptions -/

def raiseWith {α : Type} (name : String) (args : List Datum) : Run α := do
  let attributes ← makeFrame [("args", .tuple args), ("value", args.headD .nothing)]
  let failure ← make (.record (.standard name) attributes)
  throw (.raised failure)

def raise {α : Type} (name : String) : Run α := raiseWith name []

end Run

end JexlScript.Routine
