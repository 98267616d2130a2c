import JexlScript.Script.Basic

/-!
# Optional access

A formula reads a missing property as undefined, a script fails on it. So every
member access is made optional, unless its object is known to be there: a fresh
value, a global of the language, or a path that the caller vouches for.
-/

namespace JexlScript.Script

/-- A chain of names, `a.b.c`. -/
abbrev Path := List String

def alwaysDefined : List String :=
  ["Array", "BigInt", "Boolean", "Date", "Error", "Intl", "JSON", "Map", "Math", "Number",
    "Object", "Promise", "Proxy", "Reflect", "RegExp", "Set", "String", "Symbol", "WeakMap",
    "WeakSet", "globalThis"]

/-- The path that an expression spells, when it is a chain of plain accesses. -/
def Expr.path? : Expr → Option Path
  | .ident n => some [n]
  | .member obj (.ident n) false _ => obj.path?.map (· ++ [n])
  | _ => none

/-- What is known of an object without asking the caller. -/
inductive Knowledge where
  | defined
  | unknown
  | askCaller (path : Path)
deriving DecidableEq, Repr

def Expr.knowledge (obj : Expr) : Knowledge :=
  match obj with
  | .new .. | .array _ | .object _ => .defined
  | .lit v => if v = .null then .unknown else .defined
  | _ =>
    match obj.path? with
    | none => .unknown
    | some [n] => if alwaysDefined.contains n then .defined else .askCaller [n]
    | some path => .askCaller path

section

variable {m : Type → Type} [Monad m] (ask : Path → m Bool)

def Knowledge.optional : Knowledge → m Bool
  | .defined => pure false
  | .unknown => pure true
  | .askCaller path => do
    let defined ← ask path
    pure !defined

mutual

/-- Sets the flag of every member access of an expression, asking the caller
about paths in reading order: first for the object, then for the property, then
for the access itself. -/
def Expr.flag : Expr → m Expr
  | .ident n => pure (.ident n)
  | .lit v => pure (.lit v)
  | .undefined => pure .undefined
  | .array es => do
    let es ← flagExprs es
    pure (.array es)
  | .object ps => do
    let ps ← flagProps ps
    pure (.object ps)
  | .member obj prop computed _ => do
    let obj ← obj.flag
    let prop ← prop.flag
    let optional ← obj.knowledge.optional ask
    pure (.member obj prop computed optional)
  | .call f args => do
    let f ← f.flag
    let args ← flagExprs args
    pure (.call f args)
  | .new f args => do
    let f ← f.flag
    let args ← flagExprs args
    pure (.new f args)
  | .unary op e => do
    let e ← e.flag
    pure (.unary op e)
  | .binary l op r => do
    let l ← l.flag
    let r ← r.flag
    pure (.binary l op r)
  | .logical l op r => do
    let l ← l.flag
    let r ← r.flag
    pure (.logical l op r)
  | .ternary c y n => do
    let c ← c.flag
    let y ← y.flag
    let n ← n.flag
    pure (.ternary c y n)
  | .arrow ps body => do
    let body ← body.flag
    pure (.arrow ps body)
  | .arrowBlock ps body => do
    let body ← flagStmts body
    pure (.arrowBlock ps body)
  | .function n ps body => do
    let body ← flagStmts body
    pure (.function n ps body)

def flagExprs : List Expr → m (List Expr)
  | [] => pure []
  | e :: es => do
    let e ← e.flag
    let es ← flagExprs es
    pure (e :: es)

def flagProps : List (String × Expr) → m (List (String × Expr))
  | [] => pure []
  | (k, e) :: ps => do
    let e ← e.flag
    let ps ← flagProps ps
    pure ((k, e) :: ps)

def Stmt.flag : Stmt → m Stmt
  | .ret e => do
    let e ← e.flag
    pure (.ret e)
  | .retNothing => pure .retNothing
  | .expr e => do
    let e ← e.flag
    pure (.expr e)
  | .assign t e => do
    let e ← e.flag
    pure (.assign t e)
  | .bare t => pure (.bare t)
  | .cond c yes no => do
    let c ← c.flag
    let yes ← flagStmts yes
    let no ← flagStmts no
    pure (.cond c yes no)
  | .block body => do
    let body ← flagStmts body
    pure (.block body)
  | .function n ps body => do
    let body ← flagStmts body
    pure (.function n ps body)

def flagStmts : List Stmt → m (List Stmt)
  | [] => pure []
  | s :: ss => do
    let s ← s.flag
    let ss ← flagStmts ss
    pure (s :: ss)

end

end

def Node.flag {m : Type → Type} [Monad m] (ask : Path → m Bool) : Node → m Node
  | .expr e => do
    let e ← e.flag ask
    pure (.expr e)
  | .stmt s => do
    let s ← s.flag ask
    pure (.stmt s)
  | .pattern names => pure (.pattern names)
  | .program p => do
    let body ← flagStmts ask p.body
    pure (.program ⟨body⟩)

/-- The expression with optional accesses, given the paths that are known to be
defined. -/
def Expr.withOptional (defined : Path → Bool) (e : Expr) : Expr :=
  Id.run (e.flag fun path => pure (defined path))

def askNoting (defined : Path → Bool) (path : Path) : StateM (List Path) Bool := do
  modify (· ++ [path])
  pure (defined path)

def Node.withOptionalAsked (defined : Path → Bool) (n : Node) : Node × List Path :=
  StateT.run (n.flag (askNoting defined)) []

end JexlScript.Script
