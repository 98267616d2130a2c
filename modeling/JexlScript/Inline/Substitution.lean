import JexlScript.Script.Walk

/-!
# Substitution

Replaces parameters by argument trees, one scope at a time. A binder of the
body that shares its name with something an argument mentions is renamed, so
that no argument is captured; a binder that shadows a parameter ends its
replacement.
-/

namespace JexlScript.Inline

open Script

/-- Computations that choose new names; the state holds the names that are
taken. -/
abbrev Naming := StateM (List String)

/-- The `i`-th variant of a name. -/
def variantName (name : String) (i : Nat) : String := name ++ "_" ++ toString i

/-- The first free variant of a name, counting on from `i`; `fuel` bounds the
search. -/
def firstFree (taken : List String) (name : String) : (fuel i : Nat) → String
  | 0, i => variantName name i
  | fuel + 1, i =>
    if taken.contains (variantName name i) then firstFree taken name fuel (i + 1)
    else variantName name i

/-- The first variant of a name that is not taken. Among more variants than
there are taken names one is free. -/
def freshName (taken : List String) (name : String) : String :=
  firstFree taken name taken.length 1

def fresh (name : String) : Naming String := do
  let taken ← get
  let chosen := freshName taken name
  set (chosen :: taken)
  pure chosen

structure Scope where
  replacements : List (String × Expr)
  renames : List (String × String)
  reserved : List String

namespace Scope

/-- Gives a binder a fresh name if an argument mentions its own. -/
def protect (scope : Scope) (name : String) : Naming Scope :=
  if scope.reserved.contains name then do
    let chosen ← fresh name
    pure { scope with renames := (name, chosen) :: scope.renames }
  else pure scope

def protectAll : Scope → List String → Naming Scope
  | scope, [] => pure scope
  | scope, name :: names => do
    let scope ← scope.protect name
    scope.protectAll names

/-- The scope inside a function: its own names hide those outside, and its
plain parameters and declarations are protected. Names taken out of an object
stay, since they say which properties are read. -/
def enter (scope : Scope) (params : List Param) (declared : List String) : Naming Scope :=
  let own := paramNames params ++ declared
  if own.isEmpty then pure scope
  else
    protectAll
      { scope with
        replacements := scope.replacements.filter fun (name, _) => !own.contains name
        renames := scope.renames.filter fun (name, _) => !own.contains name }
      (params.filterMap Param.name? ++ declared)

def rename (scope : Scope) (name : String) : String :=
  (scope.renames.lookup name).getD name

def resolve (scope : Scope) (name : String) : Expr :=
  match scope.renames.lookup name with
  | some chosen => .ident chosen
  | none => (scope.replacements.lookup name).getD (.ident name)

def renameParam (scope : Scope) : Param → Param
  | .name n => .name (scope.rename n)
  | .pattern names => .pattern names

/-- The left side of an assignment with its new name. -/
def renameTarget (scope : Scope) (t : Target) : Target :=
  { t with name := scope.rename t.name }

end Scope

def declaredInExpr (body : Expr) : List String := Names.distinct body.declarations

def declaredInBlock (body : List Stmt) : List String := Names.distinct (stmtDeclarations body)

mutual

def substExpr (scope : Scope) : Expr → Naming Expr
  | .ident n => pure (scope.resolve n)
  | .lit v => pure (.lit v)
  | .undefined => pure .undefined
  | .array es => do
    let es ← substExprs scope es
    pure (.array es)
  | .object ps => do
    let ps ← substProps scope ps
    pure (.object ps)
  | .member obj prop computed optional => do
    let obj ← substExpr scope obj
    let prop ← if computed then substExpr scope prop else pure prop
    pure (.member obj prop computed optional)
  | .call f args => do
    let f ← substExpr scope f
    let args ← substExprs scope args
    pure (.call f args)
  | .new f args => do
    let f ← substExpr scope f
    let args ← substExprs scope args
    pure (.new f args)
  | .unary op e => do
    let e ← substExpr scope e
    pure (.unary op e)
  | .binary l op r => do
    let l ← substExpr scope l
    let r ← substExpr scope r
    pure (.binary l op r)
  | .logical l op r => do
    let l ← substExpr scope l
    let r ← substExpr scope r
    pure (.logical l op r)
  | .ternary c y n => do
    let c ← substExpr scope c
    let y ← substExpr scope y
    let n ← substExpr scope n
    pure (.ternary c y n)
  | .arrow params body => do
    let inner ← scope.enter params (declaredInExpr body)
    let body ← substExpr inner body
    pure (.arrow (params.map inner.renameParam) body)
  | .arrowBlock params body => do
    let inner ← scope.enter params (declaredInBlock body)
    let body ← substStmts inner body
    pure (.arrowBlock (params.map inner.renameParam) body)
  | .function n params body => do
    let body ← substStmts scope body
    pure (.function n params body)

def substExprs (scope : Scope) : List Expr → Naming (List Expr)
  | [] => pure []
  | e :: es => do
    let e ← substExpr scope e
    let es ← substExprs scope es
    pure (e :: es)

def substProps (scope : Scope) : List (String × Expr) → Naming (List (String × Expr))
  | [] => pure []
  | (k, e) :: ps => do
    let e ← substExpr scope e
    let ps ← substProps scope ps
    pure ((k, e) :: ps)

def substStmt (scope : Scope) : Stmt → Naming Stmt
  | .ret e => do
    let e ← substExpr scope e
    pure (.ret e)
  | .retNothing => pure .retNothing
  | .expr e => do
    let e ← substExpr scope e
    pure (.expr e)
  | .assign t e => do
    let e ← substExpr scope e
    pure (.assign (scope.renameTarget t) e)
  | .bare t => pure (.bare (scope.renameTarget t))
  | .cond c yes no => do
    let c ← substExpr scope c
    let yes ← substStmts scope yes
    let no ← substStmts scope no
    pure (.cond c yes no)
  | .block body => do
    let body ← substStmts scope body
    pure (.block body)
  | .function n params body => do
    let body ← substStmts scope body
    pure (.function n params body)

def substStmts (scope : Scope) : List Stmt → Naming (List Stmt)
  | [] => pure []
  | s :: ss => do
    let s ← substStmt scope s
    let ss ← substStmts scope ss
    pure (s :: ss)

end

end JexlScript.Inline
