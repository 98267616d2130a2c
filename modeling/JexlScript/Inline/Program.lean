import JexlScript.Inline.Prune
import JexlScript.Inline.Substitution

/-!
# Inlining a function

`inlineProgram` puts arguments in the place of the parameters of a program's
first function and gives the expression that its call amounts to: the returned
value where the body is one `return`, else the body wrapped into a function
that is called on the spot.
-/

namespace JexlScript.Inline

open Script

inductive Body where
  | expr (expr : Expr)
  | block (body : List Stmt)

namespace Body

def walk : Body → List Node
  | .expr e => e.walk
  | .block body => (Stmt.block body).walk

def names : Body → List String
  | .expr e => e.names
  | .block body => stmtNames body

/-- Substitutes in a body, whose declarations are protected first. -/
def subst (scope : Scope) : Body → Naming Body
  | .expr e => do
    let inner ← scope.enter [] (declaredInExpr e)
    let e ← substExpr inner e
    pure (.expr e)
  | .block body => do
    let inner ← scope.enter [] (declaredInBlock body)
    let body ← substStmts inner body
    pure (.block body)

def prune : Body → Body
  | .expr e => .expr e.prune
  | .block body => .block (pruneStmts body)

def toExpr : Body → Expr
  | .expr e => e
  | .block [.ret e] => e
  | .block body => .call (.arrowBlock [] body) []

end Body

structure Template where
  params : List Param
  body : Body

def Template.ofExpr? : Expr → Option Template
  | .arrow params body => some ⟨params, .expr body⟩
  | .arrowBlock params body => some ⟨params, .block body⟩
  | .function _ params body => some ⟨params, .block body⟩
  | _ => none

/-- The function that a program starts with, as a declaration or as an
expression. -/
def Template.ofProgram? (program : Program) : Option Template :=
  match program.body with
  | .expr e :: _ => Template.ofExpr? e
  | .function _ params body :: _ => some ⟨params, .block body⟩
  | _ => none

/-- The arguments by parameter name: a parameter without an argument stands for
`undefined`, and of two parameters with one name the later counts. A
destructured parameter takes up its argument without a name for it. -/
def bindArgs : List Param → List Expr → List (String × Expr)
  | [], _ => []
  | .name n :: params, args => bindArgs params args.tail ++ [(n, args.head?.getD .undefined)]
  | .pattern _ :: params, args => bindArgs params args.tail

def Body.assigns (body : Body) (names : List String) : Bool :=
  body.walk.any fun n =>
    match n.assigned? with
    | some name => names.contains name
    | none => false

/-- Inlines a function. A parameter that the body assigns to cannot be replaced
by an expression, so such a function is refused. -/
def Template.inline? (t : Template) (args : List Expr) : Option Expr :=
  let replacements := bindArgs t.params args
  if t.body.assigns (replacements.map Prod.fst) then none
  else
    let reserved := exprNames args
    let body := (t.body.subst ⟨replacements, [], reserved⟩).run (reserved ++ t.body.names)
    some (Id.run body).1.prune.toExpr

/-- Inlines the first function of a program, unless the program has none or it
assigns to a parameter. -/
def inlineProgram? (program : Program) (args : List Expr) : Option Expr := do
  let template ← Template.ofProgram? program
  template.inline? args

end JexlScript.Inline
