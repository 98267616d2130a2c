import JexlScript.Script.Basic

/-!
# Missing arguments

Parameters without an argument are replaced by `undefined`. Where such a
placeholder ends up last in a call it says nothing and is dropped.
-/

namespace JexlScript.Script

def dropTrailingUndefined : List Expr → List Expr
  | [] => []
  | e :: es =>
    match dropTrailingUndefined es with
    | [] => if e.isUndefined then [] else [e]
    | rest => e :: rest

mutual

/-- Drops the trailing placeholders of every call in an expression, inner calls
first. -/
def Expr.prune : Expr → Expr
  | .ident n => .ident n
  | .lit v => .lit v
  | .undefined => .undefined
  | .array es => .array (pruneExprs es)
  | .object ps => .object (pruneProps ps)
  | .member obj prop computed optional => .member obj.prune prop.prune computed optional
  | .call f args => .call f.prune (dropTrailingUndefined (pruneExprs args))
  | .new f args => .new f.prune (pruneExprs args)
  | .unary op e => .unary op e.prune
  | .binary l op r => .binary l.prune op r.prune
  | .logical l op r => .logical l.prune op r.prune
  | .ternary c y n => .ternary c.prune y.prune n.prune
  | .arrow ps body => .arrow ps body.prune
  | .arrowBlock ps body => .arrowBlock ps (pruneStmts body)
  | .function n ps body => .function n ps (pruneStmts body)

def pruneExprs : List Expr → List Expr
  | [] => []
  | e :: es => e.prune :: pruneExprs es

def pruneProps : List (String × Expr) → List (String × Expr)
  | [] => []
  | (k, e) :: ps => (k, e.prune) :: pruneProps ps

def Stmt.prune : Stmt → Stmt
  | .ret e => .ret e.prune
  | .retNothing => .retNothing
  | .expr e => .expr e.prune
  | .assign t e => .assign t e.prune
  | .bare t => .bare t
  | .cond c yes no => .cond c.prune (pruneStmts yes) (pruneStmts no)
  | .block body => .block (pruneStmts body)
  | .function n ps body => .function n ps (pruneStmts body)

def pruneStmts : List Stmt → List Stmt
  | [] => []
  | s :: ss => s.prune :: pruneStmts ss

end

end JexlScript.Script
