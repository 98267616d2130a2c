import JexlScript.Scalar

/-!
# Script trees

The JavaScript trees that formulas and routines are turned into: expressions,
statements, and the programs that a routine becomes. Operators are kept as
their symbols, so a tree may hold a symbol that no script knows.
-/

namespace JexlScript.Script

inductive Param where
  | name (name : String)
  /-- Names taken out of an object: `{a, b}`. -/
  | pattern (names : List String)
deriving DecidableEq, Repr

inductive Keyword where
  /-- `let` -/
  | «let»
  /-- `const` -/
  | const
deriving DecidableEq, Repr

/-- The left side of an assignment: the name, the keyword if it is declared
there, and the operator of an assignment such as `x += 1`. -/
structure Target where
  name : String
  declare : Option Keyword
  op : Option String
deriving DecidableEq, Repr

mutual

inductive Expr where
  | ident (name : String)
  | lit (value : Scalar)
  /-- `undefined`, which also marks an argument missing at a call. -/
  | undefined
  /-- `[a, b]` -/
  | array (elements : List Expr)
  /-- `{key: value}`, with order and repeated keys kept. -/
  | object (props : List (String × Expr))
  /-- `obj.prop`, `obj[prop]` and the forms with `?.`. -/
  | member (obj prop : Expr) (computed optional : Bool)
  /-- `callee(args)` -/
  | call (callee : Expr) (args : List Expr)
  /-- `new ctor(args)` -/
  | new (ctor : Expr) (args : List Expr)
  /-- `-x`, `!x`, `typeof x` -/
  | unary (op : String) (operand : Expr)
  /-- `x + y` -/
  | binary (left : Expr) (op : String) (right : Expr)
  /-- `x && y`, `x || y`, `x ?? y` -/
  | logical (left : Expr) (op : String) (right : Expr)
  /-- `cond ? yes : no` -/
  | ternary (cond yes no : Expr)
  /-- `(params) => body` with an expression as body. -/
  | arrow (params : List Param) (body : Expr)
  /-- `(params) => { body }` -/
  | arrowBlock (params : List Param) (body : List Stmt)
  /-- `function name(params) { body }` in the place of a value. -/
  | function (name : String) (params : List Param) (body : List Stmt)

inductive Stmt where
  /-- `return value;` -/
  | ret (value : Expr)
  /-- `return;` -/
  | retNothing
  /-- `expr;` -/
  | expr (expr : Expr)
  /-- `target = value;` -/
  | assign (target : Target) (value : Expr)
  /-- `let x;` -/
  | bare (target : Target)
  /-- `if (cond) { yes } else { no }` -/
  | cond (cond : Expr) (yes no : List Stmt)
  /-- `{ body }` -/
  | block (body : List Stmt)
  /-- `function name(params) { body }` -/
  | function (name : String) (params : List Param) (body : List Stmt)

end

instance : Inhabited Expr := ⟨.undefined⟩
instance : Inhabited Stmt := ⟨.retNothing⟩

/-- A list of statements, as a routine is turned into. -/
structure Program where
  body : List Stmt

/-- Any part of a tree that stands on its own. -/
inductive Node where
  | expr (expr : Expr)
  | stmt (stmt : Stmt)
  | pattern (names : List String)
  | program (program : Program)

namespace Expr

def dot (obj : Expr) (prop : String) : Expr := .member obj (.ident prop) false false

def index (obj index : Expr) : Expr := .member obj index true false

def invoke (obj : Expr) (method : String) (args : List Expr) : Expr :=
  .call (obj.dot method) args

/-- Whether the expression is `undefined`, as the placeholder or as the name. -/
def isUndefined : Expr → Bool
  | .undefined => true
  | .ident name => name == "undefined"
  | _ => false

end Expr

def Param.names : Param → List String
  | .name n => [n]
  | .pattern names => names

def Param.name? : Param → Option String
  | .name n => some n
  | .pattern _ => none

def paramNames (params : List Param) : List String := params.flatMap Param.names

/-! ## Equality -/

mutual

def Expr.same : Expr → Expr → Bool
  | .ident a => fun | .ident b => a == b | _ => false
  | .lit a => fun | .lit b => a == b | _ => false
  | .undefined => fun | .undefined => true | _ => false
  | .array as => fun | .array bs => sameExprs as bs | _ => false
  | .object as => fun | .object bs => sameProps as bs | _ => false
  | .member a p c o => fun
    | .member b q d r => a.same b && p.same q && c == d && o == r
    | _ => false
  | .call f as => fun | .call g bs => f.same g && sameExprs as bs | _ => false
  | .new f as => fun | .new g bs => f.same g && sameExprs as bs | _ => false
  | .unary o a => fun | .unary p b => o == p && a.same b | _ => false
  | .binary a o b => fun | .binary c p d => a.same c && o == p && b.same d | _ => false
  | .logical a o b => fun | .logical c p d => a.same c && o == p && b.same d | _ => false
  | .ternary a b c => fun | .ternary d e f => a.same d && b.same e && c.same f | _ => false
  | .arrow ps a => fun | .arrow qs b => ps == qs && a.same b | _ => false
  | .arrowBlock ps as => fun | .arrowBlock qs bs => ps == qs && sameStmts as bs | _ => false
  | .function n ps as => fun
    | .function m qs bs => n == m && ps == qs && sameStmts as bs
    | _ => false

def sameExprs : List Expr → List Expr → Bool
  | [] => List.isEmpty
  | a :: as => fun | b :: bs => a.same b && sameExprs as bs | [] => false

def sameProps : List (String × Expr) → List (String × Expr) → Bool
  | [] => List.isEmpty
  | (k, a) :: as => fun | (l, b) :: bs => k == l && a.same b && sameProps as bs | [] => false

def Stmt.same : Stmt → Stmt → Bool
  | .ret a => fun | .ret b => a.same b | _ => false
  | .retNothing => fun | .retNothing => true | _ => false
  | .expr a => fun | .expr b => a.same b | _ => false
  | .assign t a => fun | .assign u b => t == u && a.same b | _ => false
  | .bare t => fun | .bare u => t == u | _ => false
  | .cond a as bs => fun
    | .cond b cs ds => a.same b && sameStmts as cs && sameStmts bs ds
    | _ => false
  | .block as => fun | .block bs => sameStmts as bs | _ => false
  | .function n ps as => fun
    | .function m qs bs => n == m && ps == qs && sameStmts as bs
    | _ => false

def sameStmts : List Stmt → List Stmt → Bool
  | [] => List.isEmpty
  | a :: as => fun | b :: bs => a.same b && sameStmts as bs | [] => false

end

def Program.same (p q : Program) : Bool := sameStmts p.body q.body

def Node.same : Node → Node → Bool
  | .expr a, .expr b => a.same b
  | .stmt a, .stmt b => a.same b
  | .pattern a, .pattern b => a == b
  | .program a, .program b => a.same b
  | _, _ => false

end JexlScript.Script
