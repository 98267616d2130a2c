import JexlScript.Names
import JexlScript.Script.Basic

/-!
# Parts and names of a tree

`Node.children` lists the direct parts of a node in reading order, `Node.walk`
all parts, each before its own. `Node.names` collects the names that a tree
reads or binds, and `declared` those that a function body declares outside its
nested arrows.
-/

namespace JexlScript.Script

/-! ## Direct parts -/

def patternNodes (params : List Param) : List Node :=
  params.filterMap fun
    | .name _ => none
    | .pattern names => some (.pattern names)

def Expr.children : Expr → List Node
  | .ident _ | .lit _ | .undefined => []
  | .array es => es.map .expr
  | .object ps => ps.map fun (_, e) => .expr e
  | .member obj prop _ _ => [.expr obj, .expr prop]
  | .call f args | .new f args => .expr f :: args.map .expr
  | .unary _ e => [.expr e]
  | .binary l _ r | .logical l _ r => [.expr l, .expr r]
  | .ternary c y n => [.expr c, .expr y, .expr n]
  | .arrow ps body => patternNodes ps ++ [.expr body]
  | .arrowBlock ps body | .function _ ps body => patternNodes ps ++ [.stmt (.block body)]

def Stmt.children : Stmt → List Node
  | .ret e | .expr e | .assign _ e => [.expr e]
  | .retNothing | .bare _ => []
  | .cond c yes no => .expr c :: yes.map .stmt ++ no.map .stmt
  | .block body => body.map .stmt
  | .function _ ps body => patternNodes ps ++ [.stmt (.block body)]

def Node.children : Node → List Node
  | .expr e => e.children
  | .stmt s => s.children
  | .pattern _ => []
  | .program p => p.body.map .stmt

/-! ## All parts -/

mutual

def Expr.walk : Expr → List Node
  | .ident n => [.expr (.ident n)]
  | .lit v => [.expr (.lit v)]
  | .undefined => [.expr .undefined]
  | .array es => .expr (.array es) :: walkExprs es
  | .object ps => .expr (.object ps) :: walkProps ps
  | .member obj prop c o => .expr (.member obj prop c o) :: obj.walk ++ prop.walk
  | .call f args => .expr (.call f args) :: f.walk ++ walkExprs args
  | .new f args => .expr (.new f args) :: f.walk ++ walkExprs args
  | .unary op e => .expr (.unary op e) :: e.walk
  | .binary l op r => .expr (.binary l op r) :: l.walk ++ r.walk
  | .logical l op r => .expr (.logical l op r) :: l.walk ++ r.walk
  | .ternary c y n => .expr (.ternary c y n) :: c.walk ++ y.walk ++ n.walk
  | .arrow ps body => .expr (.arrow ps body) :: patternNodes ps ++ body.walk
  | .arrowBlock ps body =>
    .expr (.arrowBlock ps body) :: patternNodes ps ++ .stmt (.block body) :: walkStmts body
  | .function n ps body =>
    .expr (.function n ps body) :: patternNodes ps ++ .stmt (.block body) :: walkStmts body

def walkExprs : List Expr → List Node
  | [] => []
  | e :: es => e.walk ++ walkExprs es

def walkProps : List (String × Expr) → List Node
  | [] => []
  | (_, e) :: ps => e.walk ++ walkProps ps

def Stmt.walk : Stmt → List Node
  | .ret e => .stmt (.ret e) :: e.walk
  | .retNothing => [.stmt .retNothing]
  | .expr e => .stmt (.expr e) :: e.walk
  | .assign t e => .stmt (.assign t e) :: e.walk
  | .bare t => [.stmt (.bare t)]
  | .cond c yes no => .stmt (.cond c yes no) :: c.walk ++ walkStmts yes ++ walkStmts no
  | .block body => .stmt (.block body) :: walkStmts body
  | .function n ps body =>
    .stmt (.function n ps body) :: patternNodes ps ++ .stmt (.block body) :: walkStmts body

def walkStmts : List Stmt → List Node
  | [] => []
  | s :: ss => s.walk ++ walkStmts ss

end

def Node.walk : Node → List Node
  | .expr e => e.walk
  | .stmt s => s.walk
  | .pattern names => [.pattern names]
  | .program p => .program p :: walkStmts p.body

/-! ## Names read or bound -/

mutual

/-- The names that an expression reads or binds. The property of a plain
member access is not a name. -/
def Expr.names : Expr → List String
  | .ident n => [n]
  | .lit _ | .undefined => []
  | .array es => exprNames es
  | .object ps => propNames ps
  | .member obj prop computed _ => if computed then obj.names ++ prop.names else obj.names
  | .call f args => f.names ++ exprNames args
  | .new f args => f.names ++ exprNames args
  | .unary _ e => e.names
  | .binary l _ r => l.names ++ r.names
  | .logical l _ r => l.names ++ r.names
  | .ternary c y n => c.names ++ y.names ++ n.names
  | .arrow ps body => paramNames ps ++ body.names
  | .arrowBlock ps body => paramNames ps ++ stmtNames body
  | .function _ _ body => stmtNames body

def exprNames : List Expr → List String
  | [] => []
  | e :: es => e.names ++ exprNames es

def propNames : List (String × Expr) → List String
  | [] => []
  | (_, e) :: ps => e.names ++ propNames ps

def Stmt.names : Stmt → List String
  | .ret e => e.names
  | .retNothing => []
  | .expr e => e.names
  | .assign t e => t.name :: e.names
  | .bare t => [t.name]
  | .cond c yes no => c.names ++ stmtNames yes ++ stmtNames no
  | .block body => stmtNames body
  | .function _ _ body => stmtNames body

def stmtNames : List Stmt → List String
  | [] => []
  | s :: ss => s.names ++ stmtNames ss

end

def Node.names : Node → List String
  | .expr e => e.names
  | .stmt s => s.names
  | .pattern _ => []
  | .program p => stmtNames p.body

/-! ## Names assigned to -/

def Node.assigned? : Node → Option String
  | .stmt (.assign t _) | .stmt (.bare t) => some t.name
  | _ => none

/-! ## Names declared in a body -/

def Target.declared (t : Target) : List String :=
  if t.declare.isSome then [t.name] else []

mutual

/-- The declarations in an expression outside its arrows, later parts
first. -/
def Expr.declarations : Expr → List String
  | .ident _ | .lit _ | .undefined => []
  | .array es => exprDeclarations es
  | .object ps => propDeclarations ps
  | .member obj prop _ _ => prop.declarations ++ obj.declarations
  | .call f args => exprDeclarations args ++ f.declarations
  | .new f args => exprDeclarations args ++ f.declarations
  | .unary _ e => e.declarations
  | .binary l _ r => r.declarations ++ l.declarations
  | .logical l _ r => r.declarations ++ l.declarations
  | .ternary c y n => n.declarations ++ y.declarations ++ c.declarations
  | .arrow _ _ | .arrowBlock _ _ => []
  | .function _ _ body => stmtDeclarations body

def exprDeclarations : List Expr → List String
  | [] => []
  | e :: es => exprDeclarations es ++ e.declarations

def propDeclarations : List (String × Expr) → List String
  | [] => []
  | (_, e) :: ps => propDeclarations ps ++ e.declarations

/-- The declarations in a statement outside its arrows, its own first and then
later parts first. -/
def Stmt.declarations : Stmt → List String
  | .ret e => e.declarations
  | .retNothing => []
  | .expr e => e.declarations
  | .assign t e => t.declared ++ e.declarations
  | .bare t => t.declared
  | .cond c yes no => stmtDeclarations no ++ stmtDeclarations yes ++ c.declarations
  | .block body => stmtDeclarations body
  | .function _ _ body => stmtDeclarations body

def stmtDeclarations : List Stmt → List String
  | [] => []
  | s :: ss => stmtDeclarations ss ++ s.declarations

end

end JexlScript.Script
