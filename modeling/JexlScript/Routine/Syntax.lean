import JexlScript.Scalar
import JexlScript.Text.Points

/-!
# Routines

The tree of a function written in Python. Expressions are kept whole, since
messages may spell them out. Of statements no more is kept than their kind,
which messages tell, and what decides which functions a run of them defines.
-/

namespace JexlScript.Routine

/-- A part of a text, by the numbers of characters before its start and its
end. -/
structure Span where
  start : Nat
  stop : Nat
deriving DecidableEq, Repr

/-! ## Operators -/

inductive BinOp where
  | add
  | sub
  | mult
  | matMult
  | div
  | mod
  | pow
  | lShift
  | rShift
  | bitOr
  | bitXor
  | bitAnd
  | floorDiv
deriving DecidableEq, Repr

def BinOp.kindName : BinOp → String
  | .add => "Add"
  | .sub => "Sub"
  | .mult => "Mult"
  | .matMult => "MatMult"
  | .div => "Div"
  | .mod => "Mod"
  | .pow => "Pow"
  | .lShift => "LShift"
  | .rShift => "RShift"
  | .bitOr => "BitOr"
  | .bitXor => "BitXor"
  | .bitAnd => "BitAnd"
  | .floorDiv => "FloorDiv"

def BinOp.symbol : BinOp → String
  | .add => "+"
  | .sub => "-"
  | .mult => "*"
  | .matMult => "@"
  | .div => "/"
  | .mod => "%"
  | .pow => "**"
  | .lShift => "<<"
  | .rShift => ">>"
  | .bitOr => "|"
  | .bitXor => "^"
  | .bitAnd => "&"
  | .floorDiv => "//"

inductive UnaryOp where
  | plus
  | minus
  | not
  | invert
deriving DecidableEq, Repr

def UnaryOp.symbol : UnaryOp → String
  | .plus => "+"
  | .minus => "-"
  | .not => "not "
  | .invert => "~"

inductive BoolOp where
  | and
  | or
deriving DecidableEq, Repr

def BoolOp.symbol : BoolOp → String
  | .and => "and"
  | .or => "or"

inductive CmpOp where
  | eq
  | notEq
  | lt
  | ltE
  | gt
  | gtE
  | is
  | isNot
  | in
  | notIn
deriving DecidableEq, Repr

def CmpOp.symbol : CmpOp → String
  | .eq => "=="
  | .notEq => "!="
  | .lt => "<"
  | .ltE => "<="
  | .gt => ">"
  | .gtE => ">="
  | .is => "is"
  | .isNot => "is not"
  | .in => "in"
  | .notIn => "not in"

/-! ## Expressions -/

inductive Constant where
  | none
  /-- `True` or `False` -/
  | bool (value : Bool)
  | int (value : Int)
  | double (value : Double)
  | imaginary (value : Double)
  /-- A text, and whether it is marked with `u`. -/
  | text (value : Text.Points) (marked : Bool)
  | bytes (values : List Nat)
  | ellipsis
deriving DecidableEq, Repr

structure Params (α : Type) where
  positional : List String
  ordinary : List String
  rest : Option String
  named : List String
  namedRest : Option String
  defaults : List α
  namedDefaults : List (Option α)
deriving DecidableEq, Repr

def Params.empty {α : Type} : Params α := ⟨[], [], none, [], none, [], []⟩

inductive Built where
  | list
  | iterator
  | set
deriving DecidableEq, Repr

def Built.kindName : Built → String
  | .list => "ListComp"
  | .iterator => "GeneratorExp"
  | .set => "SetComp"

mutual

inductive Expr where
  | const (value : Constant)
  | name (id : String)
  /-- `[a, b]` -/
  | list (elements : List Expr)
  /-- `(a, b)` -/
  | tuple (elements : List Expr)
  /-- `{a, b}` -/
  | set (elements : List Expr)
  /-- `{a: b, **c}` -/
  | dict (entries : List Entry)
  /-- `a + b` -/
  | binary (left : Expr) (op : BinOp) (right : Expr)
  /-- `-a` -/
  | unary (op : UnaryOp) (operand : Expr)
  /-- `a and b and c` -/
  | bool (op : BoolOp) (values : List Expr)
  /-- `a < b <= c` -/
  | compare (left : Expr) (rest : List (CmpOp × Expr))
  /-- `yes if test else no` -/
  | ifExp (test yes no : Expr)
  /-- `f(a, k=b, **c)`; the name of the last is missing. -/
  | call (func : Expr) (args : List Expr) (keywords : List (Option String × Expr))
  /-- `a.b` -/
  | attribute (value : Expr) (attr : String)
  /-- `a[b]` -/
  | subscript (value index : Expr)
  /-- `lower:upper:step` between brackets. -/
  | slice (lower upper step : Option Expr)
  /-- `lambda params: body`, with the place of its text. -/
  | lambda (params : Params Expr) (body : Expr) (span : Span)
  | comprehension (built : Built) (element : Expr) (generators : List Generator)
  | dictComp (key value : Expr) (generators : List Generator)
  /-- `*a` -/
  | starred (value : Expr)
  /-- `(target := value)` -/
  | named (target : String) (value : Expr)
  /-- `await value` -/
  | await (value : Expr)
  /-- `yield value` -/
  | yield (value : Option Expr)
  /-- `yield from value` -/
  | yieldFrom (value : Expr)
  | joined (parts : List Part)

inductive Entry where
  /-- `key: value` -/
  | pair (key value : Expr)
  /-- `**value` -/
  | spread (value : Expr)

inductive Generator where
  | mk (target iterable : Expr) (conditions : List Expr) (isAsync : Bool)

inductive Part where
  | text (value : Text.Points)
  /-- `{value!conversion:format}` -/
  | value (value : Expr) (conversion : Option Char) (format : Option (List Part))

end

instance : Inhabited Expr := ⟨.const .ellipsis⟩

/-! ## Statements -/

/-- A pattern of a `match`. -/
inductive Pattern where
  | value (value : Expr)
  /-- A name that takes what it meets; `_` takes it without a name. -/
  | capture (name : Option String)
  /-- `[a, b]` -/
  | sequence (members : List Pattern)
  /-- `*a` in a sequence. -/
  | star (name : Option String)
  /-- `{key: value, **rest}` -/
  | mapping (entries : List (Expr × Pattern)) (rest : Option String)
  /-- `Class(a, b=c)` -/
  | ofClass (type : Expr) (args : List Pattern) (named : List (String × Pattern))
  /-- `a | b` -/
  | either (options : List Pattern)
  /-- `a as b` -/
  | named (pattern : Pattern) (name : String)

instance : Inhabited Pattern := ⟨.capture none⟩

def Pattern.isStar : Pattern → Bool
  | .star _ => true
  | _ => false

mutual

inductive Stmt where
  /-- `def name[types](params): body`; `start` is where its text starts, decorators
  included. Annotations are not kept. -/
  | function (isAsync : Bool) (name : String) (params : Params Expr) (types : List String)
      (body : List Stmt) (start : Nat) (decorators : List Expr)
  /-- `class name[types](bases, keywords): body` -/
  | «class» (name : String) (types : List String) (bases : List Expr)
      (keywords : List (Option String × Expr)) (body : List Stmt) (decorators : List Expr)
  /-- `return value` -/
  | ret (value : Option Expr)
  | pass
  | expr (value : Expr)
  /-- `a = b = value` -/
  | assign (targets : List Expr) (value : Expr)
  /-- `target: mark = value` -/
  | annAssign (target mark : Expr) (value : Option Expr)
  /-- `target += value` -/
  | augAssign (target : Expr) (op : BinOp) (value : Expr)
  /-- `if test: yes else: no` -/
  | cond (test : Expr) (yes no : List Stmt)
  /-- `for target in iterable: body else: other` -/
  | loop (isAsync : Bool) (target iterable : Expr) (body other : List Stmt)
  /-- `while test: body else: other` -/
  | «while» (test : Expr) (body other : List Stmt)
  /-- `with item as target, …: body` -/
  | context (isAsync : Bool) (items : List (Expr × Option Expr)) (body : List Stmt)
  /-- `try: body`, its handlers, `else: other`, `finally: last`; the handlers may
  be for groups of exceptions. -/
  | attempt (forGroups : Bool) (body : List Stmt) (handlers : List Handler)
      (other last : List Stmt)
  /-- `raise value from cause` -/
  | raise (value cause : Option Expr)
  /-- `assert test, message` -/
  | assert (test : Expr) (message : Option Expr)
  /-- `del targets` -/
  | delete (targets : List Expr)
  /-- `type name = value`; the value is not evaluated. -/
  | typeAlias (name : String)
  /-- `import a.b as c, …` -/
  | «import» (modules : List (List String × Option String))
  /-- `from ..a.b import c as d, …`; without names everything is imported. -/
  | importFrom (isRelative : Bool) (module : List String) (names : List (String × Option String))
  /-- `global names` or `nonlocal names` -/
  | elsewhere (isGlobal : Bool) (names : List String)
  | «break»
  | «continue»
  /-- `match subject:` and its cases. -/
  | «match» (subject : Expr) (cases : List Case)

inductive Handler where
  /-- `except type as name: body` -/
  | mk (type : Option Expr) (name : Option String) (body : List Stmt)

inductive Case where
  /-- `case pattern if guard: body` -/
  | mk (pattern : Pattern) (guard : Option Expr) (body : List Stmt)

end

instance : Inhabited Stmt := ⟨.pass⟩

def Stmt.kindName : Stmt → String
  | .function isAsync .. => if isAsync then "AsyncFunctionDef" else "FunctionDef"
  | .class .. => "ClassDef"
  | .ret _ => "Return"
  | .pass => "Pass"
  | .expr _ => "Expr"
  | .assign .. => "Assign"
  | .annAssign .. => "AnnAssign"
  | .augAssign .. => "AugAssign"
  | .cond .. => "If"
  | .loop isAsync .. => if isAsync then "AsyncFor" else "For"
  | .while .. => "While"
  | .context isAsync .. => if isAsync then "AsyncWith" else "With"
  | .attempt forGroups .. => if forGroups then "TryStar" else "Try"
  | .raise .. => "Raise"
  | .assert .. => "Assert"
  | .delete _ => "Delete"
  | .typeAlias _ => "TypeAlias"
  | .import _ => "Import"
  | .importFrom .. => "ImportFrom"
  | .elsewhere isGlobal _ => if isGlobal then "Global" else "Nonlocal"
  | .break => "Break"
  | .continue => "Continue"
  | .match .. => "Match"

end JexlScript.Routine
