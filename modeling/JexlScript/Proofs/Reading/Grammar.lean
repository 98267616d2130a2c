import JexlScript.Script.Basic
import JexlScript.Proofs.Reading.Lexer

/-!
# The expression grammar of scripts

A reader of expressions, from tokens to trees, with one function for each level
of the grammar: arrow functions and conditionals, the ten levels of operators
that group from the left, exponentiation, unary operators, and what a point, a
bracket or a parenthesis may follow. Forms that no printed expression takes
(assignments, spread elements, statements in arrow functions) are refused.
-/

namespace JexlScript.Script.Reading

/-- The words that are not read as names: those that code outside strict mode
reserves, with `await` and `yield`, which a module and the body of a generator
reserve besides. The words that strict mode adds, such as `let` and `static`, are
names here. -/
def reservedWords : List String :=
  ["await", "break", "case", "catch", "class", "const", "continue", "debugger", "default", "delete",
    "do", "else", "enum", "export", "extends", "false", "finally", "for", "function", "if",
    "import", "in", "instanceof", "new", "null", "return", "super", "switch", "this", "throw",
    "true", "try", "typeof", "var", "void", "while", "with", "yield"]

/-- The operators that group from the left, the weakest first. -/
def operatorLevels : List (List String) :=
  [["||"], ["&&"], ["|"], ["^"], ["&"], ["==", "!=", "===", "!=="],
    ["<", "<=", ">", ">=", "instanceof", "in"], ["<<", ">>", ">>>"], ["+", "-"], ["*", "/", "%"]]

/-- The infix operator that a token is, with its level. -/
def operator? : Token → Option (String × Nat)
  | .word s | .sign s => (operatorLevels.findIdx? (·.contains s)).map (s, ·)
  | _ => none

/-- The unary operator that a token is. -/
def unaryOperator? : Token → Option String
  | .word s => if s ∈ ["typeof", "void", "delete"] then some s else none
  | .sign s => if s ∈ ["!", "~", "+", "-"] then some s else none
  | _ => none

/-- The tree of an operator and its operands. -/
def infixed (l : Expr) (op : String) (r : Expr) : Expr :=
  if op = "&&" ∨ op = "||" then .logical l op r else .binary l op r

/-- Takes a sign. -/
def expect (s : String) : List Token → Option (List Token)
  | .sign t :: ts => if t = s then some ts else none
  | _ => none

/-- A reader gives what it has read and the tokens that are left, or fails. -/
abbrev Reader (α : Type) := List Token → Option (α × List Token)

/-! ## Arrow functions -/

/-- What stands behind the bracket that closes the given number of open ones. -/
def afterClose : Nat → List Token → List Token
  | _, [] => []
  | depth, .sign s :: ts =>
    if s = "(" ∨ s = "[" ∨ s = "\x7b" then afterClose (depth + 1) ts
    else if s = ")" ∨ s = "]" ∨ s = "\x7d" then
      match depth with
      | 0 => ts
      | depth + 1 => afterClose depth ts
    else afterClose depth ts
  | depth, _ :: ts => afterClose depth ts

/-- Whether an arrow function comes next: one looks for the arrow behind its parameters. -/
def startsArrow : List Token → Bool
  | .word _ :: ts => ts.head? == some (.sign "=>")
  | .sign s :: ts => s == "(" && (afterClose 0 ts).head? == some (.sign "=>")
  | _ => false

/-- A name that is bound by a parameter or a pattern, outside strict mode and
where `await` and `yield` are reserved. -/
def binding : List Token → Option (String × List Token)
  | .word n :: ts => if n ∈ reservedWords then none else some (n, ts)
  | _ => none

/-- Further names of a pattern, up to its brace. -/
def moreBindings : List Token → Option (List String × List Token)
  | .sign s :: .word n :: ts =>
    if s = "\x7d" then some ([], .word n :: ts)
    else if s = "," ∧ n ∉ reservedWords then do
      let (ns, ts) ← moreBindings ts
      some (n :: ns, ts)
    else none
  | .sign s :: ts => if s = "\x7d" then some ([], ts) else none
  | _ => none

/-- The names of a pattern, which may be empty. -/
def bindings (ts : List Token) : Option (List String × List Token) :=
  match expect "\x7d" ts with
  | some ts => some ([], ts)
  | none => do
    let (n, ts) ← binding ts
    let (ns, ts) ← moreBindings ts
    some (n :: ns, ts)

/-- A parameter: a name or a pattern. -/
def parameter (ts : List Token) : Option (Param × List Token) :=
  match expect "\x7b" ts with
  | some ts => do
    let (ns, ts) ← bindings ts
    some (.pattern ns, ts)
  | none => do
    let (n, ts) ← binding ts
    some (.name n, ts)

def moreParameters (ts : List Token) : Option (List Param × List Token) :=
  match expect ")" ts with
  | some ts => some ([], ts)
  | none => do
    let ts ← expect "," ts
    let (p, ts) ← parameter ts
    let (ps, ts) ← (by apply moreParameters : Reader (List Param)) ts
    some (p :: ps, ts)
partial_fixpoint

/-- The parameters of an arrow function, up to its body. -/
def parameters (ts : List Token) : Option (List Param × List Token) :=
  match expect "(" ts with
  | none => do
    let (n, ts) ← binding ts
    let ts ← expect "=>" ts
    some ([.name n], ts)
  | some ts =>
    match expect ")" ts with
    | some ts => do
      let ts ← expect "=>" ts
      some ([], ts)
    | none => do
      let (p, ts) ← parameter ts
      let (ps, ts) ← moreParameters ts
      let ts ← expect "=>" ts
      some (p :: ps, ts)

/-! ## Expressions -/

/-- Any word may name a member, also a reserved one. -/
def memberName : List Token → Option (String × List Token)
  | .word n :: ts => some (n, ts)
  | _ => none

/-- A key is a word or a string. -/
def propertyKey : List Token → Option (String × List Token)
  | .word k :: ts | .string k :: ts => some (k, ts)
  | _ => none

mutual

/-- An arrow function, a conditional, or what binds more tightly. -/
def assignment (ts : List Token) : Option (Expr × List Token) :=
  if startsArrow ts then do
    let (params, ts) ← parameters ts
    if ts.head? = some (.sign "\x7b") then none
    else
      let (body, ts) ← (by apply assignment : Reader Expr) ts
      some (.arrow params body, ts)
  else do
    let (test, ts) ← (by apply level : Nat → Reader Expr) 0 ts
    match expect "?" ts with
    | none => some (test, ts)
    | some ts =>
      let (yes, ts) ← (by apply assignment : Reader Expr) ts
      let ts ← expect ":" ts
      let (no, ts) ← (by apply assignment : Reader Expr) ts
      some (.ternary test yes no, ts)
partial_fixpoint

/-- Operators of one level, and all that bind more tightly. -/
def level (n : Nat) (ts : List Token) : Option (Expr × List Token) :=
  if n < operatorLevels.length then do
    let (left, ts) ← (by apply level : Nat → Reader Expr) (n + 1) ts
    (by apply operands : Nat → Expr → Reader Expr) n left ts
  else (by apply exponential : Reader Expr) ts
partial_fixpoint

/-- Further operators of a level, grouped from the left. -/
def operands (n : Nat) (left : Expr) : List Token → Option (Expr × List Token)
  | [] => some (left, [])
  | t :: ts =>
    match operator? t with
    | none => some (left, t :: ts)
    | some (op, l) =>
      if l = n then do
        let (right, ts) ← (by apply level : Nat → Reader Expr) (n + 1) ts
        (by apply operands : Nat → Expr → Reader Expr) n (infixed left op right) ts
      else some (left, t :: ts)
partial_fixpoint

/-- A power groups from the right, and no unary operator may stand before its base. -/
def exponential (ts : List Token) : Option (Expr × List Token) := do
  let (base, rest) ← (by apply unary : Reader Expr) ts
  match expect "**" rest with
  | none => some (base, rest)
  | some rest =>
    if (ts.head?.bind unaryOperator?).isSome then none
    else
      let (exponent, rest) ← (by apply exponential : Reader Expr) rest
      some (.binary base "**" exponent, rest)
partial_fixpoint

/-- Unary operators and what they apply to. -/
def unary : List Token → Option (Expr × List Token)
  | [] => none
  | t :: ts =>
    match unaryOperator? t with
    | none => (by apply leftHandSide : Reader Expr) (t :: ts)
    | some op => do
      let (e, ts) ← (by apply unary : Reader Expr) ts
      some (.unary op e, ts)
partial_fixpoint

/-- A head with its suffixes. -/
def leftHandSide (ts : List Token) : Option (Expr × List Token) := do
  let (e, ts) ← (by apply head : Reader Expr) ts
  (by apply suffixes : Expr → Reader Expr) e ts
partial_fixpoint

/-- Members, indices and calls behind an expression. -/
def suffixes (e : Expr) : List Token → Option (Expr × List Token)
  | [] => some (e, [])
  | .sign s :: ts =>
    if s = "." then do
      let (n, ts) ← memberName ts
      (by apply suffixes : Expr → Reader Expr) (.member e (.ident n) false false) ts
    else if s = "[" then do
      let (p, ts) ← (by apply assignment : Reader Expr) ts
      let ts ← expect "]" ts
      (by apply suffixes : Expr → Reader Expr) (.member e p true false) ts
    else if s = "(" then do
      let (args, ts) ← (by apply elements : String → Reader (List Expr)) ")" ts
      (by apply suffixes : Expr → Reader Expr) (.call e args) ts
    else if s = "?." then
      match expect "[" ts with
      | some ts => do
        let (p, ts) ← (by apply assignment : Reader Expr) ts
        let ts ← expect "]" ts
        (by apply suffixes : Expr → Reader Expr) (.member e p true true) ts
      | none => do
        let (n, ts) ← memberName ts
        (by apply suffixes : Expr → Reader Expr) (.member e (.ident n) false true) ts
    else some (e, .sign s :: ts)
  | t :: ts => some (e, t :: ts)
partial_fixpoint

/-- Members and indices only, as in a constructor. -/
def members (e : Expr) : List Token → Option (Expr × List Token)
  | .sign s :: ts =>
    if s = "." then do
      let (n, ts) ← memberName ts
      (by apply members : Expr → Reader Expr) (.member e (.ident n) false false) ts
    else if s = "[" then do
      let (p, ts) ← (by apply assignment : Reader Expr) ts
      let ts ← expect "]" ts
      (by apply members : Expr → Reader Expr) (.member e p true false) ts
    else some (e, .sign s :: ts)
  | ts => some (e, ts)
partial_fixpoint

/-- What suffixes may follow: a word, a literal, brackets, or a construction. -/
def head : List Token → Option (Expr × List Token)
  | .word s :: ts =>
    if s = "new" then do
      let (f, ts) ← (by apply head : Reader Expr) ts
      let (f, ts) ← (by apply members : Expr → Reader Expr) f ts
      let ts ← expect "(" ts
      let (args, ts) ← (by apply elements : String → Reader (List Expr)) ")" ts
      some (.new f args, ts)
    else if s = "null" then some (.lit .null, ts)
    else if s = "true" then some (.lit (.bool true), ts)
    else if s = "false" then some (.lit (.bool false), ts)
    else if s ∈ reservedWords then none
    else some (.ident s, ts)
  | .number d :: ts => some (.lit (.double d), ts)
  | .string s :: ts => some (.lit (.text s), ts)
  | .sign s :: ts =>
    if s = "(" then do
      let (e, ts) ← (by apply assignment : Reader Expr) ts
      let ts ← expect ")" ts
      some (e, ts)
    else if s = "[" then do
      let (es, ts) ← (by apply elements : String → Reader (List Expr)) "]" ts
      some (.array es, ts)
    else if s = "\x7b" then do
      let (ps, ts) ← (by apply properties : Reader (List (String × Expr))) ts
      some (.object ps, ts)
    else none
  | [] => none
partial_fixpoint

/-- Elements or arguments, up to the closing bracket. -/
def elements (close : String) (ts : List Token) : Option (List Expr × List Token) :=
  match expect close ts with
  | some ts => some ([], ts)
  | none => do
    let (e, ts) ← (by apply assignment : Reader Expr) ts
    let (es, ts) ← (by apply moreElements : String → Reader (List Expr)) close ts
    some (e :: es, ts)
partial_fixpoint

def moreElements (close : String) (ts : List Token) : Option (List Expr × List Token) :=
  match expect close ts with
  | some ts => some ([], ts)
  | none => do
    let ts ← expect "," ts
    let (e, ts) ← (by apply assignment : Reader Expr) ts
    let (es, ts) ← (by apply moreElements : String → Reader (List Expr)) close ts
    some (e :: es, ts)
partial_fixpoint

/-- The properties of an object, up to its brace. -/
def properties (ts : List Token) : Option (List (String × Expr) × List Token) :=
  match expect "\x7d" ts with
  | some ts => some ([], ts)
  | none => do
    let (k, ts) ← propertyKey ts
    let ts ← expect ":" ts
    let (e, ts) ← (by apply assignment : Reader Expr) ts
    let (ps, ts) ← (by apply moreProperties : Reader (List (String × Expr))) ts
    some ((k, e) :: ps, ts)
partial_fixpoint

def moreProperties (ts : List Token) : Option (List (String × Expr) × List Token) :=
  match expect "\x7d" ts with
  | some ts => some ([], ts)
  | none => do
    let ts ← expect "," ts
    let (k, ts) ← propertyKey ts
    let ts ← expect ":" ts
    let (e, ts) ← (by apply assignment : Reader Expr) ts
    let (ps, ts) ← (by apply moreProperties : Reader (List (String × Expr))) ts
    some ((k, e) :: ps, ts)
partial_fixpoint

end

/-- Reads a whole text. -/
def read (names : NameClass) (text : List Char) : Option Expr := do
  let ts ← tokens names text
  match assignment ts with
  | some (e, []) => some e
  | _ => none

end JexlScript.Script.Reading
