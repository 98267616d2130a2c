import JexlScript.Routine.Pattern

/-!
# Reading statements

`readModule` reads a whole text, `readSource` the text of one function. Blocks
are read by a function that the statements around them take as an argument;
`blockAt` closes the circle.
-/

namespace JexlScript.Routine

open Read

section

variable (k : Inner)

/-! ## Types -/

def typeMark : Read Unit := do
  if ← trySign ":" then
    let _ ← k.expression

/-- An annotation of the parameter that takes up further arguments. -/
def restType : Read Unit := do
  if ← trySign ":" then
    let _ ← starExpr k.expression k.bitOr

/-- A type parameter: one with stars before it has no bound. -/
def typeParam : Read String := do
  if (← trySign "*") || (← trySign "**") then name
  else
    let n ← name
    typeMark k
    pure n

/-- The names of the type parameters in brackets, where there are any. -/
def typeParams : Read (List String) := do
  if ← trySign "[" then
    let (names, _) ← commas (typeParam k)
    sign "]"
    pure names
  else pure []

/-! ## Simple statements -/

def rightSide : Read Expr := do
  if ← tryWord "yield" then yieldRest k.expression k.bitOr
  else starExprs k.expression k.bitOr

def Expr.isLeftSide : Expr → Bool
  | .starred e => e.isTarget
  | e => e.isTarget

/-- The rest of an assignment after a target and the sign: more targets, and
the value; `fuel` bounds their number. -/
def assignRest : (fuel : Nat) → (targets : List Expr) → Read Stmt
  | 0, _ => fail
  | fuel + 1, targets => do
    let e ← rightSide k
    if ← trySign "=" then
      require e.isLeftSide
      assignRest fuel (targets ++ [e])
    else pure (.assign targets e)

def augmentedOp : Read BinOp :=
  operatorOf
    [("+=", .add), ("-=", .sub), ("*=", .mult), ("@=", .matMult), ("/=", .div), ("%=", .mod),
      ("&=", .bitAnd), ("|=", .bitOr), ("^=", .bitXor), ("<<=", .lShift), (">>=", .rShift),
      ("**=", .pow), ("//=", .floorDiv)]

def exprStmt : Read Stmt := do
  let e ← starExprs k.expression k.bitOr
  if ← trySign "=" then
    require e.isLeftSide
    assignRest k (← left) [e]
  else if ← trySign ":" then
    require e.isPlace
    let mark ← k.expression
    if ← trySign "=" then
      let value ← rightSide k
      pure (.annAssign e mark (some value))
    else pure (.annAssign e mark none)
  else
    match ← attempt augmentedOp with
    | some op =>
      require e.isPlace
      let value ← rightSide k
      pure (.augAssign e op value)
    | none => pure (.expr e)

def strictCommas {α : Type} (item : Read α) : Read (List α) := do
  let (items, trailing) ← commas item
  require !trailing
  pure items

def importedAs : Read (Option String) := do
  if ← tryWord "as" then
    let n ← name
    pure (some n)
  else pure none

def importRest : Read Stmt := do
  let modules ← strictCommas do
    let path ← dottedName
    let other ← importedAs
    pure (path, other)
  pure (.import modules)

def importedName : Read (String × Option String) := do
  let n ← name
  let other ← importedAs
  pure (n, other)

def fromRest : Read Stmt := do
  let dots ← many do
    if !(← trySign ".") then sign "..."
  let from? ← attempt dottedName
  require (!dots.isEmpty || from?.isSome)
  word "import"
  let path := from?.getD []
  let isRelative := !dots.isEmpty
  if ← trySign "*" then pure (.importFrom isRelative path [])
  else if ← trySign "(" then
    let (names, _) ← commas importedName
    sign ")"
    pure (.importFrom isRelative path names)
  else
    let names ← strictCommas importedName
    pure (.importFrom isRelative path names)

def raiseRest : Read Stmt := do
  match ← attempt k.expression with
  | none => pure (.raise none none)
  | some e =>
    if ← tryWord "from" then
      let cause ← k.expression
      pure (.raise (some e) (some cause))
    else pure (.raise (some e) none)

def delRest : Read Stmt := do
  let (targets, _) ← commas k.primary
  require (areDeletable targets)
  pure (.delete targets)

def assertRest : Read Stmt := do
  let test ← k.expression
  if ← trySign "," then
    let message ← k.expression
    pure (.assert test (some message))
  else pure (.assert test none)

/-- What `type` starts where it is not a name. -/
def typeAlias : Read Stmt := do
  word "type"
  let n ← name
  let _ ← typeParams k
  sign "="
  let _ ← k.expression
  pure (.typeAlias n)

def simpleStmt : Read Stmt := do
  match ← peek with
  | .word "return" =>
    take
    let value ← attempt (starExprs k.expression k.bitOr)
    pure (.ret value)
  | .word "import" =>
    take
    importRest
  | .word "from" =>
    take
    fromRest
  | .word "raise" =>
    take
    raiseRest k
  | .word "pass" =>
    take
    pure .pass
  | .word "del" =>
    take
    delRest k
  | .word "yield" =>
    take
    let e ← yieldRest k.expression k.bitOr
    pure (.expr e)
  | .word "assert" =>
    take
    assertRest k
  | .word "break" =>
    take
    pure .break
  | .word "continue" =>
    take
    pure .continue
  | .word "global" =>
    take
    let names ← strictCommas name
    pure (.elsewhere true names)
  | .word "nonlocal" =>
    take
    let names ← strictCommas name
    pure (.elsewhere false names)
  | .word "type" =>
    match ← attempt (typeAlias k) with
    | some s => pure s
    | none => exprStmt k
  | _ => exprStmt k

/-- The statements of one line; `fuel` bounds their number. -/
def lineOf : (fuel : Nat) → Read (List Stmt)
  | 0 => fail
  | fuel + 1 => do
    let first ← simpleStmt k
    if ← trySign ";" then
      if (← peek) = .newline then
        take
        pure [first]
      else
        let others ← lineOf fuel
        pure (first :: others)
    else
      kind .newline
      pure [first]

def simpleStmts : Read (List Stmt) := do
  lineOf k (← left)

/-! ## Compound statements -/

variable (block : Read (List Stmt))

def condition : Read Expr := do
  let e ← namedExpr k.expression
  sign ":"
  pure e

/-- The `else` of a statement, where there is one. -/
def elseBlock : Read (List Stmt) := do
  if ← tryWord "else" then
    sign ":"
    block
  else pure []

/-- An `if` after its word; `fuel` bounds the number of its branches. -/
def ifRest : (fuel : Nat) → Read Stmt
  | 0 => fail
  | fuel + 1 => do
    let test ← condition k
    let yes ← block
    if ← tryWord "elif" then
      let other ← ifRest fuel
      pure (.cond test yes [other])
    else
      let no ← elseBlock block
      pure (.cond test yes no)

def whileRest : Read Stmt := do
  let test ← condition k
  let body ← block
  let other ← elseBlock block
  pure (.while test body other)

def forRest (isAsync : Bool) : Read Stmt := do
  let target ← starTargets k.primary
  word "in"
  let iterable ← starExprs k.expression k.bitOr
  sign ":"
  let body ← block
  let other ← elseBlock block
  pure (.loop isAsync target iterable body other)

def withItem : Read (Expr × Option Expr) := do
  let e ← k.expression
  if ← tryWord "as" then
    let target ← starTarget k.primary
    require ((← atSign ",") || (← atSign ")") || (← atSign ":"))
    pure (e, some target)
  else pure (e, none)

/-- The items of a `with` in parentheses, and the colon after them. -/
def bracketedItems : Read (List (Expr × Option Expr)) := do
  sign "("
  let (items, _) ← commas (withItem k)
  sign ")"
  sign ":"
  pure items

/-- The items of a `with` without parentheses, and the colon after them. -/
def bareItems : Read (List (Expr × Option Expr)) := do
  let items ← strictCommas (withItem k)
  sign ":"
  pure items

def withRest (isAsync : Bool) : Read Stmt := do
  match ← attempt (bracketedItems k) with
  | some items =>
    let body ← block
    pure (.context isAsync items body)
  | none =>
    let items ← bareItems k
    let body ← block
    pure (.context isAsync items body)

def handler : Read (Handler × Bool) := do
  word "except"
  let group ← trySign "*"
  if group || !(← atSign ":") then
    let type ← k.expression
    let n ← importedAs
    sign ":"
    let body ← block
    pure (.mk (some type) n body, group)
  else
    sign ":"
    let body ← block
    pure (.mk none none body, group)

def finallyBlock : Read (List Stmt) := do
  if ← tryWord "finally" then
    sign ":"
    block
  else pure []

def tryRest : Read Stmt := do
  sign ":"
  let body ← block
  let handlers ← many (handler k block)
  if handlers.isEmpty then
    let last ← finallyBlock block
    require !last.isEmpty
    pure (.attempt false body [] [] last)
  else
    let other ← elseBlock block
    let last ← finallyBlock block
    let groups := handlers.map Prod.snd
    require (groups.all id || groups.all (!·))
    pure (.attempt (groups.all id) body (handlers.map Prod.fst) other last)

/-- A `def` after its word; its text starts at the given place. -/
def defRest (isAsync : Bool) (start : Nat) (decorators : List Expr) : Read Stmt := do
  let n ← name
  let types ← typeParams k
  sign "("
  let ps ← params (paramItem (typeMark k) (restType k) k.expression)
  sign ")"
  if ← trySign "->" then
    let _ ← k.expression
  sign ":"
  let body ← block
  pure (.function isAsync n ps types body start decorators)

def classArgs : Read (List Arg) := do
  if ← trySign "(" then arguments k k.expression false else pure []

/-- A `class` after its word. The lambda expressions in its body belong to it. -/
def classStmtRest (decorators : List Expr) : Read Stmt := do
  let n ← name
  let types ← typeParams k
  let as ← classArgs k
  sign ":"
  let before := (← get).lambdas
  let body ← block
  modify fun r =>
    let own := r.lambdas.take (r.lambdas.length - before.length)
    { r with lambdas := own.map (·.within n) ++ before }
  pure (.class n types (positionalArgs as) (namedArgs as) body decorators)

def decorated (start : Nat) (decorators : List Expr) : Read Stmt := do
  if ← tryWord "def" then defRest k block false start decorators
  else if ← tryWord "class" then classStmtRest k block decorators
  else
    word "async"
    word "def"
    defRest k block true start decorators

def decorator : Read Expr := do
  sign "@"
  let e ← namedExpr k.expression
  kind .newline
  pure e

def matchCase : Read Case := do
  word "case"
  let pattern ← casePatterns k.braced
  if ← tryWord "if" then
    let guard ← namedExpr k.expression
    sign ":"
    let body ← block
    pure (.mk pattern (some guard) body)
  else
    sign ":"
    let body ← block
    pure (.mk pattern none body)

def matchHead : Read Expr := do
  word "match"
  let (items, trailing) ← commas (starNamedExpr k.expression k.bitOr)
  require (trailing || items.length ≠ 1 || !items.any Expr.isStarred)
  sign ":"
  kind .newline
  match ← peek with
  | .indent _ => take
  | _ => fail
  pure (tupleOf (items, trailing))

def matchStmt : Read Stmt := do
  let subject ← matchHead k
  let first ← matchCase k block
  let others ← many (matchCase k block)
  kind .dedent
  pure (.match subject (first :: others))

def asyncRest (start : Nat) : Read Stmt := do
  if ← tryWord "def" then defRest k block true start []
  else if ← tryWord "for" then forRest k block true
  else
    word "with"
    withRest k block true

def statement : Read (List Stmt) := do
  let start ← place
  match ← peek with
  | .word "if" =>
    take
    let s ← ifRest k block (← left)
    pure [s]
  | .word "while" =>
    take
    let s ← whileRest k block
    pure [s]
  | .word "for" =>
    take
    let s ← forRest k block false
    pure [s]
  | .word "with" =>
    take
    let s ← withRest k block false
    pure [s]
  | .word "try" =>
    take
    let s ← tryRest k block
    pure [s]
  | .word "def" | .word "class" =>
    let s ← decorated k block start []
    pure [s]
  | .sign "@" =>
    let decorators ← many (decorator k)
    let s ← decorated k block start decorators
    pure [s]
  | .word "async" =>
    take
    let s ← asyncRest k block start
    pure [s]
  | .word "match" =>
    match ← attempt (matchStmt k block) with
    | some s => pure [s]
    | none => simpleStmts k
  | _ => simpleStmts k

def statements : Read (List Stmt) := do
  let groups ← many (statement k block)
  pure groups.flatten

end

def blockAt (k : Inner) : (depth : Nat) → Read (List Stmt)
  | 0 => fail
  | depth + 1 => do
    if (← peek) = .newline then
      take
      match ← peek with
      | .indent _ => take
      | _ => fail
      let body ← statements k (blockAt k depth)
      require !body.isEmpty
      kind .dedent
      pure body
    else simpleStmts k

structure Module where
  body : List Stmt
  lambdas : List LambdaSite

def moduleBody (k : Inner) (depth : Nat) : Read (List Stmt) := do
  let body ← statements k (blockAt k depth)
  kind .ending
  pure body

/-- Reads a whole text, if it is well formed. A text with a null character is
not. -/
def readModule (text : List Char) : Option Module :=
  if text.contains '\x00' then none
  else
    let ts := tokens text
    let k := innerAt (bracedAt text.length) (ts.length + 1)
    match moduleBody k (ts.length + 1) (.ofTokens ts) with
    | some (body, r) => some ⟨body, r.lambdas.reverse⟩
    | none => none

end JexlScript.Routine
