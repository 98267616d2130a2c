import JexlScript.Routine.Formatted
import JexlScript.Routine.Reading

/-!
# Reading expressions

Each layer of the expression grammar is a function of the layers that stand
inside brackets, collected in `Inner`; `innerAt` closes the circle, with its
argument bounding the nesting.
-/

namespace JexlScript.Routine

open Read

structure Inner where
  expression : Read Expr
  disjunction : Read Expr
  bitOr : Read Expr
  primary : Read Expr
  braced : List Char → Option Expr

/-! ## Targets -/

mutual

def Expr.isTarget : Expr → Bool
  | .name _ | .attribute .. | .subscript .. => true
  | .tuple es => areTargets es
  | .list es => areTargets es
  | _ => false

/-- Whether the elements of a list can be assigned to, where an element may
take up several values. -/
def areTargets : List Expr → Bool
  | [] => true
  | .starred e :: es => e.isTarget && areTargets es
  | e :: es => e.isTarget && areTargets es

end

mutual

def Expr.isDeletable : Expr → Bool
  | .name _ | .attribute .. | .subscript .. => true
  | .tuple es => areDeletable es
  | .list es => areDeletable es
  | _ => false

def areDeletable : List Expr → Bool
  | [] => true
  | e :: es => e.isDeletable && areDeletable es

end

/-- Whether an expression is a name, an attribute or an element. -/
def Expr.isPlace : Expr → Bool
  | .name _ | .attribute .. | .subscript .. => true
  | _ => false

def Expr.isStarred : Expr → Bool
  | .starred _ => true
  | _ => false

/-- Whether the value of an expression is known before it is evaluated: it is a
literal, also with signs, or a tuple of such. -/
def Expr.isFixed : Expr → Bool
  | .const _ => true
  | .unary _ e => e.isFixed
  | .tuple es => areFixed es
  | _ => false
where
  areFixed : List Expr → Bool
    | [] => true
    | e :: es => e.isFixed && areFixed es

/-- Notes an expression from a place on; if its value is known, nothing inside it
is evaluated, and only the places noted before it are kept. -/
def noteValue (before : List Span) (start : Nat) (e : Expr) : Read Unit := do
  if e.isFixed then keepNoted before
  note start

/-- A list of items as one expression: a single item without a comma is
itself. -/
def tupleOf : List Expr × Bool → Expr
  | ([e], false) => e
  | (es, _) => .tuple es

def starTarget (primary : Read Expr) : Read Expr := do
  if ← trySign "*" then
    let e ← primary
    require e.isTarget
    pure (.starred e)
  else
    let e ← primary
    require e.isTarget
    pure e

def starTargets (primary : Read Expr) : Read Expr := do
  let found ← commas (starTarget primary)
  pure (tupleOf found)

/-! ## Lists of expressions -/

def atNaming : Read Bool := do
  match ← peek, ← peekSecond with
  | .word _, .sign ":=" => pure true
  | _, _ => pure false

def namedExpr (expression : Read Expr) : Read Expr := do
  if ← atNaming then
    noting do
      let n ← name
      sign ":="
      let e ← expression
      pure (.named n e)
  else
    let e ← expression
    require !(← atSign ":=")
    pure e

def starExpr (expression bitOr : Read Expr) : Read Expr := do
  if ← trySign "*" then
    let e ← bitOr
    pure (.starred e)
  else expression

def starExprs (expression bitOr : Read Expr) : Read Expr := do
  let found ← commas (starExpr expression bitOr)
  pure (tupleOf found)

/-- An expression between brackets, which may be starred or name its value. -/
def starNamedExpr (expression bitOr : Read Expr) : Read Expr := do
  if ← trySign "*" then
    let e ← bitOr
    pure (.starred e)
  else namedExpr expression

/-- A `yield`, after its word. -/
def yieldRest (expression bitOr : Read Expr) : Read Expr := do
  if ← tryWord "from" then
    let e ← expression
    pure (.yieldFrom e)
  else
    let e ← attempt (starExprs expression bitOr)
    pure (.yield e)

/-! ## Parameters -/

structure ReadParam where
  name : String
  default? : Option Expr

def param (typeMark : Read Unit) (expression : Read Expr) : Read ReadParam := do
  let n ← name
  typeMark
  if ← trySign "=" then
    let e ← expression
    pure ⟨n, some e⟩
  else pure ⟨n, none⟩

inductive ParamItem where
  | plain (p : ReadParam)
  /-- `/` -/
  | slash
  /-- `*` -/
  | star
  /-- `*args` -/
  | rest (name : String)
  /-- `**kwargs` -/
  | namedRest (name : String)

/-- One entry of a parameter list. The parameter that takes up further
arguments has its own kind of annotation. -/
def paramItem (typeMark restType : Read Unit) (expression : Read Expr) : Read ParamItem := do
  if ← trySign "/" then pure .slash
  else if ← trySign "**" then
    let n ← name
    typeMark
    pure (.namedRest n)
  else if ← trySign "*" then
    match ← attempt name with
    | some n =>
      restType
      pure (.rest n)
    | none => pure .star
  else
    let p ← param typeMark expression
    pure (.plain p)

/-- The parts of a parameter list, which come in this order. -/
inductive ParamStage where
  /-- Before `/` and the stars. -/
  | ordinary
  /-- After `*`, where a parameter is due. -/
  | bareStar
  | named
  /-- After `**`. -/
  | done
deriving DecidableEq

/-- Sorts the entries of a parameter list, where they come in a proper
order. -/
def sortParams? : ParamStage → Params Expr → List ParamItem → Option (Params Expr)
  | stage, ps, [] => if stage = .bareStar then none else some ps
  | stage, ps, item :: items =>
    match stage, item with
    | .ordinary, .plain p =>
      if !ps.defaults.isEmpty && p.default?.isNone then none
      else
        sortParams? .ordinary
          { ps with
            ordinary := ps.ordinary ++ [p.name]
            defaults := ps.defaults ++ p.default?.toList }
          items
    | .ordinary, .slash =>
      if ps.ordinary.isEmpty || !ps.positional.isEmpty then none
      else sortParams? .ordinary { ps with positional := ps.ordinary, ordinary := [] } items
    | .ordinary, .star => sortParams? .bareStar ps items
    | .ordinary, .rest n => sortParams? .named { ps with rest := some n } items
    | .bareStar, .plain p | .named, .plain p =>
      sortParams? .named
        { ps with
          named := ps.named ++ [p.name]
          namedDefaults := ps.namedDefaults ++ [p.default?] }
        items
    | .ordinary, .namedRest n | .named, .namedRest n =>
      sortParams? .done { ps with namedRest := some n } items
    | _, _ => none

def params (item : Read ParamItem) : Read (Params Expr) := do
  match ← attempt (commas item) with
  | none => pure Params.empty
  | some (items, _) =>
    match sortParams? .ordinary Params.empty items with
    | some ps => pure ps
    | none => fail

def Params.single {α : Type} (ps : Params α) : List String :=
  ps.positional ++ ps.ordinary ++ ps.named

/-! ## Arguments -/

inductive Arg where
  | positional (value : Expr)
  /-- `*value` -/
  | starred (value : Expr)
  /-- `name=value` -/
  | named (name : String) (value : Expr)
  /-- `**value` -/
  | spread (value : Expr)

def argument (expression : Read Expr) : Read Arg := do
  if ← trySign "**" then
    let e ← expression
    pure (.spread e)
  else if ← trySign "*" then
    let e ← expression
    pure (.starred e)
  else
    match ← peek, ← peekSecond with
    | .word _, .sign "=" =>
      let n ← name
      sign "="
      let e ← expression
      pure (.named n e)
    | _, _ =>
      let e ← namedExpr expression
      pure (.positional e)

/-- Whether the arguments of a call come in a proper order: after a named one
none by position, and after a spread one no starred one either. -/
def argsInOrder : (named spread : Bool) → List Arg → Bool
  | _, _, [] => true
  | named, spread, a :: as =>
    match a with
    | .positional _ => !named && !spread && argsInOrder named spread as
    | .starred _ => !spread && argsInOrder named spread as
    | .named _ _ => argsInOrder true spread as
    | .spread _ => argsInOrder named true as

def positionalArgs (as : List Arg) : List Expr :=
  as.filterMap fun
    | .positional e => some e
    | .starred e => some (.starred e)
    | _ => none

def namedArgs (as : List Arg) : List (Option String × Expr) :=
  as.filterMap fun
    | .named n e => some (some n, e)
    | .spread e => some (none, e)
    | _ => none

/-! ## Strings -/

def quotations : Read (List Quotation) :=
  many do
    match ← peek with
    | .string q =>
      take
      pure q
    | _ => fail

def Quotation.partsAmong? (read : List Char → Option Expr) (q : Quotation) :
    Option (List Part) :=
  if q.formatted then q.parts? read else q.points?.map fun points => [.text points]

/-- The value of strings that stand side by side: byte strings do not mix with
others, and one formatted string makes all of them one. The mark of the first
counts for all. -/
def joinStrings? (read : List Char → Option Expr) (qs : List Quotation) : Option Expr :=
  if qs.any (·.bytes) then
    if qs.all (·.bytes) then do
      let parts ← qs.mapM Quotation.bytes?
      some (.const (.bytes parts.flatten))
    else none
  else if qs.any (·.formatted) then do
    let parts ← qs.mapM (Quotation.partsAmong? read)
    some (.joined (joinParts [] parts.flatten))
  else do
    let parts ← qs.mapM Quotation.points?
    some (.const (.text parts.flatten ((qs.head?.map (·.marked)).getD false)))

section

variable (k : Inner)

/-! ## Loops of comprehensions -/

def atLoop : Read Bool := do
  pure ((← atWord "for") || (← atWord "async"))

/-- A loop of a comprehension, and the places noted in what it loops over, added
to the given ones. -/
def generator (before : List Span) : Read (Generator × List Span) := do
  let isAsync ← tryWord "async"
  word "for"
  let target ← starTargets k.primary
  word "in"
  keepNoted before
  let iterable ← k.disjunction
  let evaluated ← noted
  let conditions ← many do
    word "if"
    k.disjunction
  pure (⟨target, iterable, conditions, isAsync⟩, evaluated)

/-- The loops of a comprehension, of which there is at least one. A comprehension
is a function of its own, given what its first loop goes over; `before` are the
places noted before it. -/
def generators (before : List Span) : Read (List Generator) := do
  let (first, evaluated) ← generator k before
  let others ← many (generator k before)
  keepNoted evaluated
  pure (first :: others.map Prod.fst)

/-! ## Brackets -/

/-- After an opening parenthesis at some place: a group, a tuple or an iterator.
A group has no place of its own, only what stands in it. -/
def parenRest (start : Nat) : Read Expr := do
  let before ← noted
  let inside ← place
  if ← trySign ")" then
    note start
    pure (.tuple [])
  else if ← tryWord "yield" then
    let e ← yieldRest k.expression k.bitOr
    note inside
    sign ")"
    pure e
  else
    let first ← starNamedExpr k.expression k.bitOr
    if ← atLoop then
      require !first.isStarred
      let gs ← generators k before
      sign ")"
      note start
      pure (.comprehension .iterator first gs)
    else if ← trySign "," then
      let others ← attempt (commas (starNamedExpr k.expression k.bitOr))
      sign ")"
      let e : Expr := .tuple (first :: ((others.map Prod.fst).getD []))
      noteValue before start e
      pure e
    else
      require !first.isStarred
      sign ")"
      pure first

/-- After an opening bracket: a list, as written or built by loops. -/
def listRest : Read Expr := do
  let before ← noted
  if ← trySign "]" then pure (.list [])
  else
    let first ← starNamedExpr k.expression k.bitOr
    if ← atLoop then
      require !first.isStarred
      let gs ← generators k before
      sign "]"
      pure (.comprehension .list first gs)
    else
      let others ← if ← trySign "," then
          attempt (commas (starNamedExpr k.expression k.bitOr))
        else pure none
      sign "]"
      pure (.list (first :: ((others.map Prod.fst).getD [])))

def dictEntry : Read Entry := do
  if ← trySign "**" then
    let e ← k.bitOr
    pure (.spread e)
  else
    let key ← k.expression
    sign ":"
    let value ← k.expression
    pure (.pair key value)

def dictRest (first : Entry) : Read Expr := do
  let others ← if ← trySign "," then attempt (commas (dictEntry k)) else pure none
  sign "\x7d"
  pure (.dict (first :: ((others.map Prod.fst).getD [])))

/-- A set after its first element; `before` are the places noted before it. -/
def setRest (before : List Span) (first : Expr) : Read Expr := do
  if ← atLoop then
    require !first.isStarred
    let gs ← generators k before
    sign "\x7d"
    pure (.comprehension .set first gs)
  else
    let others ← if ← trySign "," then
        attempt (commas (starNamedExpr k.expression k.bitOr))
      else pure none
    sign "\x7d"
    pure (.set (first :: ((others.map Prod.fst).getD [])))

/-- After an opening brace: a dictionary or a set, as written or built by
loops. -/
def braceRest : Read Expr := do
  let before ← noted
  if ← trySign "\x7d" then pure (.dict [])
  else if ← atSign "**" then
    let first ← dictEntry k
    dictRest k first
  else
    let naming ← atNaming
    let first ← starNamedExpr k.expression k.bitOr
    if naming || first.isStarred then setRest k before first
    else if ← trySign ":" then
      let value ← k.expression
      if ← atLoop then
        let gs ← generators k before
        sign "\x7d"
        pure (.dictComp first value gs)
      else dictRest k (.pair first value)
    else setRest k before first

/-! ## Operands -/

/-- An operand with nothing after it and no parentheses around it. -/
def bareAtom : Read Expr := do
  match ← peek with
  | .word "True" =>
    take
    pure (.const (.bool true))
  | .word "False" =>
    take
    pure (.const (.bool false))
  | .word "None" =>
    take
    pure (.const .none)
  | .word _ =>
    let n ← name
    pure (.name n)
  | .number value =>
    take
    pure (.const value)
  | .string _ =>
    let qs ← quotations
    match joinStrings? k.braced qs with
    | some e => pure e
    | none => fail
  | .sign "..." =>
    take
    pure (.const .ellipsis)
  | .sign "[" =>
    take
    listRest k
  | .sign "\x7b" =>
    take
    braceRest k
  | _ => fail

def atom : Read Expr := do
  let start ← place
  if ← trySign "(" then parenRest k start else noting (bareAtom k)

def slicePart : Read (Option Expr) := do
  if (← atSign ":") || (← atSign "]") || (← atSign ",") then pure none
  else
    let e ← k.expression
    pure (some e)

def sliceRest (start : Nat) (lower : Option Expr) : Read Expr := do
  let upper ← slicePart k
  let step ← if ← trySign ":" then slicePart k else pure none
  note start
  pure (.slice lower upper step)

def sliceItem : Read Expr := do
  let start ← place
  if ← trySign "*" then
    let e ← k.expression
    pure (.starred e)
  else if ← trySign ":" then sliceRest k start none
  else
    let naming ← atNaming
    let e ← namedExpr k.expression
    if naming then pure e
    else if ← trySign ":" then sliceRest k start (some e)
    else pure e

/-- The indices between brackets, up to the closing one. -/
def subscriptRest : Read Expr := do
  let before ← noted
  let start ← place
  let found ← commas (sliceItem k)
  match found with
  | ([.starred e], false) =>
    note start
    sign "]"
    pure (.tuple [.starred e])
  | ([e], false) =>
    sign "]"
    pure e
  | (es, _) =>
    noteValue before start (.tuple es)
    sign "]"
    pure (.tuple es)

/-- The arguments of a call up to its closing bracket. An iterator may stand
there without brackets of its own, if it is allowed and the only argument. -/
def arguments (expression : Read Expr) (iterator : Bool) : Read (List Arg) := do
  let before ← noted
  if ← trySign ")" then pure []
  else
    let first ← argument expression
    match first, iterator && (← atLoop) with
    | .positional e, true =>
      let gs ← generators k before
      sign ")"
      pure [.positional (.comprehension .iterator e gs)]
    | _, _ =>
      let others ← if ← trySign "," then attempt (commas (argument expression)) else pure none
      sign ")"
      let as := first :: ((others.map Prod.fst).getD [])
      require (argsInOrder false false as)
      pure as

/-- An attribute, a call or an element of an operand, where one follows. -/
def trailer (e : Expr) : Read (Option Expr) := do
  if ← trySign "." then
    let n ← name
    pure (some (.attribute e n))
  else if ← trySign "(" then
    let as ← arguments k k.expression true
    pure (some (.call e (positionalArgs as) (namedArgs as)))
  else if ← trySign "[" then
    let index ← subscriptRest k
    pure (some (.subscript e index))
  else pure none

/-- What follows an operand: attributes, calls and elements; `fuel` bounds
their number. -/
def trailers : (fuel : Nat) → (start : Nat) → Expr → Read Expr
  | 0, _, e => pure e
  | fuel + 1, start, e => do
    match ← trailer k e with
    | none => pure e
    | some e =>
      note start
      trailers fuel start e

def primary : Read Expr := do
  let start ← place
  let e ← atom k
  trailers k (← left) start e

def awaitPrimary : Read Expr := do
  if ← atWord "await" then
    noting do
      take
      let e ← primary k
      pure (.await e)
  else primary k

/-! ## Operators -/

def signOp : Read (Nat × UnaryOp) := do
  let start ← place
  if ← trySign "+" then pure (start, .plus)
  else if ← trySign "-" then pure (start, .minus)
  else if ← trySign "~" then pure (start, .invert)
  else fail

/-- Signs, an operand, and powers of it; a power binds tighter than the signs
before it and looser than those after it. `fuel` bounds the number of
powers. -/
def factorChain : (fuel : Nat) → Read Expr
  | 0 => fail
  | fuel + 1 => do
    let ops ← many signOp
    let before ← noted
    let start ← place
    let base ← awaitPrimary k
    let e ← if ← trySign "**" then do
        let exponent ← factorChain fuel
        note start
        pure (Expr.binary base .pow exponent)
      else pure base
    ops.reverse.forM fun (start, _) => noteValue before start e
    pure (ops.foldr (fun (_, op) e => .unary op e) e)

def factor : Read Expr := do
  factorChain k (← left)

def operatorOf : List (String × BinOp) → Read BinOp
  | [] => fail
  | (text, op) :: others => do
    if ← trySign text then pure op else operatorOf others

def leftChain (operators : List (String × BinOp)) (operand : Read Expr) : Read Expr := do
  let start ← place
  let first ← operand
  let others ← many do
    let op ← operatorOf operators
    let e ← operand
    note start
    pure (op, e)
  pure (others.foldl (fun left (op, right) => .binary left op right) first)

def term : Read Expr :=
  leftChain [("*", .mult), ("/", .div), ("//", .floorDiv), ("%", .mod), ("@", .matMult)] (factor k)

def sum : Read Expr := leftChain [("+", .add), ("-", .sub)] (term k)

def shift : Read Expr := leftChain [("<<", .lShift), (">>", .rShift)] (sum k)

def bitAnd : Read Expr := leftChain [("&", .bitAnd)] (shift k)

def bitXor : Read Expr := leftChain [("^", .bitXor)] (bitAnd k)

def bitOr : Read Expr := leftChain [("|", .bitOr)] (bitXor k)

def comparisonOp : Read CmpOp := do
  if ← trySign "==" then pure .eq
  else if ← trySign "!=" then pure .notEq
  else if ← trySign "<=" then pure .ltE
  else if ← trySign "<" then pure .lt
  else if ← trySign ">=" then pure .gtE
  else if ← trySign ">" then pure .gt
  else if ← tryWord "in" then pure .in
  else if ← tryWord "not" then
    word "in"
    pure .notIn
  else if ← tryWord "is" then
    if ← tryWord "not" then pure .isNot else pure .is
  else fail

def comparison : Read Expr := do
  let start ← place
  let first ← bitOr k
  let others ← many do
    let op ← comparisonOp
    let e ← bitOr k
    pure (op, e)
  if others.isEmpty then pure first
  else
    note start
    pure (.compare first others)

def inversion : Read Expr := do
  let nots ← many do
    let start ← place
    word "not"
    pure start
  let before ← noted
  let e ← comparison k
  nots.reverse.forM fun start => noteValue before start e
  pure (nots.foldr (fun _ e => .unary .not e) e)

def boolChain (text : String) (op : BoolOp) (operand : Read Expr) : Read Expr := do
  let start ← place
  let first ← operand
  let others ← many do
    word text
    operand
  if others.isEmpty then pure first
  else
    note start
    pure (.bool op (first :: others))

def conjunction : Read Expr := boolChain "and" .and (inversion k)

def disjunction : Read Expr := boolChain "or" .or (conjunction k)

/-! ## Whole expressions -/

def lambdaRest (start : Nat) : Read Expr := do
  let ps ← params (paramItem (pure ()) (pure ()) k.expression)
  sign ":"
  let before ← noted
  keepNoted []
  let body ← k.expression
  let r ← get
  let span : Span := ⟨start, r.last⟩
  let site : LambdaSite := ⟨span, ps.single, none, r.parts.headD span, r.parts⟩
  set { r with lambdas := site :: r.lambdas, parts := before }
  pure (.lambda ps body span)

def expression : Read Expr := do
  let start ← place
  if ← tryWord "lambda" then noting (lambdaRest k start)
  else
    let e ← disjunction k
    if ← tryWord "if" then
      let test ← disjunction k
      word "else"
      let other ← k.expression
      note start
      pure (.ifExp test e other)
    else pure e

end

def innerAt (braced : List Char → Option Expr) : (depth : Nat) → Inner
  | 0 => ⟨fail, fail, fail, fail, braced⟩
  | depth + 1 =>
    let k := innerAt braced depth
    ⟨expression k, disjunction k, bitOr k, primary k, braced⟩

/-- The expression in a brace, which is read as if it stood in parentheses.
`nest` bounds how deep formatted strings may stand in one another. -/
def bracedAt : (nest : Nat) → List Char → Option Expr
  | 0, _ => none
  | nest + 1, text =>
    let ts := tokens ('(' :: text ++ [')'])
    let k := innerAt (bracedAt nest) (ts.length + 1)
    (starExprs k.expression k.bitOr (.ofTokens ts)).map Prod.fst

end JexlScript.Routine
