import JexlScript.Routine.Builtin
import JexlScript.Routine.Spelling
import JexlScript.Routine.Statement
import JexlScript.Names
import JexlScript.Text.Margin

/-!
# Routines as scripts

A function is turned into a program of one statement: an arrow for a lambda
expression, a function for a definition. Names bound in the function are kept
apart from all others, which name builtins, modules or globals of the script.
-/

namespace JexlScript.Routine

/-! ## Comparisons -/

def Expr.isNone : Expr → Bool
  | .const .none => true
  | _ => false

def Expr.isSpread : Expr → Bool
  | .starred _ => true
  | _ => false

def CmpOp.operator : CmpOp → String
  | .eq | .is => "==="
  | .notEq | .isNot => "!=="
  | .lt => "<"
  | .ltE => "<="
  | .gt => ">"
  | .gtE => ">="
  | .in | .notIn => "in"

/-- An operand of a comparison: its script, and whether it was `None`. -/
abbrev Operand := Script.Expr × Bool

/-- The script of one comparison. Identity with `None` is equality with `null`,
which `undefined` has too. -/
def compared (left : Operand) (op : CmpOp) (right : Operand) : Script.Expr :=
  let subject := if left.2 then right.1 else left.1
  let isNull := left.2 || right.2
  match op with
  | .is => if isNull then .binary subject "==" (.lit .null) else .binary left.1 "===" right.1
  | .isNot => if isNull then .binary subject "!=" (.lit .null) else .binary left.1 "!==" right.1
  | .in => right.1.invoke "includes" [left.1]
  | .notIn => .unary "!" (right.1.invoke "includes" [left.1])
  | op => .binary left.1 op.operator right.1

def comparedAll (left : Operand) : List (CmpOp × Operand) → List Script.Expr
  | [] => []
  | (op, right) :: rest => compared left op right :: comparedAll right rest

def allOperands : List (CmpOp × Bool × Outcome) → Except Refusal (List (CmpOp × Operand))
  | [] => .ok []
  | (op, isNone, o) :: rest => do
    let e ← o
    let es ← allOperands rest
    .ok ((op, e, isNone) :: es)

def joinedBy (op : String) : List Script.Expr → Script.Expr
  | [] => .undefined
  | e :: es => es.foldl (fun left right => .logical left op right) e

/-! ## Parameters and loops -/

/-- The names of parameters that all take single arguments and have no
default. -/
def Params.names? {α : Type} (p : Params α) : Except Refusal (List String) :=
  if p.rest.isSome || p.namedRest.isSome || !p.named.isEmpty then .error .onlyPositional
  else if !p.defaults.isEmpty then .error .defaultValues
  else .ok (p.positional ++ p.ordinary)

/-- A loop of a comprehension: its name and the items it goes through. -/
structure Loop where
  target : String
  items : Script.Expr

def filtered (target : String) (items : Script.Expr) (conditions : List Script.Expr) :
    Script.Expr :=
  if conditions.isEmpty then items
  else items.invoke "filter" [.arrow [.name target] (joinedBy "&&" conditions)]

def looped (element : Script.Expr) : List Loop → Script.Expr
  | [] => element
  | [l] => l.items.invoke "map" [.arrow [.name l.target] element]
  | l :: ls => l.items.invoke "flatMap" [.arrow [.name l.target] (looped element ls)]

/-! ## Expressions -/

def Expr.module? (bound : List String) : Expr → Option String
  | .name id => if isModule id && !bound.contains id then some id else none
  | _ => none

/-- The script of a name: one that is not bound may be no builtin and no
module. -/
def nameOutcome (bound : List String) (id : String) : Outcome :=
  if bound.contains id then .ok (.ident id)
  else if (builtins.get? id).isSome then .error (.builtinAsValue id)
  else if isModule id then .error (.moduleAsValue id)
  else .ok (.ident id)

def noKeywords (keywords : List (Option String × Expr)) (callee : String) : Except Refusal Unit :=
  if keywords.isEmpty then .ok () else .error (.keywordArguments callee)

def Constant.outcome : Constant → Outcome
  | .none => .ok (.lit .null)
  | .bool b => .ok (.lit (.bool b))
  | .int n => .ok (.lit (.int n))
  | .double d => .ok (.lit (.double d))
  | .text points _ => .ok (.lit (.text points.toText))
  | .imaginary _ => .error (.constant "complex")
  | .bytes _ => .error (.constant "bytes")
  | .ellipsis => .error (.constant "ellipsis")

def UnaryOp.operator : UnaryOp → String
  | .plus => "+"
  | .minus => "-"
  | .not => "!"
  | .invert => "~"

def BinOp.operator? : BinOp → Option String
  | .matMult | .floorDiv => none
  | op => some op.symbol

def binaryOutcome (left : Script.Expr) (op : BinOp) (right : Script.Expr) : Outcome :=
  match op with
  | .floorDiv => .ok (Builtin.mathCall "floor" [.binary left "/" right])
  | op =>
    match op.operator? with
    | some symbol => .ok (.binary left symbol right)
    | none => .error (.binaryOperator op.kindName)

def sliceArgs (lower upper : Option Outcome) : Except Refusal (List Script.Expr) :=
  match lower, upper with
  | none, none => .ok []
  | some l, none => do
    let l ← l
    .ok [l]
  | none, some u => do
    let u ← u
    .ok [.lit (.int 0), u]
  | some l, some u => do
    let l ← l
    let u ← u
    .ok [l, u]

mutual

def Expr.lower (bound : List String) : Expr → Outcome
  | .const value => value.outcome
  | .name id => nameOutcome bound id
  | .list elements | .tuple elements => do
    let es ← allOk (outcomes bound elements)
    .ok (.array es)
  | .set elements => do
    let es ← allOk (outcomes bound elements)
    .ok (.new (.ident "Set") [.array es])
  | .dict entries => do
    let props ← entryProps bound entries
    .ok (.object props)
  | .binary left op right => do
    let l ← left.lower bound
    let r ← right.lower bound
    binaryOutcome l op r
  | .unary op operand => do
    let e ← operand.lower bound
    .ok (.unary op.operator e)
  | .bool op values => do
    let es ← allOk (outcomes bound values)
    .ok (joinedBy (match op with | .and => "&&" | .or => "||") es)
  | .compare left rest => do
    let l ← left.lower bound
    let operands ← allOperands (operandOutcomes bound rest)
    .ok (joinedBy "&&" (comparedAll (l, left.isNone) operands))
  | .ifExp test yes no => do
    let c ← test.lower bound
    let y ← yes.lower bound
    let n ← no.lower bound
    .ok (.ternary c y n)
  | .call func args keywords =>
    if args.any Expr.isSpread then .error .starArguments
    else if keywords.any fun (name, _) => name.isNone then .error .spreadArguments
    else
      let argOutcomes := outcomes bound args
      let named := keywordOutcomes bound keywords
      match func with
      | .name id =>
        let plain : Outcome := do
          noKeywords keywords id
          let f ← nameOutcome bound id
          let es ← allOk argOutcomes
          .ok (.call f es)
        if bound.contains id then plain
        else
          match builtins.get? id with
          | some b => b.lower id argOutcomes named
          | none =>
            if constructors.contains id then do
              noKeywords keywords id
              let es ← allOk argOutcomes
              .ok (.new (.ident id) es)
            else plain
      | .attribute value attr =>
        match value.module? bound with
        | some module =>
          match moduleFunction? module attr with
          | some b => b.lower (module ++ "." ++ attr) argOutcomes named
          | none => .error (.moduleFunction (module ++ "." ++ attr))
        | none => do
          noKeywords keywords attr
          let obj ← value.lower bound
          let es ← allOk argOutcomes
          .ok (obj.invoke (methodName attr) es)
      | func => do
        let text ← (func.spelling? false freeLevel).elim (.error .unspellable) .ok
        noKeywords keywords text
        let f ← func.lower bound
        let es ← allOk argOutcomes
        .ok (.call f es)
  | .attribute value attr =>
    match value.module? bound with
    | some module =>
      match moduleConstant? module attr with
      | some e => .ok e
      | none => .error (.moduleAttribute (module ++ "." ++ attr))
    | none => do
      let obj ← value.lower bound
      .ok (obj.dot attr)
  | .subscript value index => do
    let obj ← value.lower bound
    match index with
    | .slice lower upper step =>
      if step.isSome then .error .sliceStep
      else do
        let args ← sliceArgs (optionOutcome bound lower) (optionOutcome bound upper)
        .ok (obj.invoke "slice" args)
    | .unary .minus operand => do
      let e ← operand.lower bound
      .ok (obj.invoke "at" [.unary "-" e])
    | .tuple _ => .error .multipleIndices
    | index => do
      let e ← index.lower bound
      .ok (obj.index e)
  | .slice .. => .error (.expression "Slice")
  | .lambda params body _ => do
    let names ← params.names?
    let e ← body.lower (names ++ bound)
    .ok (.arrow (names.map .name) e)
  | .comprehension built element generators =>
    if built = .set then .error (.expression built.kindName)
    else do
      let (loops, inner) ← lowerLoops bound generators
      let e ← element.lower inner
      .ok (looped e loops)
  | .dictComp .. => .error (.expression "DictComp")
  | .starred _ => .error (.expression "Starred")
  | .named .. => .error (.expression "NamedExpr")
  | .await _ => .error (.expression "Await")
  | .yield _ => .error (.expression "Yield")
  | .yieldFrom _ => .error (.expression "YieldFrom")
  | .joined _ => .error (.expression "JoinedStr")

def outcomes (bound : List String) : List Expr → List Outcome
  | [] => []
  | e :: es => e.lower bound :: outcomes bound es

def optionOutcome (bound : List String) : Option Expr → Option Outcome
  | none => none
  | some e => some (e.lower bound)

def keywordOutcomes (bound : List String) : List (Option String × Expr) → List (String × Outcome)
  | [] => []
  | (some name, e) :: rest => (name, e.lower bound) :: keywordOutcomes bound rest
  | (none, _) :: rest => keywordOutcomes bound rest

def operandOutcomes (bound : List String) :
    List (CmpOp × Expr) → List (CmpOp × Bool × Outcome)
  | [] => []
  | (op, e) :: rest => (op, e.isNone, e.lower bound) :: operandOutcomes bound rest

/-- The properties of a dictionary, whose keys must be strings. -/
def entryProps (bound : List String) :
    List Entry → Except Refusal (List (String × Script.Expr))
  | [] => .ok []
  | .pair (.const (.text key _)) value :: rest => do
    let e ← value.lower bound
    let props ← entryProps bound rest
    .ok ((key.toText, e) :: props)
  | _ :: _ => .error .dictKey

/-- The loops of a comprehension, and the names bound inside them. Each loop
binds its name for its own conditions and for the loops after it. -/
def lowerLoops (bound : List String) :
    List Generator → Except Refusal (List Loop × List String)
  | [] => .ok ([], bound)
  | .mk target iterable conditions isAsync :: rest =>
    if isAsync then .error .asyncComprehension
    else
      match target with
      | .name id => do
        let items ← iterable.lower bound
        let conds ← allOk (outcomes (id :: bound) conditions)
        let (loops, inner) ← lowerLoops (id :: bound) rest
        .ok (⟨id, filtered id items conds⟩ :: loops, inner)
      | _ => .error .comprehensionTarget

end

/-! ## Statements -/

def Expr.name? : Expr → Option String
  | .name id => some id
  | _ => none

/-- Names met so far, and those of them met first inside a condition. -/
abbrev Hoisting := List String × List String

def noteTargets (nested : Bool) (seen : Hoisting) (targets : List Expr) : Hoisting :=
  (targets.filterMap Expr.name?).foldl
    (fun (names, hoisted) id =>
      if names.contains id then (names, hoisted)
      else (id :: names, if nested then hoisted ++ [id] else hoisted))
    seen

mutual

def Stmt.noteNames (nested : Bool) (seen : Hoisting) : Stmt → Hoisting
  | .assign targets _ => noteTargets nested seen targets
  | .annAssign target _ _ => noteTargets nested seen [target]
  | .cond _ yes no => noteAll true (noteAll true seen yes) no
  | _ => seen

def noteAll (nested : Bool) (seen : Hoisting) : List Stmt → Hoisting
  | [] => seen
  | s :: ss => noteAll nested (s.noteNames nested seen) ss

end

/-- The names that a body assigns first inside a condition, in order. They are
declared before the body, because a declaration inside a block ends with it. -/
def hoistedNames (params : List String) (body : List Stmt) : List String :=
  (noteAll false (params, []) body).2

/-- The assignment of a value to a target, which declares a name that is not
bound. -/
def assignment (bound : List String) (target : Expr) (value : Outcome) :
    Except Refusal (Script.Stmt × List String) :=
  match target with
  | .name id => do
    let e ← value
    if bound.contains id then .ok (.assign ⟨id, none, none⟩ e, bound)
    else .ok (.assign ⟨id, some .let, none⟩ e, id :: bound)
  | _ => .error .assignmentTarget

mutual

/-- The statements for a statement, none for `pass`, and the names bound after
it. -/
def Stmt.lower (bound : List String) :
    Stmt → Except Refusal (List Script.Stmt × List String)
  | .ret none => .ok ([.retNothing], bound)
  | .ret (some value) => do
    let e ← value.lower bound
    .ok ([.ret e], bound)
  | .pass => .ok ([], bound)
  | .expr value => do
    let e ← value.lower bound
    .ok ([.expr e], bound)
  | .augAssign target op value =>
    match target with
    | .name id =>
      match op.operator? with
      | none => .error (.augmentedOperator op.kindName)
      | some symbol => do
        let e ← value.lower bound
        .ok ([.assign ⟨id, none, some symbol⟩ e], bound)
    | _ => .error .augmentedTarget
  | .assign [target] value => do
    let (s, bound) ← assignment bound target (value.lower bound)
    .ok ([s], bound)
  | .assign _ _ => .error .multipleTargets
  | .annAssign target _ none => do
    let (s, bound) ← assignment bound target (.ok (.lit .null))
    .ok ([s], bound)
  | .annAssign target _ (some value) => do
    let (s, bound) ← assignment bound target (value.lower bound)
    .ok ([s], bound)
  | .cond test yes no => do
    let c ← test.lower bound
    let (y, bound) ← lowerAll bound yes
    let (n, bound) ← lowerAll bound no
    .ok ([.cond c y n], bound)
  | s => .error (.statement s.kindName)

def lowerAll (bound : List String) :
    List Stmt → Except Refusal (List Script.Stmt × List String)
  | [] => .ok ([], bound)
  | s :: ss => do
    let (first, bound) ← s.lower bound
    let (rest, bound) ← lowerAll bound ss
    .ok (first ++ rest, bound)

end

/-! ## Functions -/

def withoutDescription : List Stmt → List Stmt
  | .expr (.const (.text ..)) :: rest => rest
  | body => body

def lowerDefinition (name : String) (params : Params Expr) (body : List Stmt) :
    Except Refusal Script.Stmt := do
  let names ← params.names?
  let body := withoutDescription body
  let hoisted := hoistedNames names body
  let (stmts, _) ← lowerAll (hoisted ++ names) body
  .ok (.function name (names.map .name)
    (hoisted.map (fun id => .bare ⟨id, some .let, none⟩) ++ stmts))

def lowerFirst : List Stmt → Except Refusal Script.Program
  | [] => .error .noFunction
  | .function true .. :: _ => .error .asyncFunction
  | .function false name params _ body _ _ :: _ => do
    let s ← lowerDefinition name params body
    .ok ⟨[s]⟩
  | .expr (.lambda params body span) :: _ | .assign _ (.lambda params body span) :: _ => do
    let e ← (Expr.lambda params body span).lower []
    .ok ⟨[.expr e]⟩
  | s :: _ => .error (.notAFunction s.kindName)

/-- Reads the source of a function without its margin. One that is not well
formed is tried again between parentheses, inside which a lambda expression may
go over several lines. -/
def readSource (source : List Char) : Option Module :=
  let text := Text.dedent source
  match readModule text with
  | some m => some m
  | none => readModule ('(' :: text ++ [')'])

def toProgram (source : String) : Except Refusal Script.Program :=
  if source.contains '\x00' then .error .nullCharacter
  else
    match readSource source.toList with
    | some m => lowerFirst m.body
    | none => .error .invalidSource

end JexlScript.Routine
