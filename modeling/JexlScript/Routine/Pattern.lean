import JexlScript.Routine.Expression

/-!
# Reading patterns

The patterns of a `match` statement.
-/

namespace JexlScript.Routine

open Read

def captureTarget : Read String := do
  require ((← peek) ≠ .word "_")
  let n ← name
  require !((← atSign ".") || (← atSign "(") || (← atSign "="))
  pure n

def dottedName : Read (List String) := do
  let first ← name
  let others ← many do
    sign "."
    name
  pure (first :: others)

def dottedExpr : List String → Expr
  | [] => .const .none
  | first :: others => others.foldl .attribute (.name first)

def Expr.isImaginary : Expr → Bool
  | .const (.imaginary _) => true
  | _ => false

def numberPattern : Read Expr := do
  match ← peek with
  | .number value =>
    take
    pure (.const value)
  | _ => fail

def signedNumberPattern : Read Expr := do
  let negative ← trySign "-"
  let first ← numberPattern
  let signed : Expr := if negative then .unary .minus first else first
  if (← atSign "+") || (← atSign "-") then
    let op : BinOp := if ← atSign "+" then .add else .sub
    take
    require !first.isImaginary
    let second ← numberPattern
    require second.isImaginary
    pure (.binary signed op second)
  else pure signed

def stringPattern (braced : List Char → Option Expr) : Read Expr := do
  let qs ← quotations
  require !qs.isEmpty
  match joinStrings? braced qs with
  | some e => pure e
  | none => fail

def literalPattern (braced : List Char → Option Expr) : Read Expr := do
  match ← peek with
  | .number _ | .sign "-" => signedNumberPattern
  | .string _ => stringPattern braced
  | .word "None" =>
    take
    pure (.const .none)
  | .word "True" =>
    take
    pure (.const (.bool true))
  | .word "False" =>
    take
    pure (.const (.bool false))
  | _ => fail

section

variable (braced : List Char → Option Expr) (pattern : Read Pattern)

/-- A pattern of a sequence, which may take up several values. -/
def maybeStarPattern : Read Pattern := do
  if ← trySign "*" then
    if (← peek) = .word "_" then
      take
      pure (.star none)
    else
      let n ← captureTarget
      pure (.star (some n))
  else pattern

def sequenceRest (close : String) : Read Pattern := do
  if ← trySign close then pure (.sequence [])
  else
    let (items, _) ← commas (maybeStarPattern pattern)
    sign close
    pure (.sequence items)

/-- Patterns as one: a single one without a comma is itself, but for one that
takes up several values. -/
def sequenceOf (found : List Pattern × Bool) : Read Pattern :=
  match found with
  | ([p], false) => if p.isStar then fail else pure p
  | (items, _) => pure (.sequence items)

def groupRest : Read Pattern := do
  if ← trySign ")" then pure (.sequence [])
  else
    let found ← commas (maybeStarPattern pattern)
    sign ")"
    sequenceOf found

def mappingEntry : Read (Except String (Expr × Pattern)) := do
  if ← trySign "**" then
    let n ← captureTarget
    pure (.error n)
  else
    let literal ← attempt (literalPattern braced)
    let key ← match literal with
      | some e => pure e
      | none => do
        let first ← name
        sign "."
        let others ← dottedName
        pure (dottedExpr (first :: others))
    sign ":"
    let p ← pattern
    pure (.ok (key, p))

/-- A mapping after its opening brace; only its last entry may take up what is
left. -/
def mappingRest : Read Pattern := do
  if ← trySign "\x7d" then pure (.mapping [] none)
  else
    let (entries, _) ← commas (mappingEntry braced pattern)
    sign "\x7d"
    require (entries.dropLast.all Except.isOk)
    let rest := match entries.getLast? with
      | some (.error n) => some n
      | _ => none
    pure (.mapping (entries.filterMap Except.toOption) rest)

def classArg : Read (Option String × Pattern) := do
  match ← peek, ← peekSecond with
  | .word _, .sign "=" =>
    let n ← name
    sign "="
    let p ← pattern
    pure (some n, p)
  | _, _ =>
    let p ← pattern
    pure (none, p)

def classRest (type : Expr) : Read Pattern := do
  if ← trySign ")" then pure (.ofClass type [] [])
  else
    let (args, _) ← commas (classArg pattern)
    sign ")"
    require ((args.dropWhile (·.1.isNone)).all (·.1.isSome))
    pure (.ofClass type
      (args.filterMap fun (n, p) => if n.isNone then some p else none)
      (args.filterMap fun (n, p) => n.map fun n => (n, p)))

def closedPattern : Read Pattern := do
  match ← peek with
  | .word "_" =>
    take
    pure (.capture none)
  | .word "None" | .word "True" | .word "False" =>
    let e ← literalPattern braced
    pure (.value e)
  | .word _ =>
    let names ← dottedName
    if ← trySign "(" then classRest pattern (dottedExpr names)
    else
      require !(← atSign "=")
      match names with
      | [n] => pure (.capture (some n))
      | names => pure (.value (dottedExpr names))
  | .sign "(" =>
    take
    groupRest pattern
  | .sign "[" =>
    take
    sequenceRest pattern "]"
  | .sign "\x7b" =>
    take
    mappingRest braced pattern
  | _ =>
    let e ← literalPattern braced
    pure (.value e)

def wholePattern : Read Pattern := do
  let first ← closedPattern braced pattern
  let others ← many do
    sign "|"
    closedPattern braced pattern
  let p : Pattern := if others.isEmpty then first else .either (first :: others)
  if ← tryWord "as" then
    let n ← captureTarget
    pure (.named p n)
  else pure p

end

def patternAt (braced : List Char → Option Expr) : (depth : Nat) → Read Pattern
  | 0 => fail
  | depth + 1 => wholePattern braced (patternAt braced depth)

def casePatterns (braced : List Char → Option Expr) : Read Pattern := do
  let found ← commas (maybeStarPattern (patternAt braced ((← left) + 1)))
  sequenceOf found

end JexlScript.Routine
