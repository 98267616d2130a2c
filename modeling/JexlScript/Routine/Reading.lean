import JexlScript.Routine.Token
import JexlScript.Text.Normal

/-!
# Reading tokens

The reader of routines goes through the tokens from left to right and may step
back to try something else. It keeps note of the lambda expressions it has
read, of their places and of the places of the parts inside them.
-/

namespace JexlScript.Routine

structure LambdaSite where
  span : Span
  params : List String
  owner : Option String
  body : Span
  /-- The places of the expressions that its body evaluates itself: those inside
  another function are not among them. -/
  parts : List Span
deriving DecidableEq, Repr

def LambdaSite.within (l : LambdaSite) (name : String) : LambdaSite :=
  { l with owner := some (l.owner.getD name) }

/-- A name as it is known inside a class: one that starts with two underscores,
and does not end with two, is made the class's own. -/
def privateName (owner name : String) : String :=
  let base := owner.toList.dropWhile (· = '_')
  if name.startsWith "__" && !name.endsWith "__" && !base.isEmpty then
    "_" ++ String.ofList base ++ name
  else name

/-- The names by which a lambda expression's arguments are known when it
runs. -/
def LambdaSite.argNames (l : LambdaSite) : List String :=
  match l.owner with
  | some owner => l.params.map (privateName owner)
  | none => l.params

structure Reading where
  rest : List Token
  left : Nat
  last : Nat
  lambdas : List LambdaSite
  /-- The places of the expressions read since the innermost function began,
  later ones first. -/
  parts : List Span

def Reading.ofTokens (ts : List Token) : Reading := ⟨ts, ts.length, 0, [], []⟩

abbrev Read := StateT Reading Option

def keywords : List String :=
  ["False", "None", "True", "and", "as", "assert", "async", "await", "break", "class",
    "continue", "def", "del", "elif", "else", "except", "finally", "for", "from", "global", "if",
    "import", "in", "is", "lambda", "nonlocal", "not", "or", "pass", "raise", "return", "try",
    "while", "with", "yield"]

namespace Read

variable {α : Type}

def fail : Read α := fun _ => none

def peek : Read TokenKind := fun r =>
  match r.rest with
  | t :: _ => some (t.kind, r)
  | [] => some (.ending, r)

def peekSecond : Read TokenKind := fun r =>
  match r.rest with
  | _ :: t :: _ => some (t.kind, r)
  | _ => some (.ending, r)

def place : Read Nat := fun r =>
  match r.rest with
  | t :: _ => some (t.span.start, r)
  | [] => some (r.last, r)

def take : Read Unit := fun r =>
  match r.rest with
  | t :: ts => some ((), { r with rest := ts, left := r.left - 1, last := t.span.stop })
  | [] => none

def left : Read Nat := do pure (← get).left

def atSign (text : String) : Read Bool := do
  pure ((← peek) = .sign text)

def atWord (text : String) : Read Bool := do
  pure ((← peek) = .word text)

def trySign (text : String) : Read Bool := do
  if ← atSign text then
    take
    pure true
  else pure false

def tryWord (text : String) : Read Bool := do
  if ← atWord text then
    take
    pure true
  else pure false

def sign (text : String) : Read Unit := do
  if !(← trySign text) then fail

def word (text : String) : Read Unit := do
  if !(← tryWord text) then fail

def kind (k : TokenKind) : Read Unit := do
  if (← peek) = k then take else fail

/-- Takes a name, which is due, and gives its normal form. Whether it is a
keyword depends on how it is written. -/
def name : Read String := do
  match ← peek with
  | .word text =>
    if keywords.contains text then fail
    else
      take
      pure (String.ofList (Text.normalForm text.toList))
  | _ => fail

def attempt (p : Read α) : Read (Option α) := fun r =>
  match p r with
  | some (a, r') => some (some a, r')
  | none => some (none, r)

/-- Items with commas between them, and whether a comma follows the last;
`fuel` bounds their number. -/
def commaList (item : Read α) : (fuel : Nat) → Read (List α × Bool)
  | 0 => fail
  | fuel + 1 => do
    let first ← item
    if ← trySign "," then
      match ← attempt (commaList item fuel) with
      | some (others, trailing) => pure (first :: others, trailing)
      | none => pure ([first], true)
    else pure ([first], false)

/-- One item or more with commas between them, and whether a comma follows the
last. -/
def commas (item : Read α) : Read (List α × Bool) := do
  commaList item (← left)

/-- Items, one after the other, as long as they can be read; `fuel` bounds
their number. -/
def repeatedly (item : Read α) : (fuel : Nat) → Read (List α)
  | 0 => pure []
  | fuel + 1 => do
    match ← attempt item with
    | some first =>
      let others ← repeatedly item fuel
      pure (first :: others)
    | none => pure []

def many (item : Read α) : Read (List α) := do
  repeatedly item (← left)

def note (start : Nat) : Read Unit :=
  modify fun r => { r with parts := ⟨start, r.last⟩ :: r.parts }

def noting (p : Read α) : Read α := do
  let start ← place
  let a ← p
  note start
  pure a

def noted : Read (List Span) := do pure (← get).parts

def keepNoted (parts : List Span) : Read Unit := modify fun r => { r with parts }

def require (condition : Bool) : Read Unit := if condition then pure () else fail

end Read

end JexlScript.Routine
