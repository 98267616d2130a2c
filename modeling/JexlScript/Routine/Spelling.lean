import JexlScript.Routine.Literal

/-!
# The text of an expression

Messages name what is called by its text, written anew from the tree: with
single blanks around operators and parentheses only where they are needed. A
few expressions cannot be written: integers with too many digits, and formatted
strings with an expression that would need a backslash.
-/

namespace JexlScript.Routine

open Text (Points)

/-! ## Levels -/

/-- How tightly the parts of an expression hold together, from a list of values
down to a single word. -/
def BinOp.level : BinOp → Nat
  | .bitOr => 9
  | .bitXor => 10
  | .bitAnd => 11
  | .lShift | .rShift => 12
  | .add | .sub => 13
  | .mult | .matMult | .div | .mod | .floorDiv => 14
  | .pow => 16

def UnaryOp.level : UnaryOp → Nat
  | .not => 7
  | .plus | .minus | .invert => 15

def BoolOp.level : BoolOp → Nat
  | .and => 6
  | .or => 5

def namingLevel : Nat := 1

def tupleLevel : Nat := 2

def yieldLevel : Nat := 3

def freeLevel : Nat := 4

def disjunctionLevel : Nat := 5

def comparisonLevel : Nat := 8

def operandLevel : Nat := 9

def awaitLevel : Nat := 17

def atomLevel : Nat := 18

def parenthesised (level own : Nat) (text : String) : String :=
  if own < level then "(" ++ text ++ ")" else text

/-! ## Texts of parts -/

def commaJoined (texts : List String) : String := String.intercalate ", " texts

def tupleText : List String → String
  | [text] => text ++ ","
  | texts => commaJoined texts

def withDefaults (names defaults : List String) : List String :=
  let plain := names.length - defaults.length
  names.take plain ++ List.zipWith (fun n d => n ++ "=" ++ d) (names.drop plain) defaults

def withOptions (names : List String) (defaults : List (Option String)) : List String :=
  List.zipWith
    (fun n d => match d with
      | some d => n ++ "=" ++ d
      | none => n)
    names defaults

/-- The text of parameters, with the texts of their defaults. -/
def Params.spelling (p : Params String) : String :=
  let byPlace := withDefaults (p.positional ++ p.ordinary) p.defaults
  let count := p.positional.length
  commaJoined
    (byPlace.take count ++ (if count = 0 then [] else ["/"]) ++ byPlace.drop count ++
      (match p.rest with
        | some n => ["*" ++ n]
        | none => if p.named.isEmpty then [] else ["*"]) ++
      withOptions p.named p.namedDefaults ++ (p.namedRest.map ("**" ++ ·)).toList)

def doubledBraces (ps : Points) : Points :=
  ps.flatMap fun n => if n = 0x7b || n = 0x7d then [n, n] else [n]

/-- An expression in a formatted string by its text, which may hold no
backslash. A brace at its start is kept apart from the one before it. -/
def bracedText? (value : String) (conversion : Option Char) (format : Option Points) :
    Option Points :=
  if value.contains '\\' then none
  else
    let gap := if value.startsWith "\x7b" then " " else ""
    let mark :=
      match conversion with
      | some c => ['!', c]
      | none => []
    let format :=
      match format with
      | some ps => 0x3a :: ps
      | none => []
    some (Points.ofChars ('{' :: (gap ++ value).toList ++ mark) ++ format ++ [0x7d])

/-! ## Expressions -/

mutual

/-- The text of an expression where the given level is needed, which may be
inside a formatted string. -/
def Expr.spelling? (inside : Bool) (level : Nat) : Expr → Option String
  | .const value => (value.spelling? inside).map String.ofList
  | .name id => some id
  | .list elements => do
    let texts ← spellings? inside elements
    some ("[" ++ commaJoined texts ++ "]")
  | .tuple elements => do
    let texts ← spellings? inside elements
    if texts.isEmpty then some "()"
    else some (parenthesised level tupleLevel (tupleText texts))
  | .set elements => do
    let texts ← spellings? inside elements
    some ("\x7b" ++ commaJoined texts ++ "\x7d")
  | .dict entries => do
    let texts ← entrySpellings? inside entries
    some ("\x7b" ++ commaJoined texts ++ "\x7d")
  | .binary left op right => do
    let (leftLevel, rightLevel) :=
      if op = .pow then (op.level + 1, op.level) else (op.level, op.level + 1)
    let l ← left.spelling? inside leftLevel
    let r ← right.spelling? inside rightLevel
    some (parenthesised level op.level (l ++ " " ++ op.symbol ++ " " ++ r))
  | .unary op operand => do
    let e ← operand.spelling? inside op.level
    some (parenthesised level op.level (op.symbol ++ e))
  | .bool op values => do
    let texts ← risingSpellings? inside (op.level + 1) values
    some (parenthesised level op.level (String.intercalate (" " ++ op.symbol ++ " ") texts))
  | .compare left rest => do
    let l ← left.spelling? inside operandLevel
    let r ← comparisonSpellings? inside rest
    some (parenthesised level comparisonLevel (l ++ r))
  | .ifExp test yes no => do
    let y ← yes.spelling? inside disjunctionLevel
    let t ← test.spelling? inside disjunctionLevel
    let n ← no.spelling? inside freeLevel
    some (parenthesised level freeLevel (y ++ " if " ++ t ++ " else " ++ n))
  | .call func args keywords => do
    let f ← func.spelling? inside atomLevel
    let args ← spellings? inside args
    let keywords ← keywordSpellings? inside keywords
    some (f ++ "(" ++ commaJoined (args ++ keywords) ++ ")")
  | .attribute value attr => do
    let v ← value.spelling? inside atomLevel
    let gap :=
      match value with
      | .const (.int _) | .const (.bool _) => " "
      | _ => ""
    some (v ++ gap ++ "." ++ attr)
  | .subscript value index => do
    let v ← value.spelling? inside atomLevel
    let i ←
      match index with
      | .tuple (e :: es) => do
        let first ← e.spelling? inside freeLevel
        let others ← spellings? inside es
        some (tupleText (first :: others))
      | index => index.spelling? inside freeLevel
    some (v ++ "[" ++ i ++ "]")
  | .slice lower upper step => do
    let l ← optionSpelling? inside lower
    let u ← optionSpelling? inside upper
    let s ← optionSpelling? inside step
    some (l.getD "" ++ ":" ++ u.getD "" ++ (s.map (":" ++ ·)).getD "")
  | .lambda params body _ => do
    let text ← paramsSpelling? inside params
    let b ← body.spelling? inside freeLevel
    some (parenthesised level freeLevel
      ((if text.isEmpty then "lambda" else "lambda " ++ text) ++ ": " ++ b))
  | .comprehension built element generators => do
    let e ← element.spelling? inside freeLevel
    let g ← generatorSpellings? inside generators
    some (match built with
      | .list => "[" ++ e ++ g ++ "]"
      | .iterator => "(" ++ e ++ g ++ ")"
      | .set => "\x7b" ++ e ++ g ++ "\x7d")
  | .dictComp key value generators => do
    let k ← key.spelling? inside freeLevel
    let v ← value.spelling? inside freeLevel
    let g ← generatorSpellings? inside generators
    some ("\x7b" ++ k ++ ": " ++ v ++ g ++ "\x7d")
  | .starred value => do
    let v ← value.spelling? inside operandLevel
    some ("*" ++ v)
  | .named target value => do
    let v ← value.spelling? inside atomLevel
    some (parenthesised level namingLevel (target ++ " := " ++ v))
  | .await value => do
    let v ← value.spelling? inside atomLevel
    some (parenthesised level awaitLevel ("await " ++ v))
  | .yield none => some (parenthesised level yieldLevel "yield")
  | .yield (some value) => do
    let v ← value.spelling? inside atomLevel
    some (parenthesised level yieldLevel ("yield " ++ v))
  | .yieldFrom value => do
    let v ← value.spelling? inside atomLevel
    some (parenthesised level yieldLevel ("yield from " ++ v))
  | .joined parts => do
    let texts ← partTexts? parts
    let text :=
      if inside then plainestString (texts.flatMap Prod.fst) else stringOfTexts texts
    some (String.ofList ('f' :: text))

def spellings? (inside : Bool) : List Expr → Option (List String)
  | [] => some []
  | e :: es => do
    let first ← e.spelling? inside freeLevel
    let others ← spellings? inside es
    some (first :: others)

def risingSpellings? (inside : Bool) (level : Nat) : List Expr → Option (List String)
  | [] => some []
  | e :: es => do
    let first ← e.spelling? inside level
    let others ← risingSpellings? inside (level + 1) es
    some (first :: others)

def optionSpelling? (inside : Bool) : Option Expr → Option (Option String)
  | none => some none
  | some e => do
    let text ← e.spelling? inside freeLevel
    some (some text)

def optionSpellings? (inside : Bool) : List (Option Expr) → Option (List (Option String))
  | [] => some []
  | e :: es => do
    let first ← optionSpelling? inside e
    let others ← optionSpellings? inside es
    some (first :: others)

def paramsSpelling? (inside : Bool) : Params Expr → Option String
  | ⟨positional, ordinary, rest, named, namedRest, defaults, namedDefaults⟩ => do
    let defaults ← spellings? inside defaults
    let namedDefaults ← optionSpellings? inside namedDefaults
    some (Params.spelling
      ⟨positional, ordinary, rest, named, namedRest, defaults, namedDefaults⟩)

def entrySpellings? (inside : Bool) : List Entry → Option (List String)
  | [] => some []
  | .pair key value :: rest => do
    let k ← key.spelling? inside freeLevel
    let v ← value.spelling? inside freeLevel
    let others ← entrySpellings? inside rest
    some ((k ++ ": " ++ v) :: others)
  | .spread value :: rest => do
    let v ← value.spelling? inside operandLevel
    let others ← entrySpellings? inside rest
    some (("**" ++ v) :: others)

def comparisonSpellings? (inside : Bool) : List (CmpOp × Expr) → Option String
  | [] => some ""
  | (op, e) :: rest => do
    let text ← e.spelling? inside operandLevel
    let others ← comparisonSpellings? inside rest
    some (" " ++ op.symbol ++ " " ++ text ++ others)

def keywordSpellings? (inside : Bool) : List (Option String × Expr) → Option (List String)
  | [] => some []
  | (name, e) :: rest => do
    let text ← e.spelling? inside freeLevel
    let others ← keywordSpellings? inside rest
    some ((match name with
      | some n => n ++ "=" ++ text
      | none => "**" ++ text) :: others)

def generatorSpellings? (inside : Bool) : List Generator → Option String
  | [] => some ""
  | .mk target iterable conditions isAsync :: rest => do
    let t ← target.spelling? inside tupleLevel
    let i ← iterable.spelling? inside disjunctionLevel
    let c ← conditionSpellings? inside conditions
    let others ← generatorSpellings? inside rest
    some ((if isAsync then " async for " else " for ") ++ t ++ " in " ++ i ++ c ++ others)

def conditionSpellings? (inside : Bool) : List Expr → Option String
  | [] => some ""
  | e :: es => do
    let text ← e.spelling? inside disjunctionLevel
    let others ← conditionSpellings? inside es
    some (" if " ++ text ++ others)

def partTexts? : List Part → Option (List (Points × Bool))
  | [] => some []
  | .text points :: rest => do
    let others ← partTexts? rest
    some ((doubledBraces points, true) :: others)
  | .value value conversion format :: rest => do
    let v ← value.spelling? true disjunctionLevel
    let f ← formatText? format
    let text ← bracedText? v conversion f
    let others ← partTexts? rest
    some ((text, false) :: others)

def formatText? : Option (List Part) → Option (Option Points)
  | none => some none
  | some parts => do
    let texts ← partTexts? parts
    some (some (texts.flatMap Prod.fst))

end

end JexlScript.Routine
