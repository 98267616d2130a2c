import JexlScript.Formula.Basic
import JexlScript.Formula.Token

/-!
# Reading a formula

From the loosest to the tightest binding:

    Expression  = Binary ( '?' Expression ':' Expression )?
    Binary      = Unary ( binaryOp Unary )*
    Unary       = unaryOp* Postfix
    Postfix     = Primary ( '.' name | '[' Expression ']' | '|' name Args? )*
    Primary     = literal | name Args? | '.' name | '(' Expression ')'
                | '[' Expression,* ']' | '{' Key ':' Expression,* '}'

Each layer is a function of the layer below it, and `expression` closes the
circle: its depth bounds the nesting, for which the number of tokens is enough.
The operators of `Binary` are joined by their precedences as they are read. What
a primary is stays open up to `ofTokens`.
-/

namespace JexlScript

inductive Expected where
  | conditionalColon
  | nameAfterDot
  | filterEnd
  | transformName
  | groupEnd
  | arrayEnd
  | objectKey
  | keyColon
  | objectEnd
  | argsEnd
deriving DecidableEq, Repr

inductive SyntaxCause where
  | empty
  | unexpectedEnd
  | unexpectedToken
  | expected (what : Expected)
  | relativeOutsideFilter
  | unterminatedString
  | invalidCharacter (c : Char)
deriving DecidableEq, Repr

def Expected.text : Expected → String
  | .conditionalColon => "':' in conditional expression"
  | .nameAfterDot => "identifier after '.'"
  | .filterEnd => "']'"
  | .transformName => "transform name after '|'"
  | .groupEnd => "')'"
  | .arrayEnd => "']' to close array"
  | .objectKey => "object key"
  | .keyColon => "':' after object key"
  | .objectEnd => "'\x7d' to close object"
  | .argsEnd => "')' to close argument list"

def SyntaxCause.text : SyntaxCause → String
  | .empty => "Empty expression"
  | .unexpectedEnd => "Unexpected end of expression"
  | .unexpectedToken => "Unexpected token"
  | .expected what => "Expected " ++ what.text
  | .relativeOutsideFilter => "Relative identifier outside of a filter"
  | .unterminatedString => "Unterminated string"
  | .invalidCharacter c => "Invalid character " ++ Text.quoted (String.singleton c)

/-- A failure to read, with the token it is about; without one, it is about the
end of the text. -/
structure ParseFault where
  cause : SyntaxCause
  found : Option Token
deriving DecidableEq, Repr

/-- What is left to read, and whether the innermost open filter has met a
relative name. -/
structure Cursor where
  rest : List Token
  relative : Bool

abbrev Parse := StateT Cursor (Except ParseFault)

namespace Parse

variable {α : Type}

def fail (cause : SyntaxCause) : Parse α := fun c => .error ⟨cause, c.rest.head?⟩

def current : Parse (Option Token) := fun c => .ok (c.rest.head?, c)

def advance : Parse Unit := fun c => .ok ((), { c with rest := c.rest.tail })

def atSymbol (kind : SymbolKind) : Parse Bool := fun c =>
  match c.rest with
  | ⟨.symbol k _, _, _⟩ :: _ => .ok (k = kind, c)
  | _ => .ok (false, c)

def expectSymbol (kind : SymbolKind) (what : Expected) : Parse Unit := do
  if ← atSymbol kind then advance else fail (.expected what)

def expectName (what : Expected) : Parse String := fun c =>
  match c.rest with
  | ⟨.identifier name, _, _⟩ :: rest => .ok (name, { c with rest })
  | _ => fail (.expected what) c

/-- Items with commas between them; `fuel` bounds their number. -/
def commaSeparated (item : Parse α) : (fuel : Nat) → Parse (List α)
  | 0 => pure []
  | fuel + 1 => do
    let first ← item
    if ← atSymbol .comma then
      advance
      let others ← commaSeparated item fuel
      pure (first :: others)
    else pure [first]

/-- Items with commas between them up to a closing symbol, which may follow at
once. -/
def items (item : Parse α) (close : SymbolKind) (what : Expected) : Parse (List α) := do
  let found ← if ← atSymbol close then pure [] else do
    let c ← get
    commaSeparated item (c.rest.length + 1)
  expectSymbol close what
  pure found

end Parse

namespace Formula

open Parse

/-! ## The layers -/

/-- The binary operator at the current token, with its precedence. -/
def binaryOp? {ι : Type} (g : Grammar ι) : Parse (Option (String × Double)) := fun c =>
  match c.rest with
  | ⟨.symbol .binaryOp symbol, _, _⟩ :: _ =>
    .ok ((g.lookup? symbol .binaryOp).map fun element => (symbol, element.precedence), c)
  | _ => .ok (none, c)

section

variable (inner : Bool → Parse Formula) (inside : Bool)

/-- The arguments of a call, after its opening parenthesis. -/
def args : Parse (List Formula) := items (inner inside) .closeParen .argsEnd

def objectKey : Parse String := fun c =>
  match c.rest with
  | ⟨.identifier name, _, _⟩ :: rest => .ok (name, { c with rest })
  | ⟨.literal (.text s), _, _⟩ :: rest => .ok (s, { c with rest })
  | _ => fail (.expected .objectKey) c

def entry : Parse (String × Formula) := do
  let key ← objectKey
  expectSymbol .colon .keyColon
  let value ← inner inside
  pure (key, value)

def relativeName (dot : Token) : Parse Formula := do
  let name ← expectName .nameAfterDot
  if inside then
    modify fun c => { c with relative := true }
    pure (.root name true)
  else throw ⟨.relativeOutsideFilter, some dot⟩

def primary : Parse Formula := do
  match ← current with
  | none => fail .unexpectedEnd
  | some t =>
    match t.lexeme with
    | .literal value =>
      advance
      pure (.literal value)
    | .identifier name =>
      advance
      if ← atSymbol .openParen then
        advance
        let args ← args inner inside
        pure (.call functionsPool name args)
      else pure (.root name false)
    | .symbol .dot _ =>
      advance
      relativeName inside t
    | .symbol .openParen _ =>
      advance
      let e ← inner inside
      expectSymbol .closeParen .groupEnd
      pure e
    | .symbol .openBracket _ =>
      advance
      let elements ← items (inner inside) .closeBracket .arrayEnd
      pure (.array elements)
    | .symbol .openCurl _ =>
      advance
      let entries ← items (entry inner inside) .closeCurl .objectEnd
      pure (ofEntries entries)
    | .symbol _ _ => fail .unexpectedToken

/-- The contents of a filter, and whether they are relative to its subject's
elements. The mark of the filter around it is kept. -/
def filterContents : Parse (Formula × Bool) := do
  let outer ← get
  set { outer with relative := false }
  let e ← inner true
  let c ← get
  set { c with relative := outer.relative }
  pure (e, c.relative)

/-- What follows an operand: fields, filters and transforms; `fuel` bounds
their number. -/
def suffixes : (fuel : Nat) → Formula → Parse Formula
  | 0, subject => pure subject
  | fuel + 1, subject => do
    if ← atSymbol .dot then
      advance
      let name ← expectName .nameAfterDot
      suffixes fuel (.field subject name false)
    else if ← atSymbol .openBracket then
      advance
      let (e, relative) ← filterContents inner
      expectSymbol .closeBracket .filterEnd
      suffixes fuel (.filter subject e relative)
    else if ← atSymbol .pipe then
      advance
      let name ← expectName .transformName
      if ← atSymbol .openParen then
        advance
        let args ← args inner inside
        suffixes fuel (.call transformsPool name (subject :: args))
      else suffixes fuel (.call transformsPool name [subject])
    else pure subject

def unaryOps : List Token → List String
  | ⟨.symbol .unaryOp symbol, _, _⟩ :: ts => symbol :: unaryOps ts
  | _ => []

/-- An operand of a binary operator: unary operators, a primary, which `first`
reads, and what follows it. -/
def operand (first : Parse Formula) : Parse Formula := do
  let c ← get
  let ops := unaryOps c.rest
  set { c with rest := c.rest.drop ops.length }
  let start ← first
  let c ← get
  let e ← suffixes inner inside c.rest.length start
  pure (ops.foldr .unary e)

def choice (test : Parse Formula) : Parse Formula := do
  let e ← test
  if ← atSymbol .question then
    advance
    let consequent ← inner inside
    expectSymbol .colon .conditionalColon
    let alternate ← inner inside
    pure (.conditional e consequent alternate)
  else pure e

end

section

variable {ι : Type} (g : Grammar ι) (operand : Parse Formula)

/-- Joins operators to what stands left of them, as long as they bind more
tightly than the bound. The right operand of each takes what binds more tightly
than that operator. `fuel` bounds the number of operators. -/
def joined : (fuel : Nat) → (bound : Double) → (left : Formula) → Parse Formula
  | 0, _, left => pure left
  | fuel + 1, bound, left => do
    match ← binaryOp? g with
    | none => pure left
    | some (op, precedence) =>
      if precedence.atMost bound then pure left
      else
        advance
        let first ← operand
        let right ← joined fuel precedence first
        joined fuel bound (.binary op left right)

/-- Operands and binary operators in turn. The bound they start from is the least
precedence, which an operator of just that precedence does not exceed. -/
def chain : Parse Formula := do
  let first ← operand
  let c ← get
  joined g operand c.rest.length (Double.infinity true) first

end

/-- A reader of primaries, given one of the expressions inside them and whether
a filter is open around them. -/
abbrev PrimaryReader := (inner : Bool → Parse Formula) → (inside : Bool) → Parse Formula

/-- An expression over the given primaries; `depth` bounds the nesting, and
`inside` says whether a filter is open around it. -/
def expression {ι : Type} (g : Grammar ι) (first : PrimaryReader) :
    (depth : Nat) → (inside : Bool) → Parse Formula
  | 0, _ => fail .unexpectedEnd
  | depth + 1, inside =>
    let inner := expression g first depth
    choice inner inside (chain g (operand inner inside (first inner inside)))

def ofTokensWith {ι : Type} (g : Grammar ι) (first : PrimaryReader) (tokens : List Token) :
    Except ParseFault Formula :=
  if tokens.isEmpty then .error ⟨.empty, none⟩
  else
    match expression g first tokens.length false ⟨tokens, false⟩ with
    | .error fault => .error fault
    | .ok (e, c) =>
      match c.rest with
      | [] => .ok e
      | t :: _ => .error ⟨.unexpectedToken, some t⟩

def ofTokens {ι : Type} (g : Grammar ι) (tokens : List Token) : Except ParseFault Formula :=
  ofTokensWith g primary tokens

end Formula

/-! ## Reading a text -/

structure FormulaError where
  cause : SyntaxCause
  found : Option String
  position : Nat
deriving DecidableEq, Repr

/-- The ways in which reading a text can end without a formula. -/
inductive ReadFailure where
  | malformed (error : FormulaError)
  /-- A digit of another script was met where a number would start. -/
  | foreignDigit
  /-- The grammar has an empty symbol, and reading does not end. -/
  | endless
deriving DecidableEq, Repr

def FormulaError.message (e : FormulaError) (text : String) : String :=
  e.cause.text ++
    (match e.found with
      | some raw => ", got " ++ Text.quoted raw
      | none => "") ++
    " at position " ++ toString e.position ++ " in " ++ Text.quoted text

def ReadFailure.ofScan : ScanFault × Nat → ReadFailure
  | (.unterminatedString, n) => .malformed ⟨.unterminatedString, none, n⟩
  | (.invalidCharacter c, n) => .malformed ⟨.invalidCharacter c, none, n⟩
  | (.foreignDigit, _) => .foreignDigit
  | (.endless, _) => .endless

/-- A fault at a token, or at the end of a text of the given length, as a
failure of reading. -/
def ReadFailure.ofParse (length : Nat) (fault : ParseFault) : ReadFailure :=
  match fault.found with
  | none => .malformed ⟨fault.cause, none, length⟩
  | some t =>
    .malformed ⟨fault.cause,
      if fault.cause = .relativeOutsideFilter then none else some t.raw, t.position⟩

def tokenize {ι : Type} (g : Grammar ι) (text : String) : Except ReadFailure (List Token) :=
  (Token.tokenize g text.toList).mapError ReadFailure.ofScan

def Formula.parse {ι : Type} (g : Grammar ι) (text : String) : Except ReadFailure Formula := do
  let tokens ← tokenize g text
  (Formula.ofTokens g tokens).mapError (ReadFailure.ofParse text.toList.length)

end JexlScript
