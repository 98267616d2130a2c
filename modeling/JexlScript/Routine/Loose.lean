import JexlScript.Routine.Token
import JexlScript.Text.Blank
import JexlScript.Text.Digit

/-!
# Loose tokens

A file that has changed since a function was read from it may hold anything. To
find the end of a block in it the lines are read loosely: what makes no sense is
passed over, brackets are only counted, and a string that is not closed on its
line does not count as one. A statement ends with a line feed, alone or after a
carriage return. A line that goes back to no open block ends the reading, and so
does one that has only blanks and no line end.
-/

namespace JexlScript.Routine

inductive LooseKind where
  | word (text : String)
  | decorator
  | newline
  | comment (column : Nat)
  /-- The start of a deeper block, whose first line is set in by this many
  characters. -/
  | indent (column : Nat)
  | dedent
  | other
deriving DecidableEq, Repr

structure LooseToken where
  kind : LooseKind
  line : Nat

structure LooseState where
  string : Option Quotes
  brackets : Int
  joined : Bool
  /-- Whether a string is given up at a line that is not joined to the next one. It
  is so from a string between single quotes on until an open string has ended. -/
  givesUp : Bool
  columns : List Nat

/-! ## Strings and numbers -/

def afterString? (s : Quotes) : List Char → Option (List Char)
  | [] => none
  | ['\\'] => none
  | '\\' :: n :: cs => if n = '\n' then none else afterString? s cs
  | c :: cs =>
    if s.closes (c :: cs) then some ((c :: cs).drop s.length) else afterString? s cs

def endsStatement (cs : List Char) : Bool := cs = ['\n'] || cs = ['\r', '\n']

def isJoined (line : List Char) : Bool :=
  ['\n', '\\'].isPrefixOf line.reverse || ['\n', '\r', '\\'].isPrefixOf line.reverse

/-- Whether a string between single quotes, after the opening one, is joined to
the next line by a backslash before it ends. -/
def goesOn (quote : Char) : List Char → Bool
  | '\\' :: '\n' :: _ => true
  | '\\' :: '\r' :: '\n' :: _ => true
  | '\\' :: _ :: cs => goesOn quote cs
  | c :: cs => c ≠ quote && c ≠ '\n' && goesOn quote cs
  | [] => false

/-- The number of characters of digits with single underscores between them. -/
def looseDigits (isDigit : Char → Bool) : List Char → Nat
  | [] => 0
  | [c] => if isDigit c then 1 else 0
  | c :: n :: cs =>
    if !isDigit c then 0
    else if isDigit n then looseDigits isDigit (n :: cs) + 1
    else if n = '_' then
      match looseDigits isDigit cs with
      | 0 => 1
      | rest + 1 => rest + 3
    else 1

def looseExponent : List Char → Nat
  | e :: cs =>
    if e = 'e' || e = 'E' then
      let sign := if cs.head? = some '+' || cs.head? = some '-' then 1 else 0
      match looseDigits Char.isDigit (cs.drop sign) with
      | 0 => 0
      | rest + 1 => rest + 2 + sign
    else 0
  | [] => 0

/-- The number of characters of a number with a point or an exponent. -/
def looseFloat (cs : List Char) : Nat :=
  let whole := looseDigits Char.isDigit cs
  let rest := cs.drop whole
  if rest.head? = some '.' then
    let fraction := looseDigits Char.isDigit (rest.drop 1)
    if whole = 0 && fraction = 0 then 0
    else whole + 1 + fraction + looseExponent (rest.drop (1 + fraction))
  else
    match whole, looseExponent rest with
    | 0, _ | _, 0 => 0
    | whole, exponent => whole + exponent

/-- The number of characters of digits in another base, after their mark; they
may start with an underscore. -/
def looseBased (isDigit : Char → Bool) (cs : List Char) : Nat :=
  let gap := if cs.head? = some '_' then 1 else 0
  match looseDigits isDigit (cs.drop gap) with
  | 0 => 0
  | rest + 1 => rest + 1 + gap

/-- The number of characters of an integer. A decimal one has no leading
zeros. -/
def looseInt (cs : List Char) : Nat :=
  let decimal := looseDigits (if cs.head? = some '0' then (· = '0') else Char.isDigit) cs
  let based :=
    match cs with
    | '0' :: m :: rest =>
      if m = 'x' || m = 'X' then looseBased Text.isHexDigit rest
      else if m = 'o' || m = 'O' then looseBased (fun c => '0' ≤ c && c ≤ '7') rest
      else if m = 'b' || m = 'B' then looseBased (fun c => c = '0' || c = '1') rest
      else 0
    | _ => 0
  if based = 0 then decimal else based + 2

def isImaginaryMark (c : Option Char) : Bool := c = some 'j' || c = some 'J'

def looseNumber (cs : List Char) : Nat :=
  let whole := looseDigits Char.isDigit cs
  let float := looseFloat cs
  if 0 < whole && isImaginaryMark (cs.drop whole).head? then whole + 1
  else if 0 < float && isImaginaryMark (cs.drop float).head? then float + 1
  else if 0 < float then float
  else looseInt cs

/-! ## Lines -/

def isLooseWord (c : Char) : Bool :=
  c.isAlphanum || c = '_' || (128 ≤ c.toNat && (Text.isNamePart c || Text.isDigit c))

def looseWord (text : List Char) : LooseKind :=
  match text.head? with
  | some c => if Text.isNameStart c then .word (String.ofList text) else .other
  | none => .other

/-- The marks of a string, its quote and what follows, where a text starts with
these. -/
def looseQuote? (cs : List Char) : Option (List Char × Char × List Char) :=
  let mark := cs.takeWhile Char.isAlpha
  match marks? mark, cs.drop mark.length with
  | some _, q :: after => if q = '\x27' || q = '\x22' then some (mark, q, after) else none
  | _, _ => none

/-- Reads the tokens of a line from some column on; `line` counts the lines
before it, and `fuel` bounds the number of tokens. -/
def looseTokens (line : Nat) :
    (fuel : Nat) → LooseState → (column : Nat) → List Char → List LooseToken × LooseState
  | 0, s, _, _ => ([], s)
  | fuel + 1, s, column, cs =>
    let next (s : LooseState) (kind : LooseKind) (count : Nat) :=
      let (tokens, s) := looseTokens line fuel s (column + count) (cs.drop count)
      (⟨kind, line⟩ :: tokens, s)
    match cs with
    | [] => ([], s)
    | c :: rest =>
      if c = ' ' || c = '\t' || c = '\x0c' then looseTokens line fuel s (column + 1) rest
      else if c = '\\' && endsStatement rest then ([], { s with joined := true })
      else if c = '#' then
        next s (.comment column) (cs.takeWhile fun c => c ≠ '\r' && c ≠ '\n').length
      else if endsStatement cs then
        if 0 < s.brackets then ([], s) else ([⟨.newline, line⟩], s)
      else
        match looseQuote? cs with
        | some (mark, q, after) =>
          let triple := startsTwice q after
          let contents := if triple then after.drop 2 else after
          match afterString? ⟨q, triple⟩ contents with
          | some left => next s .other (cs.length - left.length)
          | none =>
            if triple || goesOn q contents then
              ([], { s with string := some ⟨q, triple⟩, givesUp := s.givesUp || !triple })
            else if mark.isEmpty then next s .other 1
            else next s (looseWord mark) mark.length
        | none =>
          let number := looseNumber cs
          if 0 < number then next s .other number
          else if isLooseWord c then
            let text := cs.takeWhile isLooseWord
            next s (looseWord text) text.length
          else if c = '(' || c = '[' || c = '{' then
            next { s with brackets := s.brackets + 1 } .other 1
          else if c = ')' || c = ']' || c = '}' then
            next { s with brackets := s.brackets - 1 } .other 1
          else
            match sign? cs with
            | some "@" => next s .decorator 1
            | some text => next s .other text.length
            | none => next s .other 1

/-- The column that a line is set in to, and the number of characters that set
it in. -/
def looseColumn : (column count : Nat) → List Char → Nat × Nat
  | column, count, ' ' :: cs => looseColumn (column + 1) (count + 1) cs
  | column, count, '\t' :: cs => looseColumn ((column / 8 + 1) * 8) (count + 1) cs
  | _, count, '\x0c' :: cs => looseColumn 0 (count + 1) cs
  | column, count, _ => (column, count)

/-- The tokens for a line that starts a statement, set in to a column by some
characters, and the columns after it; `none` if it goes back to no open
block. -/
def looseBlocks (line column count : Nat) (columns : List Nat) :
    Option (List LooseToken × List Nat) :=
  if columns.headD 0 < column then some ([⟨.indent count, line⟩], column :: columns)
  else if columns.contains column then
    let closed := (columns.takeWhile (· ≠ column)).length
    some (List.replicate closed ⟨.dedent, line⟩, columns.drop closed)
  else none

/-- Reads a line: its tokens and where the reading stands after it; `none` ends
the reading. -/
def looseLine (line : Nat) (s : LooseState) (cs : List Char) :
    List LooseToken × Option LooseState :=
  let tokens (s : LooseState) (column : Nat) (cs : List Char) :=
    looseTokens line (cs.length + 1) s column cs
  match s.string with
  | some string =>
    match afterString? string cs with
    | some left =>
      let s := { s with string := none, givesUp := false }
      let (ts, s) := tokens s (cs.length - left.length) left
      (⟨.other, line⟩ :: ts, some s)
    | none =>
      if !s.givesUp || isJoined cs then ([], some s)
      else ([⟨.other, line⟩], some { s with string := none })
  | none =>
    if s.brackets = 0 && !s.joined then
      let (column, count) := looseColumn 0 0 cs
      let content := cs.drop count
      if content.head? = some '#' then ([⟨.comment count, line⟩], some s)
      else if content.head? = some '\n' || content.head? = some '\r' then ([], some s)
      else
        match looseBlocks line column count s.columns with
        | none => ([], none)
        | some (blocks, columns) =>
          let (ts, s) := tokens { s with columns } count content
          (blocks ++ ts, some s)
    else
      let (ts, s) := tokens { s with joined := false } 0 cs
      (ts, some s)

def LooseState.isFresh (s : LooseState) : Bool :=
  s.string.isNone && s.brackets = 0 && !s.joined

/-- The end of the last statement, where the line that comes last does not end it. A
comment has nothing to end. -/
def looseEnd (line : Nat) (last : List Char) : List LooseToken :=
  let isClosed := match last.getLast? with
    | some c => c = '\n' || c = '\r'
    | none => true
  if isClosed || (last.dropWhile Text.isBlank).head? = some '#' then []
  else [⟨.newline, line - 1⟩]

/-- Reads lines with their line ends; `line` counts the lines before, and `last` is
the one just before. -/
def looseLines : (line : Nat) → LooseState → (last : List Char) → List (List Char) →
    List LooseToken
  | line, s, last, [] => if s.isFresh then looseEnd line last else []
  | line, s, last, cs :: rest =>
    if s.isFresh && (looseColumn 0 0 cs).2 = cs.length then looseEnd line last
    else
      match looseLine line s cs with
      | (ts, some s) => ts ++ looseLines (line + 1) s cs rest
      | (ts, none) => ts

def looseScan (lines : List (List Char)) : List LooseToken :=
  looseLines 0 ⟨none, 0, false, false, [0]⟩ [] lines

end JexlScript.Routine
