import JexlScript.Routine.Quotation
import JexlScript.Text.CharClass

/-!
# Tokens of a routine

Names, numbers, strings and signs, and the layout of the lines: where a logical
line ends, and where a block of deeper lines starts and ends. Within brackets
line ends mean nothing. Scanning never fails: where the text makes no sense the
last token says so, and whoever reads on stops there.
-/

namespace JexlScript.Routine

inductive TokenKind where
  | word (text : String)
  | number (value : Constant)
  | string (quotation : Quotation)
  | sign (text : String)
  | comment (column : Nat)
  | newline
  /-- The start of a deeper block, whose lines start at this column. -/
  | indent (column : Nat)
  | dedent
  | ending
  | broken
deriving DecidableEq, Repr

structure Token where
  kind : TokenKind
  span : Span
deriving DecidableEq, Repr

/-! ## Line ends -/

def unifyLineEnds : List Char → List Char
  | '\r' :: '\n' :: cs => '\n' :: unifyLineEnds cs
  | '\r' :: cs => '\n' :: unifyLineEnds cs
  | c :: cs => c :: unifyLineEnds cs
  | [] => []

/-- The places of a text: its characters, where a carriage return and the line feed
after it are one. There are as many as characters once the line ends are line
feeds. -/
def places : List Char → List (List Char)
  | '\r' :: '\n' :: cs => ['\r', '\n'] :: places cs
  | c :: cs => [c] :: places cs
  | [] => []

def closeLastLine (cs : List Char) : List Char :=
  if cs.getLast? = some '\n' then cs else cs ++ ['\n']

/-! ## Signs -/

def signs : List String :=
  ["**=", "//=", ">>=", "<<=", "...", "**", "//", ">>", "<<", "<=", ">=", "==", "!=", "->",
    "+=", "-=", "*=", "/=", "%=", "@=", "&=", "|=", "^=", ":=", "<>", "+", "-", "*", "/", "%",
    "@", "&", "|", "^", "~", "<", ">", "(", ")", "[", "]", "\x7b", "\x7d", ",", ":", ".", ";",
    "="]

def sign? (cs : List Char) : Option String := signs.find? fun s => s.toList.isPrefixOf cs

def closingOf : Char → Char
  | '(' => ')'
  | '[' => ']'
  | _ => '}'

/-- The open brackets after a sign, innermost first; `none` where a bracket
closes nothing or the wrong one, or too many are open. -/
def bracketsAfter (sign : String) (brackets : List Char) : Option (List Char) :=
  match sign.toList with
  | [c] =>
    if c = '(' || c = '[' || c = '{' then
      if 200 ≤ brackets.length then none else some (c :: brackets)
    else if c = ')' || c = ']' || c = '}' then
      match brackets with
      | opened :: others => if closingOf opened = c then some others else none
      | [] => none
    else some brackets
  | _ => some brackets

/-! ## Indentation -/

/-- How far a line is set in: with tabs reaching to the next multiple of eight,
and with each tab counted as one. Both have to agree on what is deeper. -/
structure Depth where
  wide : Nat
  narrow : Nat
deriving DecidableEq, Repr

/-- The depth of a line, and the number of characters that set it in. A form
feed starts the count again; across a line joined by a backslash the depth
before it counts. -/
def lineDepth : (depth : Depth) → (joined : Option Depth) → (count : Nat) → List Char →
    Option (Depth × Nat)
  | d, joined, n, [] => some (joined.getD d, n)
  | d, joined, n, [c] =>
    match c with
    | ' ' => some (joined.getD ⟨d.wide + 1, d.narrow + 1⟩, n + 1)
    | '\t' => some (joined.getD ⟨(d.wide / 8 + 1) * 8, d.narrow + 1⟩, n + 1)
    | '\x0c' => some (joined.getD ⟨0, 0⟩, n + 1)
    | '\\' => none
    | _ => some (joined.getD d, n)
  | d, joined, n, c :: m :: cs =>
    match c with
    | ' ' => lineDepth ⟨d.wide + 1, d.narrow + 1⟩ joined (n + 1) (m :: cs)
    | '\t' => lineDepth ⟨(d.wide / 8 + 1) * 8, d.narrow + 1⟩ joined (n + 1) (m :: cs)
    | '\x0c' => lineDepth ⟨0, 0⟩ joined (n + 1) (m :: cs)
    | '\\' =>
      if m = '\n' && !cs.isEmpty then
        let held :=
          match joined with
          | some j => some j
          | none => if d.wide = 0 then none else some ⟨d.wide, d.wide⟩
        lineDepth d held (n + 2) cs
      else none
    | _ => some (joined.getD d, n)

def closeBlocks (d : Depth) : List Depth → Nat × List Depth
  | [] => (0, [])
  | top :: others =>
    if d.wide < top.wide && !others.isEmpty then
      let (n, left) := closeBlocks d others
      (n + 1, left)
    else (0, top :: others)

/-- The tokens that a line's depth gives rise to, and the depths of the open
blocks after it; `none` where it fits no open block. -/
def blockTokens (d : Depth) (place : Span) (opened : List Depth) :
    Option (List Token × List Depth) :=
  match opened with
  | [] => none
  | top :: _ =>
    if d.wide = top.wide then
      if d.narrow = top.narrow then some ([], opened) else none
    else if top.wide < d.wide then
      if d.narrow ≤ top.narrow || 100 ≤ opened.length then none
      else some ([⟨.indent d.wide, place⟩], d :: opened)
    else
      let (n, left) := closeBlocks d opened
      if left.head? = some d then some (List.replicate n ⟨.dedent, place⟩, left) else none

/-! ## Formatted strings

The expressions in a formatted string may hold strings again, between whatever
quotes. So where it ends is only found by a scan through all of them. -/

/-- What the scan of a formatted string is inside of. -/
inductive Layer where
  /-- A plain string. -/
  | string (quotes : Quotes)
  /-- The text of a formatted string, or of a format at some level in it. -/
  | text (quotes : Quotes) (raw : Bool) (level : Nat)
  /-- An expression in braces, with the brackets open in it. -/
  | code (brackets : List Char)

/-- A step through formatted text, from a character on and inside the given layers:
the layers after it, and the number of characters it takes. Only outside of a format
are braces doubled, and formats may stand in one another three deep. -/
def textStep? (q : Quotes) (raw : Bool) (level : Nat) (below : List Layer) (c : Char)
    (cs : List Char) : Option (List Layer × Nat) :=
  let here := Layer.text q raw level :: below
  let isDoubled := level = 0 && cs.head? = some c
  if q.closes (c :: cs) then if level = 0 then some (below, q.length) else none
  else if c = '\n' && !q.triple then none
  else if c = '{' then
    if isDoubled then some (here, 2)
    else if 3 ≤ level then none
    else some (.code [] :: here, 1)
  else if c = '}' then
    if isDoubled then some (here, 2)
    -- the format ends, and with it the expression that it is for
    else if 0 < level then some (below.drop 1, 1)
    else none
  else some (here, takenUp raw c cs + 1)

/-- A step through an expression in braces. Outside of brackets a colon starts a
format. -/
def codeStep? (brackets : List Char) (below : List Layer) (c : Char) (cs : List Char) :
    Option (List Layer × Nat) :=
  let here := Layer.code brackets :: below
  if isWordish c || c = '\x27' || c = '\x22' then
    let word := (c :: cs).takeWhile isWordish
    match marks? word, quotes? ((c :: cs).drop word.length) with
    | some marked, some q =>
      let string := if (marked []).formatted then .text q (marked []).raw 0 else .string q
      some (string :: here, word.length + q.length)
    | _, _ => some (here, word.length)
  else if c = '#' then some (here, (cs.takeWhile (· ≠ '\n')).length + 1)
  else if c = '\\' then if cs.head? = some '\n' then some (here, 2) else none
  else if c = '}' && brackets.isEmpty then some (below, 1)
  else if c = ':' && brackets.isEmpty then
    match below with
    | .text q raw level :: _ => some (.text q raw (level + 1) :: here, 1)
    | _ => none
  else if (c = '!' || c = '=' || c = '<' || c = '>') && cs.head? = some '=' then some (here, 2)
  else (bracketsAfter (String.singleton c) brackets).map fun brackets => (.code brackets :: below, 1)

def layersAfter? : List Layer → Char → List Char → Option (List Layer × Nat)
  | [], _, _ => none
  | .string q :: below, c, cs =>
    if q.closes (c :: cs) then some (below, q.length)
    else if c = '\n' && !q.triple then none
    else some (.string q :: below, if c = '\\' then 2 else 1)
  | .text q raw level :: below, c, cs => textStep? q raw level below c cs
  | .code brackets :: below, c, cs => codeStep? brackets below c cs

/-- Scans a text inside of layers up to where it stops: what comes before that, and
what is left from there on; `skip` counts the characters already taken up. -/
def scanLayers? (stops : List Layer → List Char → Bool) :
    (skip : Nat) → List Layer → List Char → Option (List Char × List Char)
  | _, _, [] => none
  | skip + 1, layers, c :: cs =>
    (scanLayers? stops skip layers cs).map fun (text, rest) => (c :: text, rest)
  | 0, layers, c :: cs =>
    if stops layers (c :: cs) then some ([], c :: cs)
    else do
      let (layers, taken) ← layersAfter? layers c cs
      let (text, rest) ← scanLayers? stops (taken - 1) layers cs
      some (c :: text, rest)

/-- The contents of a formatted string, after its opening quotes, and what follows
it. -/
def formattedText? (q : Quotes) (raw : Bool) (cs : List Char) : Option (List Char × List Char) :=
  let atEnd (layers : List Layer) (cs : List Char) : Bool := layers.length = 1 && q.closes cs
  (scanLayers? atEnd 0 [.text q raw 0] cs).map fun (text, rest) => (text, rest.drop q.length)

/-- Whether a text starts with what ends an expression in braces. -/
def endsCode : List Layer → List Char → Bool
  | [.code []], c :: cs =>
    c = '}' || c = ':' || ((c = '!' || c = '=') && cs.head? ≠ some '=')
  | _, _ => false

/-- The expression in a brace, up to the sign that ends it, and what is left
from there. -/
def bracedExpr? (cs : List Char) : Option (List Char × List Char) :=
  scanLayers? endsCode 0 [.code []] cs

/-! ## Scanning -/

def isName : List Char → Bool
  | [] => false
  | c :: cs => Text.isNameStart c && cs.all Text.isNamePart

/-- The token that a text starts with, and its length; blanks, comments, line
ends and joined lines are not among them. -/
def lexeme? (cs : List Char) : Option (TokenKind × Nat) :=
  match cs with
  | [] => none
  | c :: rest =>
    if c.isDigit || (c = '.' && (rest.head?.map Char.isDigit).getD false) then do
      let (value, after) ← number? cs
      some (.number value, cs.length - after.length)
    else if isWordish c || c = '\x27' || c = '\x22' then
      let text := cs.takeWhile isWordish
      let after := cs.drop text.length
      match marks? text, quotes? after with
      | some marked, some q => do
        let empty := marked []
        let contents := after.drop q.length
        let (contents, after) ←
          if empty.formatted then formattedText? q empty.raw contents else q.contents? contents
        some (.string (marked contents), cs.length - after.length)
      | _, _ => if isName text then some (.word (String.ofList text), text.length) else none
    else (sign? cs).map fun s => (.sign s, s.toList.length)

structure ScanState where
  blocks : List Depth
  brackets : List Char
  lineStart : Bool
  column : Nat

def endTokens (s : ScanState) (position : Nat) : List Token :=
  let here : Span := ⟨position, position⟩
  if s.brackets.isEmpty then
    List.replicate (s.blocks.length - 1) ⟨.dedent, here⟩ ++ [⟨.ending, here⟩]
  else [⟨.broken, here⟩]

/-- Scans a text; `position` counts the characters before it, and `fuel` bounds
the number of steps, each of which takes up a character. -/
def scanFrom : (fuel : Nat) → ScanState → (position : Nat) → List Char → List Token
  | 0, s, position, _ => endTokens s position
  | fuel + 1, s, position, cs =>
    let here : Span := ⟨position, position⟩
    match cs with
    | [] => endTokens s position
    | c :: rest =>
      if s.lineStart then
        match lineDepth ⟨0, 0⟩ none 0 cs with
        | none => [⟨.broken, here⟩]
        | some (depth, count) =>
          let after := cs.drop count
          let s := { s with lineStart := false, column := s.column + count }
          match after with
          | [] => endTokens s position
          | n :: left =>
            if n = '\n' then
              scanFrom fuel { s with lineStart := true, column := 0 } (position + count + 1) left
            else if n = '#' then
              let text := left.takeWhile (· ≠ '\n')
              let stop := position + count + 1 + text.length
              ⟨.comment (s.column), ⟨position + count, stop⟩⟩ ::
                scanFrom fuel { s with lineStart := true, column := 0 } (stop + 1)
                  (left.drop (text.length + 1))
            else if !s.brackets.isEmpty then scanFrom fuel s (position + count) after
            else
              match blockTokens depth ⟨position, position + count⟩ s.blocks with
              | none => [⟨.broken, here⟩]
              | some (tokens, blocks) =>
                tokens ++ scanFrom fuel { s with blocks } (position + count) after
      else if c = ' ' || c = '\t' || c = '\x0c' then
        scanFrom fuel { s with column := s.column + 1 } (position + 1) rest
      else if c = '#' then
        let text := rest.takeWhile (· ≠ '\n')
        let stop := position + 1 + text.length
        ⟨.comment s.column, ⟨position, stop⟩⟩ ::
          scanFrom fuel { s with column := s.column + 1 + text.length } stop
            (rest.drop text.length)
      else if c = '\n' then
        let next := { s with lineStart := true, column := 0 }
        if s.brackets.isEmpty then
          ⟨.newline, ⟨position, position + 1⟩⟩ :: scanFrom fuel next (position + 1) rest
        else scanFrom fuel next (position + 1) rest
      else if c = '\\' then
        match rest with
        | '\n' :: after =>
          if after.isEmpty then [⟨.broken, here⟩]
          else scanFrom fuel { s with column := 0 } (position + 2) after
        | _ => [⟨.broken, here⟩]
      else
        match lexeme? cs with
        | none => [⟨.broken, here⟩]
        | some (kind, length) =>
          let brackets :=
            match kind with
            | .sign text => bracketsAfter text s.brackets
            | _ => some s.brackets
          match brackets with
          | none => [⟨.broken, here⟩]
          | some brackets =>
            ⟨kind, ⟨position, position + length⟩⟩ ::
              scanFrom fuel { s with brackets, column := s.column + length } (position + length)
                (cs.drop length)

def scan (text : List Char) : List Token :=
  scanFrom (2 * text.length + 1) ⟨[⟨0, 0⟩], [], true, 0⟩ 0 text

def Token.isComment (t : Token) : Bool :=
  match t.kind with
  | .comment _ => true
  | _ => false

def tokens (text : List Char) : List Token :=
  (scan (closeLastLine (unifyLineEnds text))).filter (!·.isComment)

end JexlScript.Routine
