import JexlScript.Routine.Token

/-!
# Formatted strings

A formatted string holds expressions in braces, each with an optional
conversion and an optional format, which may hold expressions again. How an
expression is read is a parameter.
-/

namespace JexlScript.Routine

open Text (Points)

/-- Plain text up to the next brace: the text, what is left, and whether the
text ended in a doubled brace, after which it goes on. On the outer level a
closing brace must be doubled. `skip` counts the characters already taken up. -/
def plainText? (raw outer : Bool) :
    (skip : Nat) → List Char → Option (List Char × List Char × Bool)
  | _, [] => some ([], [], false)
  | skip + 1, c :: cs =>
    (plainText? raw outer skip cs).map fun (text, rest, again) => (c :: text, rest, again)
  | 0, c :: cs =>
    if c = '{' || c = '}' then
      if outer && cs.head? = some c then some ([c], cs.drop 1, true)
      else if outer && c = '}' then none
      else some ([], c :: cs, false)
    else
      (plainText? raw outer (takenUp raw c cs) cs).map fun (text, rest, again) =>
        (c :: text, rest, again)

def isLayout (c : Char) : Bool := c = ' ' || c = '\t' || c = '\n' || c = '\x0c'

/-- What is left of a text after blanks, line ends, joined lines and comments. -/
def afterLayout : (inComment : Bool) → List Char → List Char
  | _, [] => []
  | true, c :: cs => afterLayout (c ≠ '\n') cs
  | false, '\\' :: '\n' :: cs => afterLayout false cs
  | false, c :: cs =>
    if c = '#' then afterLayout true cs
    else if isLayout c then afterLayout false cs
    else c :: cs

/-- After an expression, the sign that asks for its text with the layout after
it, and what follows. -/
def selfText : List Char → List Char × List Char
  | '=' :: cs =>
    let rest := afterLayout false cs
    ('=' :: cs.take (cs.length - rest.length), rest)
  | cs => ([], cs)

def conversion? : List Char → Option (Option Char × List Char)
  | '!' :: c :: cs =>
    if c = 's' || c = 'r' || c = 'a' then some (some c, afterLayout false cs) else none
  | ['!'] => none
  | cs => some (none, cs)

/-- Reads a formatted text: its parts and what is left, which is nothing on the
outer level and the closing brace inside a format. `read` reads expressions, and
`fuel` bounds the number of steps. An expression that is asked for its text
comes with it, and shows as a literal would if nothing else is said. -/
def formattedFrom? (read : List Char → Option Expr) (raw : Bool) :
    (fuel level : Nat) → List Char → Option (List Part × List Char)
  | 0, _, _ => none
  | fuel + 1, level, cs => do
    let (text, rest, again) ← plainText? raw (level = 0) 0 cs
    let points ← unescape? raw text
    if again then
      let (parts, left) ← formattedFrom? read raw fuel level rest
      some (.text points :: parts, left)
    else
      match rest with
      | [] => if level = 0 then some ([.text points], []) else none
      | '{' :: after =>
        if 3 ≤ level then none
        else do
          let (expr, rest) ← bracedExpr? after
          if (afterLayout false expr).isEmpty then none
          else do
            let value ← read expr
            let (own, rest) := selfText rest
            let (conversion, rest) ← conversion? rest
            let (format, rest) ←
              match rest with
              | ':' :: format => do
                let (parts, rest) ← formattedFrom? read raw fuel (level + 1) format
                some (some parts, rest)
              | _ => some (none, rest)
            match rest with
            | '}' :: rest =>
              let (parts, left) ← formattedFrom? read raw fuel level rest
              let shown := if own.isEmpty then [] else Points.ofChars (expr ++ own)
              let conversion :=
                if own.isEmpty || conversion.isSome || format.isSome then conversion
                else some 'r'
              some (.text (points ++ shown) :: .value value conversion format :: parts, left)
            | _ => none
      | _ => if level = 0 then none else some ([.text points], rest)

mutual

/-- Joins texts that stand side by side, also inside formats, and leaves out
empty ones; `before` is the text before the parts. -/
def joinParts (before : Points) : List Part → List Part
  | [] => if before.isEmpty then [] else [.text before]
  | p :: ps =>
    match p with
    | .text points => joinParts (before ++ points) ps
    | .value value conversion format =>
      let rest := .value value conversion (joinFormat format) :: joinParts [] ps
      if before.isEmpty then rest else .text before :: rest

def joinFormat : Option (List Part) → Option (List Part)
  | none => none
  | some parts => some (joinParts [] parts)

end

def Quotation.parts? (read : List Char → Option Expr) (q : Quotation) : Option (List Part) :=
  (formattedFrom? read q.raw (2 * q.contents.length + 2) 0 q.contents).map Prod.fst

end JexlScript.Routine
