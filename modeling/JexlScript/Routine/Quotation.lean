import JexlScript.Routine.Number
import JexlScript.Text.CharName

/-!
# Strings in routines

A string is written between single or triple quotes, with marks before it: raw
strings keep their backslashes, byte strings hold ASCII only, and formatted
strings hold expressions in braces.
-/

namespace JexlScript.Routine

open Text (Points digitsIn isHexDigit)

structure Quotation where
  /-- Whether it is marked with a small `u`. -/
  marked : Bool
  raw : Bool
  bytes : Bool
  formatted : Bool
  contents : List Char
deriving DecidableEq, Repr

/-- The marks that may stand before a string: the string with these marks and
the given contents. -/
def marks? (word : List Char) : Option (List Char → Quotation) :=
  match String.ofList (word.map Char.toLower) with
  | "" => some (Quotation.mk false false false false)
  | "u" => some (Quotation.mk (word = ['u']) false false false)
  | "r" => some (Quotation.mk false true false false)
  | "b" => some (Quotation.mk false false true false)
  | "f" => some (Quotation.mk false false false true)
  | "br" | "rb" => some (Quotation.mk false true true false)
  | "fr" | "rf" => some (Quotation.mk false true false true)
  | _ => none

/-! ## Quotes -/

/-- The quotes around a string: their character, and whether there are three. -/
structure Quotes where
  quote : Char
  triple : Bool
deriving DecidableEq, Repr

def startsTwice (c : Char) : List Char → Bool
  | a :: b :: _ => a = c && b = c
  | _ => false

def Quotes.length (q : Quotes) : Nat := if q.triple then 3 else 1

/-- Whether a text starts with the closing quotes. -/
def Quotes.closes (q : Quotes) : List Char → Bool
  | c :: cs => c = q.quote && (!q.triple || startsTwice c cs)
  | [] => false

/-- The quotes that a text starts with. -/
def quotes? : List Char → Option Quotes
  | c :: cs => if c = '\x27' || c = '\x22' then some ⟨c, startsTwice c cs⟩ else none
  | [] => none

/-- The contents of a string between single quotes, after the opening one, and
what follows it. A character after a backslash never closes the string. -/
def singleQuoted? (quote : Char) : List Char → Option (List Char × List Char)
  | [] => none
  | [c] => if c = quote then some ([], []) else none
  | c :: n :: cs =>
    if c = '\\' then (singleQuoted? quote cs).map fun (s, rest) => (c :: n :: s, rest)
    else if c = quote then some ([], n :: cs)
    else if c = '\n' then none
    else (singleQuoted? quote (n :: cs)).map fun (s, rest) => (c :: s, rest)

/-- The contents of a string between triple quotes, after the opening ones, and
what follows it. -/
def tripleQuoted? (quote : Char) : List Char → Option (List Char × List Char)
  | [] => none
  | '\\' :: n :: cs => (tripleQuoted? quote cs).map fun (s, rest) => ('\\' :: n :: s, rest)
  | c :: cs =>
    if c = quote && startsTwice quote cs then some ([], cs.drop 2)
    else (tripleQuoted? quote cs).map fun (s, rest) => (c :: s, rest)

/-- The contents of a string, after its opening quotes, and what follows it. -/
def Quotes.contents? (q : Quotes) (cs : List Char) : Option (List Char × List Char) :=
  if q.triple then tripleQuoted? q.quote cs else singleQuoted? q.quote cs

/-! ## Escapes -/

/-- The number of characters of a name in braces after the mark of such an
escape, up to the closing brace or the end of the text. -/
def nameLength : List Char → Nat
  | '{' :: cs => min ((cs.takeWhile (· ≠ '}')).length + 2) (cs.length + 1)
  | cs => min 1 cs.length

/-- The number of characters that a character of a formatted string takes up after
it: a backslash takes up the next one, unless that is a brace, and a name in braces
after it. -/
def takenUp (raw : Bool) (c : Char) : List Char → Nat
  | n :: cs =>
    if c ≠ '\\' || n = '{' || n = '}' then 0
    else if n = 'N' && !raw then 1 + nameLength cs
    else 1
  | [] => 0

/-- Reads a fixed number of hexadecimal digits: their value and what
follows. -/
def hexRun? (count : Nat) (cs : List Char) : Option (Nat × List Char) :=
  let ds := cs.take count
  if ds.length = count && ds.all isHexDigit then some (digitsIn 16 ds, cs.drop count) else none

/-- The octal digits, three at most, that a text starts with. -/
def octalRun (cs : List Char) : List Char :=
  (cs.take 3).takeWhile fun c => '0' ≤ c && c ≤ '7'

def point? (n : Nat) : Option Nat := if n < 0x110000 then some n else none

def shortEscape? : Char → Option Points
  | '\n' => some []
  | '\\' => some [0x5c]
  | '\x27' => some [0x27]
  | '\x22' => some [0x22]
  | 'a' => some [7]
  | 'b' => some [8]
  | 'f' => some [12]
  | 'n' => some [10]
  | 'r' => some [13]
  | 't' => some [9]
  | 'v' => some [11]
  | _ => none

def bracedName? : List Char → Option (List Char)
  | '{' :: cs =>
    let name := cs.takeWhile (· ≠ '}')
    if name.length < cs.length then some name else none
  | _ => none

/-- What an escape stands for, and the number of characters after the backslash
that belong to it; `none` where the escape is malformed. An unknown escape
stands for itself with its backslash. -/
def escape? : List Char → Option (Points × Nat)
  | [] => some ([0x5c], 0)
  | c :: cs =>
    match shortEscape? c, c with
    | some points, _ => some (points, 1)
    | none, 'x' => (hexRun? 2 cs).map fun (n, _) => ([n], 3)
    | none, 'u' => (hexRun? 4 cs).map fun (n, _) => ([n], 5)
    | none, 'U' => do
      let (n, _) ← hexRun? 8 cs
      let n ← point? n
      some ([n], 9)
    | none, 'N' => do
      let name ← bracedName? cs
      let n ← Text.codeNamed? name
      some ([n], name.length + 3)
    | none, c =>
      let ds := octalRun (c :: cs)
      if ds.isEmpty then some ([0x5c, c.toNat], 1) else some ([digitsIn 8 ds], ds.length)

/-- Replaces the escapes of a text; `skip` counts the characters that belong to
the last one. -/
def unescapeFrom? : (skip : Nat) → List Char → Option Points
  | _, [] => some []
  | skip + 1, _ :: cs => unescapeFrom? skip cs
  | 0, c :: cs =>
    if c = '\\' then do
      let (points, length) ← escape? cs
      let rest ← unescapeFrom? length cs
      some (points ++ rest)
    else (unescapeFrom? 0 cs).map (c.toNat :: ·)

def unescape? (raw : Bool) (cs : List Char) : Option Points :=
  if raw then some (Points.ofChars cs) else unescapeFrom? 0 cs

/-- What an escape in a byte string stands for, and the number of characters
after the backslash that belong to it. Only the value of a byte is kept of a
number, and escapes by larger numbers or by name are unknown. -/
def byteEscape? : List Char → Option (List Nat × Nat)
  | [] => some ([0x5c], 0)
  | c :: cs =>
    match shortEscape? c, c with
    | some bytes, _ => some (bytes, 1)
    | none, 'x' => (hexRun? 2 cs).map fun (n, _) => ([n], 3)
    | none, c =>
      let ds := octalRun (c :: cs)
      if ds.isEmpty then some ([0x5c, c.toNat], 1)
      else some ([digitsIn 8 ds % 256], ds.length)

/-- Replaces the escapes of a byte string; `skip` counts the characters that
belong to the last one. -/
def unescapeBytesFrom? : (skip : Nat) → List Char → Option (List Nat)
  | _, [] => some []
  | skip + 1, _ :: cs => unescapeBytesFrom? skip cs
  | 0, c :: cs =>
    if c = '\\' then do
      let (bytes, length) ← byteEscape? cs
      let rest ← unescapeBytesFrom? length cs
      some (bytes ++ rest)
    else (unescapeBytesFrom? 0 cs).map (c.toNat :: ·)

/-- The bytes of a byte string, whose characters are ASCII. -/
def Quotation.bytes? (q : Quotation) : Option (List Nat) :=
  if !q.contents.all (·.toNat < 128) then none
  else if q.raw then some (Points.ofChars q.contents)
  else unescapeBytesFrom? 0 q.contents

def Quotation.points? (q : Quotation) : Option Points := unescape? q.raw q.contents

end JexlScript.Routine
