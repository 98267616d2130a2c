import JexlScript.Formula.Grammar
import JexlScript.Scalar
import JexlScript.Text.Blank
import JexlScript.Text.Digit
import JexlScript.Text.Quoted

/-!
# Tokens of a formula

`Token.scan` cuts a text into strings, numbers, words and symbols, with white
space between them. Words that the grammar knows are symbols too, and of the
other symbols the longest that fits is taken. `Token.foldSigns` then joins a
minus to the number after it wherever no operand stands before the minus.
-/

namespace JexlScript

inductive Lexeme where
  | literal (value : Scalar)
  | identifier (name : String)
  | symbol (kind : SymbolKind) (text : String)
deriving DecidableEq, Repr

/-- A lexeme with its spelling and the place where it starts. -/
structure Token where
  lexeme : Lexeme
  raw : String
  position : Nat
deriving DecidableEq, Repr

inductive ScanFault where
  | unterminatedString
  | invalidCharacter (c : Char)
  | foreignDigit
  /-- An empty symbol was met, which is taken over and over. -/
  | endless
deriving DecidableEq, Repr

namespace Token

/-! ## Words -/

/-- Whether a character may start a word: letters of Western European
languages, the underscore and the dollar sign. -/
def isWordStart (c : Char) : Bool :=
  c.isAlpha || c == '_' || c == '$' ||
    (0xc0 ≤ c.toNat && c.toNat ≤ 0xff && c.toNat != 0xd7 && c.toNat != 0xf7)

def isWordPart (c : Char) : Bool := isWordStart c || c.isDigit

def isWord : List Char → Bool
  | [] => false
  | c :: cs => isWordStart c && cs.all isWordPart

def word {ι : Type} (g : Grammar ι) (text : String) : Lexeme :=
  if text = "true" then .literal (.bool true)
  else if text = "false" then .literal (.bool false)
  else
    match g.elements.get? text with
    | some element => .symbol element.kind text
    | none => .identifier text

/-! ## Strings -/

/-- Reads a string after its opening quote: its value, and the number of
characters up to and with the closing quote. A backslash counts as itself,
unless the quote or another backslash follows it. -/
def string? (quote : Char) : List Char → Option (List Char × Nat)
  | [] => none
  | [c] => if c = quote then some ([], 1) else none
  | c :: n :: cs =>
    if c = '\\' && (n = quote || n = '\\') then
      (string? quote cs).map fun (value, length) => (n :: value, length + 2)
    else if c = quote then some ([], 1)
    else (string? quote (n :: cs)).map fun (value, length) => (c :: value, length + 1)

/-! ## Numbers -/

def digitsValue (ds : List Char) : Nat :=
  ds.foldl (fun n d => 10 * n + (d.toNat - 48)) 0

/-- Reads a number: its value and its length. It is a run of digits, with a
point and more digits where these follow. -/
def number? (cs : List Char) : Option (Double × Nat) :=
  let whole := cs.takeWhile Char.isDigit
  let fraction :=
    match cs.drop whole.length with
    | '.' :: rest => rest.takeWhile Char.isDigit
    | _ => []
  if !fraction.isEmpty then
    some (Double.ofDecimal false (digitsValue (whole ++ fraction)) (-fraction.length),
      whole.length + 1 + fraction.length)
  else if !whole.isEmpty then
    some (Double.ofDecimal false (digitsValue whole) 0, whole.length)
  else none

/-! ## Symbols -/

/-- Puts a text behind those that are at least as long. -/
def insertLongest (s : List Char) : List (List Char) → List (List Char)
  | [] => [s]
  | t :: ts => if t.length < s.length then s :: t :: ts else t :: insertLongest s ts

/-- The symbols of the grammar that are not words, longest first. -/
def symbols {ι : Type} (g : Grammar ι) : List (List Char) :=
  ((g.elements.names.map String.toList).filter fun s => !isWord s).foldl
    (fun sorted s => insertLongest s sorted) []

/-- The first of the symbols, longest first, that the text starts with; empty
when there is none. -/
def longestSymbol {ι : Type} (g : Grammar ι) (cs : List Char) : List Char :=
  ((symbols g).find? fun s => s.isPrefixOf cs).getD []

/-! ## Cutting a text -/

/-- The lexeme that a text starts with, and its length. -/
def next {ι : Type} (g : Grammar ι) (c : Char) (cs : List Char) :
    Except ScanFault (Lexeme × Nat) :=
  if c = '\x27' || c = '\x22' then
    match string? c cs with
    | some (value, length) => .ok (.literal (.text (String.ofList value)), length + 1)
    | none => .error .unterminatedString
  else if Text.isDigit c then
    match number? (c :: cs) with
    | some (value, length) => .ok (.literal (.double value), length)
    | none => .error .foreignDigit
  else if isWordStart c then
    let text := c :: cs.takeWhile isWordPart
    .ok (word g (String.ofList text), text.length)
  else
    let text := longestSymbol g (c :: cs)
    match g.elements.get? (String.ofList text) with
    | some element =>
      if text.isEmpty then .error .endless
      else .ok (.symbol element.kind (String.ofList text), text.length)
    | none => .error (.invalidCharacter c)

/-- Cuts a text into tokens, from left to right. `position` counts the
characters before the text, and `skip` those of it that belong to the last
token. -/
def scanFrom {ι : Type} (g : Grammar ι) :
    (position skip : Nat) → List Char → Except (ScanFault × Nat) (List Token)
  | _, _, [] => .ok []
  | position, skip + 1, _ :: cs => scanFrom g (position + 1) skip cs
  | position, 0, c :: cs =>
    if Text.isBlank c then scanFrom g (position + 1) 0 cs
    else
      match next g c cs with
      | .error fault => .error (fault, position)
      | .ok (lexeme, length) => do
        let tokens ← scanFrom g (position + 1) (length - 1) cs
        .ok (⟨lexeme, String.ofList ((c :: cs).take length), position⟩ :: tokens)

/-- The tokens of a text, before signs are joined to numbers. -/
def scan {ι : Type} (g : Grammar ι) (text : List Char) :
    Except (ScanFault × Nat) (List Token) :=
  scanFrom g 0 0 text

/-! ## Signs -/

def stop (t : Token) : Nat := t.position + t.raw.toList.length

def isMinus (t : Token) : Bool := t.lexeme == .symbol .binaryOp "-"

def number (t : Token) : Option Double :=
  match t.lexeme with
  | .literal (.double d) => some d
  | _ => none

/-- Whether a minus after this token can only be a sign, since an operand is
due. Nothing before it counts as well. -/
def signFollows : Option Token → Bool
  | none => true
  | some t =>
    match t.lexeme with
    | .symbol kind _ =>
      [SymbolKind.binaryOp, .unaryOp, .openParen, .openBracket, .question, .colon,
        .comma].contains kind
    | _ => false

def signed (text : List Char) (minus number : Token) (value : Double) : Token :=
  ⟨.literal (.double value.neg),
    String.ofList ((text.drop minus.position).take (number.stop - minus.position)),
    minus.position⟩

/-- Joins a minus to the number after it where a sign is due; `before` is the
token before the list. -/
def foldSigns (text : List Char) : (before : Option Token) → List Token → List Token
  | _, [] => []
  | _, [t] => [t]
  | before, t :: u :: ts =>
    match u.number with
    | some value =>
      if t.isMinus && signFollows before then
        let joined := signed text t u value
        joined :: foldSigns text (some joined) ts
      else t :: foldSigns text (some t) (u :: ts)
    | none => t :: foldSigns text (some t) (u :: ts)

def tokenize {ι : Type} (g : Grammar ι) (text : List Char) :
    Except (ScanFault × Nat) (List Token) := do
  let tokens ← scan g text
  .ok (foldSigns text none tokens)

end Token

end JexlScript
