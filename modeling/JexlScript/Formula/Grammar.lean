import JexlScript.Callable
import JexlScript.Number.Double
import JexlScript.Table

/-!
# Grammars

The symbols of formulas. Punctuation is fixed in kind, operators carry a
precedence and an implementation, and both can be registered anew or removed;
so can the transforms and functions that formulas call. What an implementation
is stays open: `stock` registers callables.
-/

namespace JexlScript

inductive SymbolKind where
  | dot
  | openBracket
  | closeBracket
  | pipe
  | openCurl
  | closeCurl
  | colon
  | comma
  | openParen
  | closeParen
  | question
  | binaryOp
  | unaryOp
deriving DecidableEq, Repr

structure Element (ι : Type) where
  kind : SymbolKind
  precedence : Double
  implementation : Option ι
deriving Repr

/-- The symbols, functions and transforms that formulas may use. -/
structure Grammar (ι : Type) where
  elements : Table (Element ι)
  functions : Table ι
  transforms : Table ι

namespace Grammar

variable {ι : Type}

def unaryPrecedence : Double := Double.infinity false

def lookup? (g : Grammar ι) (symbol : String) (kind : SymbolKind) : Option (Element ι) :=
  (g.elements.get? symbol).filter (·.kind = kind)

def addTransform (g : Grammar ι) (name : String) (impl : ι) : Grammar ι :=
  { g with transforms := Table.set g.transforms name impl }

def addTransforms (g : Grammar ι) (table : List (String × ι)) : Grammar ι :=
  { g with transforms := Table.setAll g.transforms table }

def addFunction (g : Grammar ι) (name : String) (impl : ι) : Grammar ι :=
  { g with functions := Table.set g.functions name impl }

def addFunctions (g : Grammar ι) (table : List (String × ι)) : Grammar ι :=
  { g with functions := Table.setAll g.functions table }

def addBinaryOp (g : Grammar ι) (symbol : String) (precedence : Double) (impl : ι) : Grammar ι :=
  { g with elements := Table.set g.elements symbol ⟨.binaryOp, precedence, some impl⟩ }

def addUnaryOp (g : Grammar ι) (symbol : String) (impl : ι) : Grammar ι :=
  { g with elements := Table.set g.elements symbol ⟨.unaryOp, unaryPrecedence, some impl⟩ }

def removeOp (g : Grammar ι) (symbol : String) : Grammar ι :=
  if (g.lookup? symbol .binaryOp).isSome || (g.lookup? symbol .unaryOp).isSome then
    { g with elements := Table.remove g.elements symbol }
  else g

/-! ## The stock grammar -/

def punctuation (kind : SymbolKind) : Element Callable := ⟨kind, Double.zero, none⟩

def stockBinary (precedence : Nat) (impl : Callable) : Element Callable :=
  ⟨.binaryOp, Double.ofRatio false precedence 1, some impl⟩

/-- An operator implemented by a two-line function over `left` and `right`. -/
def stockFunction (name body : String) : Callable :=
  ⟨name, some ("def " ++ name ++ "(left, right):\n\treturn " ++ body ++ "\n")⟩

def stockElements : Table (Element Callable) :=
  [(".", punctuation .dot),
    ("[", punctuation .openBracket),
    ("]", punctuation .closeBracket),
    ("|", punctuation .pipe),
    ("\x7b", punctuation .openCurl),
    ("\x7d", punctuation .closeCurl),
    (":", punctuation .colon),
    (",", punctuation .comma),
    ("(", punctuation .openParen),
    (")", punctuation .closeParen),
    ("?", punctuation .question),
    ("+", stockBinary 30 (.native "add")),
    ("-", stockBinary 30 (.native "sub")),
    ("*", stockBinary 40 (.native "mul")),
    ("/", stockBinary 40 (.native "truediv")),
    ("//", stockBinary 40 (stockFunction "floor_div" "math.floor(left / right)")),
    ("%", stockBinary 40 (.native "mod")),
    ("^", stockBinary 50 (.native "pow")),
    ("==", stockBinary 20 (.native "eq")),
    ("!=", stockBinary 20 (.native "ne")),
    (">", stockBinary 20 (.native "gt")),
    (">=", stockBinary 20 (.native "ge")),
    ("<", stockBinary 20 (.native "lt")),
    ("<=", stockBinary 20 (.native "le")),
    ("&&", stockBinary 10 (stockFunction "both" "left and right")),
    ("||", stockBinary 10 (stockFunction "either" "left or right")),
    ("in", stockBinary 20 (stockFunction "contains" "left in right")),
    ("!", ⟨.unaryOp, unaryPrecedence, some (.native "not_")⟩)]

def stock : Grammar Callable := ⟨stockElements, [], []⟩

end Grammar

end JexlScript
