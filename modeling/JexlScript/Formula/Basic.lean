import JexlScript.Names
import JexlScript.Scalar
import JexlScript.Table

/-!
# Formulas

The tree of a Jexl expression. Names are either roots, `a`, or fields of a
parent, `a.b`; a relative name, `.a`, is read from the element that the
enclosing filter looks at.
-/

namespace JexlScript

inductive Formula where
  | literal (value : Scalar)
  /-- `name`, or `.name` when relative. -/
  | root (name : String) (relative : Bool)
  /-- `parent.name` -/
  | field (parent : Formula) (name : String) (relative : Bool)
  | unary (op : String) (operand : Formula)
  | binary (op : String) (left right : Formula)
  /-- `test ? consequent : alternate` -/
  | conditional (test consequent alternate : Formula)
  /-- `[a, b]` -/
  | array (elements : List Formula)
  /-- `{key: value}`; no key is repeated in what the parser builds. -/
  | object (entries : List (String × Formula))
  /-- `subject[expr]`: when relative, the elements of the subject for which the
  expression holds, else the element at that index or key. -/
  | filter (subject expr : Formula) (relative : Bool)
  | call (pool name : String) (args : List Formula)
  /-- Something that is not an expression: a bare text or nothing at all. -/
  | stray (text : Option String)

namespace Formula

instance : Inhabited Formula := ⟨.literal .null⟩

/-- The pool of the functions, `name(args)`. -/
def functionsPool : String := "functions"

/-- The pool of the transforms, `subject | name(args)`. -/
def transformsPool : String := "transforms"

/-- An object literal; a repeated key keeps its first place and its last
value. -/
def ofEntries (entries : List (String × Formula)) : Formula :=
  .object (Table.setAll [] entries)

/-! ## Relative names -/

mutual

/-- Goes through a formula from left to right and adds the relative names that it meets
to those found so far; a stray part is reported instead. -/
def visit : Formula → (found : List String) → Except (Option String) (List String)
  | .literal _, found => .ok found
  | .root name relative, found => .ok (if relative then Names.add found name else found)
  | .field parent name relative, found =>
    parent.visit (if relative then Names.add found name else found)
  | .unary _ e, found => e.visit found
  | .binary _ l r, found => do
    let found ← l.visit found
    r.visit found
  | .conditional t c a, found => do
    let found ← t.visit found
    let found ← c.visit found
    a.visit found
  | .array es, found => visitList es found
  | .object ps, found => visitEntries ps found
  | .filter s e _, found => do
    let found ← s.visit found
    e.visit found
  | .call _ _ args, found => visitList args found
  | .stray text, _ => .error text

def visitList : List Formula → (found : List String) → Except (Option String) (List String)
  | [], found => .ok found
  | e :: es, found => do
    let found ← e.visit found
    visitList es found

def visitEntries :
    List (String × Formula) → (found : List String) → Except (Option String) (List String)
  | [], found => .ok found
  | (_, e) :: ps, found => do
    let found ← e.visit found
    visitEntries ps found

end

/-- The relative names of a formula, each once, in order of first
occurrence. -/
def relativeNames (f : Formula) : Except (Option String) (List String) := f.visit []

end Formula

end JexlScript
