import JexlScript.Script.Precedence

/-!
# Script text

The text of a tree. Expressions stand on one line; the statements of a block
each have a line of their own. Parentheses are written where the binding
strengths ask for them.
-/

namespace JexlScript.Script

/-! ## Pieces of text -/

def parens (text : List Char) : List Char := '(' :: text ++ [')']

def parensIf (needed : Bool) (text : List Char) : List Char :=
  if needed then parens text else text

def braces (lines : List Char) : List Char := '{' :: '\n' :: lines ++ ['}']

def commas : List (List Char) → List Char
  | [] => []
  | [text] => text
  | text :: texts => text ++ ',' :: ' ' :: commas texts

def escapeChar (c : Char) : List Char :=
  if c = '\\' then ['\\', '\\']
  else if c = '\x22' then ['\\', '\x22']
  else if c = '\n' then ['\\', 'n']
  else if c = '\r' then ['\\', 'r']
  else if c = '\t' then ['\\', 't']
  else if c = '\x08' then ['\\', 'b']
  else if c = '\x0c' then ['\\', 'f']
  else if c = '\x0b' then ['\\', 'v']
  else if c = '\x00' then "\\x00".toList
  else if c = '\u2028' then "\\u2028".toList
  else if c = '\u2029' then "\\u2029".toList
  else [c]

def escape (s : List Char) : List Char := s.flatMap escapeChar

def stringText (s : String) : List Char := '\x22' :: escape s.toList ++ ['\x22']

def isKeyStart (c : Char) : Bool := c.isAlpha || c == '_' || c == '$'

def isKeyPart (c : Char) : Bool := c.isAlphanum || c == '_' || c == '$'

/-- Whether a key is written without quotes: a word of plain characters, with
or without one line feed at its end. -/
def isPlainKey : List Char → Bool
  | [] => false
  | c :: cs =>
    isKeyStart c &&
      (cs.all isKeyPart || (cs.getLast? == some '\n' && cs.dropLast.all isKeyPart))

def keyText (key : String) : List Char :=
  if isPlainKey key.toList then key.toList else stringText key

/-- The text of a literal. An integer without a text of its own, which
`Node.print` refuses, is written as its digits. -/
def scalarText : Scalar → List Char
  | .null => "null".toList
  | .bool b => (if b then "true" else "false").toList
  | .text s => stringText s
  | .int n => (intText? n).getD (intDigits n)
  | .double d => d.text

def patternText (names : List String) : List Char :=
  '{' :: commas (names.map String.toList) ++ ['}']

def Param.text : Param → List Char
  | .name n => n.toList
  | .pattern names => patternText names

def paramsText (params : List Param) : List Char := parens (commas (params.map Param.text))

/-- A unary operator, set off by a space where it is a word. -/
def unaryText (op : String) : List Char :=
  if op = "typeof" ∨ op = "void" ∨ op = "delete" then op.toList ++ [' '] else op.toList

def Keyword.text : Keyword → List Char
  | .let => "let".toList
  | .const => "const".toList

def Target.text (t : Target) : List Char :=
  (match t.declare with
    | some k => k.text ++ [' ']
    | none => []) ++ t.name.toList

def Target.signText (t : Target) : List Char :=
  match t.op with
  | none | some "" => " = ".toList
  | some op => ' ' :: op.toList ++ "= ".toList

/-- Whether an expression is an object literal, whose brace would open a block
at the start of a statement or of an arrow's body. -/
def Expr.isObject : Expr → Bool
  | .object _ => true
  | _ => false

/-- Whether an expression is a call or a construction, whose argument list
`new` would take for its own. -/
def Expr.endsInArgs : Expr → Bool
  | .call .. | .new .. => true
  | _ => false

/-! ## Trees -/

mutual

def Expr.text : Expr → List Char
  | .ident n => n.toList
  | .lit v => scalarText v
  | .undefined => "undefined".toList
  | .array es => '[' :: commas (exprTexts es) ++ [']']
  | .object ps => '{' :: commas (propTexts ps) ++ ['}']
  | .member obj prop computed optional =>
    parensIf (obj.needsParensBefore !computed) obj.text ++
      (if computed then
        (if optional then "?.[" else "[").toList ++ prop.text ++ [']']
      else
        (if optional then "?." else ".").toList ++ prop.text)
  | .call f args =>
    parensIf (f.needsParensBefore false) f.text ++ parens (commas (exprTexts args))
  | .new f args =>
    "new ".toList ++ parensIf (f.endsInArgs || f.needsParensBefore false) f.text ++
      parens (commas (exprTexts args))
  | .unary op e =>
    unaryText op ++
      parensIf ((op == "-" || op == "+") && e.startsWithSign op ||
        e.needsParens (unaryKey op) .only) e.text
  | .binary l op r =>
    parensIf (op == "**" && l.strength == unaryStrength || l.needsParens op .left) l.text ++
      ' ' :: op.toList ++ ' ' :: parensIf (r.needsParens op .right) r.text
  | .logical l op r =>
    parensIf (op == "**" && l.strength == unaryStrength || l.needsParens op .left) l.text ++
      ' ' :: op.toList ++ ' ' :: parensIf (r.needsParens op .right) r.text
  | .ternary c y n =>
    parensIf (c.strength ≤ conditionalStrength) c.text ++ " ? ".toList ++ y.text ++
      " : ".toList ++ n.text
  | .arrow ps body => paramsText ps ++ " => ".toList ++ parensIf body.isObject body.text
  | .arrowBlock ps body => paramsText ps ++ " => ".toList ++ braces (linesText body)
  | .function n ps body =>
    "function ".toList ++ n.toList ++ paramsText ps ++ ' ' :: braces (linesText body)

def exprTexts : List Expr → List (List Char)
  | [] => []
  | e :: es => e.text :: exprTexts es

def propTexts : List (String × Expr) → List (List Char)
  | [] => []
  | (k, e) :: ps => (keyText k ++ ':' :: ' ' :: e.text) :: propTexts ps

def Stmt.text : Stmt → List Char
  | .ret e => "return ".toList ++ e.text ++ [';']
  | .retNothing => "return;".toList
  | .expr e => parensIf e.isObject e.text ++ [';']
  | .assign t e => t.text ++ t.signText ++ e.text ++ [';']
  | .bare t => t.text ++ [';']
  | .cond c yes no =>
    "if (".toList ++ c.text ++ ')' :: ' ' :: braces (linesText yes) ++
      (if no.isEmpty then [] else " else ".toList ++ braces (linesText no))
  | .block body => braces (linesText body)
  | .function n ps body =>
    "function ".toList ++ n.toList ++ paramsText ps ++ ' ' :: braces (linesText body)

def linesText : List Stmt → List Char
  | [] => []
  | s :: ss => s.text ++ '\n' :: linesText ss

end

def Program.text (p : Program) : List Char :=
  (linesText p.body).dropLast

def Node.text : Node → List Char
  | .expr e => e.text
  | .stmt s => s.text
  | .pattern names => patternText names
  | .program p => p.text

/-! ## Printing -/

mutual

/-- Whether every literal of the expression has a text. -/
def Expr.isWritable : Expr → Bool
  | .ident _ | .undefined => true
  | .lit v => v.isWritable
  | .array es => exprsWritable es
  | .object ps => propsWritable ps
  | .member obj prop _ _ => obj.isWritable && prop.isWritable
  | .call f args => f.isWritable && exprsWritable args
  | .new f args => f.isWritable && exprsWritable args
  | .unary _ e => e.isWritable
  | .binary l _ r => l.isWritable && r.isWritable
  | .logical l _ r => l.isWritable && r.isWritable
  | .ternary c y n => c.isWritable && y.isWritable && n.isWritable
  | .arrow _ body => body.isWritable
  | .arrowBlock _ body => stmtsWritable body
  | .function _ _ body => stmtsWritable body

def exprsWritable : List Expr → Bool
  | [] => true
  | e :: es => e.isWritable && exprsWritable es

def propsWritable : List (String × Expr) → Bool
  | [] => true
  | (_, e) :: ps => e.isWritable && propsWritable ps

/-- Whether every literal of the statement has a text. -/
def Stmt.isWritable : Stmt → Bool
  | .ret e => e.isWritable
  | .retNothing | .bare _ => true
  | .expr e => e.isWritable
  | .assign _ e => e.isWritable
  | .cond c yes no => c.isWritable && stmtsWritable yes && stmtsWritable no
  | .block body => stmtsWritable body
  | .function _ _ body => stmtsWritable body

def stmtsWritable : List Stmt → Bool
  | [] => true
  | s :: ss => s.isWritable && stmtsWritable ss

end

theorem exprsWritable_eq_all (es : List Expr) :
    exprsWritable es = es.all Expr.isWritable := by
  induction es with
  | nil => rfl
  | cons e es ih => rw [exprsWritable, ih, List.all_cons]

theorem propsWritable_eq_all (ps : List (String × Expr)) :
    propsWritable ps = ps.all fun p => p.2.isWritable := by
  induction ps with
  | nil => rfl
  | cons p ps ih => rw [propsWritable, ih, List.all_cons]

def Node.isWritable : Node → Bool
  | .expr e => e.isWritable
  | .stmt s => s.isWritable
  | .pattern _ => true
  | .program p => stmtsWritable p.body

/-- The text of a tree. There is none when a literal is an integer beyond the
finite doubles. -/
def Node.print? (n : Node) : Option String :=
  if n.isWritable then some (String.ofList n.text) else none

end JexlScript.Script
