import JexlScript.Proofs.Reading.Grammar
import JexlScript.Proofs.Reading.Numerals

/-!
# The tokens of printed expressions

An expression is legible when it holds nothing that its text would not tell: its
names are names, its numbers are doubles, its operators are known ones, and no
arrow function would take a leading brace for a block. `Expr.tokens` are its
tokens, with parentheses where the printer writes them, and the lexer finds them
in its text: no two of them run together there, and none falls apart.
-/

namespace JexlScript.Script

open List Reading

variable {rest : List Char} {e : Expr} {op : String} {c : Char} {ts : List Token}

/-! ## Legible expressions -/

/-- Whether a text is a name that is not reserved. -/
def Reading.NameClass.isIdentifier (names : NameClass) (s : String) : Bool :=
  names.isName s && !reservedWords.contains s

/-- The unary operators that are read back. -/
def unaryOperators : List String := ["!", "-", "+", "~", "typeof", "void"]

/-- The binary operators that are read back. -/
def binaryOperators : List String :=
  ["**", "*", "/", "%", "+", "-", "<<", ">>", ">>>", "<", "<=", ">", ">=", "instanceof", "in",
    "==", "!=", "===", "!==", "&", "^", "|"]

def logicalOperators : List String := ["&&", "||"]

/-- The expression that the text starts with, parentheses aside. -/
def Expr.leftmost : Expr → Expr
  | .member obj _ _ _ => obj.leftmost
  | .call f _ => f.leftmost
  | .binary l _ _ => l.leftmost
  | .logical l _ _ => l.leftmost
  | .ternary c _ _ => c.leftmost
  | e => e

/-- Whether an expression is an identifier with some property. -/
def Expr.isIdent (p : String → Bool) : Expr → Bool
  | .ident n => p n
  | _ => false

/-- Whether the names of a parameter are identifiers. -/
def Param.isLegible (names : NameClass) : Param → Bool
  | .name n => names.isIdentifier n
  | .pattern ns => ns.all names.isIdentifier

mutual

/-- Whether an expression can be told from its text. -/
def Expr.isLegible (names : NameClass) : Expr → Bool
  | .ident n => names.isIdentifier n
  | .lit v => isExact v
  | .undefined => true
  | .array es => exprsLegible names es
  | .object ps => propsLegible names ps
  | .member obj prop computed _ =>
    obj.isLegible names &&
      if computed then prop.isLegible names else prop.isIdent names.isName
  | .call f args => f.isLegible names && exprsLegible names args
  | .new f args => f.isIdent names.isIdentifier && exprsLegible names args
  | .unary op e => unaryOperators.contains op && e.isLegible names
  | .binary l op r => binaryOperators.contains op && (l.isLegible names && r.isLegible names)
  | .logical l op r => logicalOperators.contains op && (l.isLegible names && r.isLegible names)
  | .ternary c y n => c.isLegible names && (y.isLegible names && n.isLegible names)
  | .arrow ps body =>
    ps.all (·.isLegible names) && (body.isLegible names &&
      (body.isObject || !body.leftmost.isObject))
  | .arrowBlock .. | .function .. => false

def exprsLegible (names : NameClass) : List Expr → Bool
  | [] => true
  | e :: es => e.isLegible names && exprsLegible names es

def propsLegible (names : NameClass) : List (String × Expr) → Bool
  | [] => true
  | (k, e) :: ps => NameClass.ascii.isName k && (e.isLegible names && propsLegible names ps)

end

/-- The legible expressions, form by form. -/
inductive Expr.Legible (names : NameClass) : Expr → Prop where
  | ident {n : String} (name : names.isIdentifier n = true) : Expr.Legible names (.ident n)
  | lit {v : Scalar} (h : isExact v = true) : Expr.Legible names (.lit v)
  | undefined : Expr.Legible names .undefined
  | array {es : List Expr} (all : ∀ e ∈ es, Expr.Legible names e) : Expr.Legible names (.array es)
  | object {ps : List (String × Expr)} (keys : ∀ p ∈ ps, NameClass.ascii.isName p.1 = true)
      (all : ∀ p ∈ ps, Expr.Legible names p.2) : Expr.Legible names (.object ps)
  | property {obj : Expr} {n : String} (optional : Bool) (object : Expr.Legible names obj)
      (name : names.isName n = true) : Expr.Legible names (.member obj (.ident n) false optional)
  | index {obj key : Expr} (optional : Bool) (object : Expr.Legible names obj)
      (inner : Expr.Legible names key) : Expr.Legible names (.member obj key true optional)
  | call {f : Expr} {args : List Expr} (callee : Expr.Legible names f)
      (all : ∀ e ∈ args, Expr.Legible names e) : Expr.Legible names (.call f args)
  | new {n : String} {args : List Expr} (name : names.isIdentifier n = true)
      (all : ∀ e ∈ args, Expr.Legible names e) : Expr.Legible names (.new (.ident n) args)
  | unary {op : String} {e : Expr} (known : op ∈ unaryOperators) (operand : Expr.Legible names e) :
      Expr.Legible names (.unary op e)
  | binary {l r : Expr} {op : String} (known : op ∈ binaryOperators) (left : Expr.Legible names l)
      (right : Expr.Legible names r) : Expr.Legible names (.binary l op r)
  | logical {l r : Expr} {op : String} (known : op ∈ logicalOperators)
      (left : Expr.Legible names l) (right : Expr.Legible names r) :
      Expr.Legible names (.logical l op r)
  | ternary {c y n : Expr} (test : Expr.Legible names c) (yes : Expr.Legible names y)
      (no : Expr.Legible names n) : Expr.Legible names (.ternary c y n)
  | arrow {ps : List Param} {body : Expr} (params : ps.all (·.isLegible names) = true)
      (result : Expr.Legible names body)
      (brace : (body.isObject || !body.leftmost.isObject) = true) :
      Expr.Legible names (.arrow ps body)

theorem exists_ident {p : String → Bool} (h : e.isIdent p = true) :
    ∃ n, e = .ident n ∧ p n = true := by
  cases e with
  | ident n => exact ⟨n, rfl, h⟩
  | _ => exact absurd h (by simp [Expr.isIdent])

mutual

/-- What passes the test is legible. -/
theorem Expr.legible {names : NameClass} : ∀ (e : Expr), e.isLegible names = true → e.Legible names
  | .ident _, h => .ident h
  | .lit _, h => .lit h
  | .undefined, _ => .undefined
  | .array es, h => .array (exprs_legible es h)
  | .object ps, h =>
    .object (fun p member => (props_legible ps h p member).1)
      fun p member => (props_legible ps h p member).2
  | .member obj prop computed optional, h => by
    simp only [Expr.isLegible, Bool.and_eq_true] at h
    cases computed with
    | true => exact .index optional (obj.legible h.1) (prop.legible h.2)
    | false =>
      obtain ⟨n, rfl, name⟩ := exists_ident h.2
      exact .property optional (obj.legible h.1) name
  | .call f args, h => by
    simp only [Expr.isLegible, Bool.and_eq_true] at h
    exact .call (f.legible h.1) (exprs_legible args h.2)
  | .new f args, h => by
    simp only [Expr.isLegible, Bool.and_eq_true] at h
    obtain ⟨n, rfl, name⟩ := exists_ident h.1
    exact .new name (exprs_legible args h.2)
  | .unary op e, h => by
    simp only [Expr.isLegible, Bool.and_eq_true, contains_iff_mem] at h
    exact .unary h.1 (e.legible h.2)
  | .binary l op r, h | .logical l op r, h => by
    simp only [Expr.isLegible, Bool.and_eq_true, contains_iff_mem] at h
    constructor
    · exact h.1
    · exact l.legible h.2.1
    · exact r.legible h.2.2
  | .ternary c y n, h => by
    simp only [Expr.isLegible, Bool.and_eq_true] at h
    exact .ternary (c.legible h.1) (y.legible h.2.1) (n.legible h.2.2)
  | .arrow ps body, h => by
    simp only [Expr.isLegible, Bool.and_eq_true] at h
    exact .arrow h.1 (body.legible h.2.1) h.2.2
  | .arrowBlock .., h | .function .., h => by simp [Expr.isLegible] at h

theorem exprs_legible {names : NameClass} : ∀ (es : List Expr), exprsLegible names es = true →
    ∀ e ∈ es, e.Legible names
  | [], _ => fun _ h => absurd h not_mem_nil
  | e :: es, h => by
    simp only [exprsLegible, Bool.and_eq_true] at h
    exact forall_mem_cons.mpr ⟨e.legible h.1, exprs_legible es h.2⟩

theorem props_legible {names : NameClass} : ∀ (ps : List (String × Expr)),
    propsLegible names ps = true → ∀ p ∈ ps, NameClass.ascii.isName p.1 = true ∧ p.2.Legible names
  | [], _ => fun _ h => absurd h not_mem_nil
  | (k, e) :: ps, h => by
    simp only [propsLegible, Bool.and_eq_true] at h
    exact forall_mem_cons.mpr ⟨⟨h.1, e.legible h.2.1⟩, props_legible ps h.2.2⟩

end

/-! ## Tokens -/

def parenTokens (ts : List Token) : List Token := .sign "(" :: ts ++ [Token.sign ")"]

/-- Tokens in parentheses where these are needed. -/
def parenTokensIf (needed : Bool) (ts : List Token) : List Token :=
  if needed then parenTokens ts else ts

/-- Lists of tokens with commas between them. -/
def commaTokens : List (List Token) → List Token
  | [] => []
  | [ts] => ts
  | ts :: tss => ts ++ .sign "," :: commaTokens tss

/-- The tokens of a literal. -/
def scalarTokens : Scalar → List Token
  | .null => [.word "null"]
  | .bool b => [.word (if b then "true" else "false")]
  | .text s => [.string s]
  | v => numberTokens (hasMinus v) (absolute v)

/-- Operators that are words are read as words. -/
def operatorToken (op : String) : Token :=
  if op ∈ ["typeof", "void", "instanceof", "in"] then .word op else .sign op

def Param.tokens : Param → List Token
  | .name n => [.word n]
  | .pattern ns => .sign "\x7b" :: commaTokens (ns.map fun n => [.word n]) ++ [.sign "\x7d"]

def paramsTokens (ps : List Param) : List Token := parenTokens (commaTokens (ps.map Param.tokens))

mutual

/-- The tokens of an expression, with the parentheses that the printer writes. -/
def Expr.tokens : Expr → List Token
  | .ident n => [.word n]
  | .lit v => scalarTokens v
  | .undefined => [.word "undefined"]
  | .array es => .sign "[" :: commaTokens (exprsTokens es) ++ [.sign "]"]
  | .object ps => .sign "\x7b" :: commaTokens (propsTokens ps) ++ [.sign "\x7d"]
  | .member obj prop computed optional =>
    parenTokensIf (obj.needsParensBefore !computed) obj.tokens ++
      (if computed then
        (if optional then [.sign "?.", .sign "["] else [.sign "["]) ++ prop.tokens ++ [.sign "]"]
      else (if optional then [.sign "?."] else [.sign "."]) ++ prop.tokens)
  | .call f args =>
    parenTokensIf (f.needsParensBefore false) f.tokens ++
      parenTokens (commaTokens (exprsTokens args))
  | .new f args =>
    .word "new" :: f.tokens ++ parenTokens (commaTokens (exprsTokens args))
  | .unary op e =>
    operatorToken op :: parenTokensIf ((op == "-" || op == "+") && e.startsWithSign op ||
      e.needsParens (unaryKey op) .only) e.tokens
  | .binary l op r =>
    parenTokensIf (op == "**" && l.strength == unaryStrength || l.needsParens op .left) l.tokens ++
      operatorToken op :: parenTokensIf (r.needsParens op .right) r.tokens
  | .logical l op r =>
    parenTokensIf (op == "**" && l.strength == unaryStrength || l.needsParens op .left) l.tokens ++
      operatorToken op :: parenTokensIf (r.needsParens op .right) r.tokens
  | .ternary c y n =>
    parenTokensIf (c.strength ≤ conditionalStrength) c.tokens ++ .sign "?" :: y.tokens ++
      .sign ":" :: n.tokens
  | .arrow ps body =>
    paramsTokens ps ++ .sign "=>" :: parenTokensIf body.isObject body.tokens
  | .arrowBlock .. | .function .. => []

def exprsTokens : List Expr → List (List Token)
  | [] => []
  | e :: es => e.tokens :: exprsTokens es

def propsTokens : List (String × Expr) → List (List Token)
  | [] => []
  | (k, e) :: ps => (.word k :: .sign ":" :: e.tokens) :: propsTokens ps

end

/-! ## What may follow an expression -/

variable {names : NameClass}

/-- The characters that may follow an expression. -/
def followers : List Char := [' ', ',', ')', ']', '\x7d', '(', '[', '?']

/-- What may follow an expression. A point follows only what needs no parentheses before it. -/
def Expr.Follows (e : Expr) (rest : List Char) : Prop :=
  ∀ c ∈ rest.head?, c ∈ followers ∨ c = '.' ∧ e.needsParensBefore true = false

theorem Expr.follows_cons (e : Expr) (h : c ∈ followers) :
    e.Follows (c :: rest) := by
  intro d hd
  obtain rfl : c = d := by simpa using hd
  exact Or.inl h

theorem part_followers (h : c ∈ followers ∨ c = '.') : names.part c = false := by
  have plain : c.toNat < 128 ∧ isKeyPart c = false := by
    rcases h with h | rfl
    · fin_cases h <;> decide
    · decide
  exact (names.part_ascii c plain.1).trans plain.2

theorem Expr.Follows.endsName (h : e.Follows rest) :
    EndsName names rest := by
  intro c hc
  exact part_followers ((h c hc).imp_right And.left)

theorem Expr.Follows.not_point (h : e.Follows rest) (needs : e.needsParensBefore true = true) :
    ∀ c ∈ rest.head?, c ∈ followers := by
  intro c hc
  rcases h c hc with follower | ⟨_, bare⟩
  · exact follower
  · exact absurd (needs.symm.trans bare) (by decide)

/-- What follows an operator's text follows its last operand. -/
theorem Expr.Follows.inner (h : e.Follows rest) (needs : e.needsParensBefore true = true)
    (inner : Expr) : inner.Follows rest := by
  intro c hc
  exact Or.inl (h.not_point needs c hc)

/-- What is not primary needs parentheses before a suffix. -/
theorem needsParensBefore_of_strength {point : Bool} (h : e.strength < primaryStrength) :
    e.needsParensBefore point = true := by
  simp [Expr.needsParensBefore, h]

/-! ## Pieces of text -/

/-- Brackets around a text are tokens of their own. -/
theorem Reading.Lexes.bracketed {l r : String} {text : List Char}
    (known : (l, r) ∈ [("(", ")"), ("[", "]"), ("\x7b", "\x7d")])
    (h : Lexes names text ts (r.toList ++ rest)) :
    Lexes names (l.toList ++ text ++ r.toList) (.sign l :: ts ++ [Token.sign r]) rest := by
  refine Lexes.append (s := .sign l :: ts) ?_ (Lexes.bracket rest ?_)
  · refine Lexes.append (s := [.sign l]) (Lexes.bracket _ ?_) h
    fin_cases known <;> decide
  · fin_cases known <;> decide

theorem Reading.Lexes.parens {text : List Char} (h : Lexes names text ts (')' :: rest)) :
    Lexes names (Script.parens text) (parenTokens ts) rest :=
  Lexes.bracketed (l := "(") (r := ")") (by decide) h

/-- Parentheses that are written are found again. -/
theorem Reading.Lexes.parensIf {needed : Bool} {text : List Char}
    (inside : needed = true → Lexes names text ts (')' :: rest))
    (bare : needed = false → Lexes names text ts rest) :
    Lexes names (Script.parensIf needed text) (parenTokensIf needed ts) rest := by
  cases needed with
  | true => exact Lexes.parens (inside rfl)
  | false => exact bare rfl

/-- Commas keep the texts of items apart. -/
theorem Reading.Lexes.commas {α : Type} {text : α → List Char} {ts : α → List Token} :
    ∀ {items : List α}, (∀ x ∈ items, ∀ r, Lexes names (text x) (ts x) (',' :: r)) →
      (∀ x ∈ items, Lexes names (text x) (ts x) rest) →
      Lexes names (Script.commas (items.map text)) (commaTokens (items.map ts)) rest
  | [], _, _ => Lexes.nil
  | [x], _, last => last x (by simp)
  | x :: y :: items, inner, last => by
    have more : Lexes names (Script.commas ((y :: items).map text))
        (commaTokens ((y :: items).map ts)) rest :=
      Lexes.commas (fun z hz => inner z (mem_cons_of_mem _ hz))
        (fun z hz => last z (mem_cons_of_mem _ hz))
    exact Lexes.append (inner x (by simp) _) (Lexes.append (a := [','])
      (Lexes.bracket (s := ",") _ (by decide)) (Lexes.append (a := [' ']) Lexes.blank more))

theorem exprTexts_eq_map (es : List Expr) : exprTexts es = es.map Expr.text := by
  induction es with
  | nil => rfl
  | cons e es ih => rw [exprTexts, ih, map_cons]

theorem exprsTokens_eq_map (es : List Expr) : exprsTokens es = es.map Expr.tokens := by
  induction es with
  | nil => rfl
  | cons e es ih => rw [exprsTokens, ih, map_cons]

/-- The text of a property. -/
def propText (p : String × Expr) : List Char := keyText p.1 ++ ':' :: ' ' :: p.2.text

/-- The tokens of a property. -/
def propTokens (p : String × Expr) : List Token := .word p.1 :: .sign ":" :: p.2.tokens

theorem propTexts_eq_map (ps : List (String × Expr)) : propTexts ps = ps.map propText := by
  induction ps with
  | nil => rfl
  | cons p ps ih => rw [propTexts, ih, map_cons, propText]

theorem propsTokens_eq_map (ps : List (String × Expr)) : propsTokens ps = ps.map propTokens := by
  induction ps with
  | nil => rfl
  | cons p ps ih => rw [propsTokens, ih, map_cons, propTokens]

/-! ## Texts, form by form -/

theorem toList_of_print? {n : Node} {text : String} (printed : n.print? = some text) :
    text.toList = n.text := by
  rw [Node.print?] at printed
  split at printed
  · cases printed
    exact String.toList_ofList
  · cases printed

theorem Expr.text_ident (n : String) : (Expr.ident n).text = n.toList := rfl

theorem Expr.text_lit (v : Scalar) : (Expr.lit v).text = scalarText v := rfl

theorem Expr.text_undefined : Expr.undefined.text = "undefined".toList := rfl

theorem Expr.text_array (es : List Expr) :
    (Expr.array es).text = '[' :: commas (es.map Expr.text) ++ [']'] := by
  rw [← exprTexts_eq_map]
  rfl

theorem Expr.text_object (ps : List (String × Expr)) :
    (Expr.object ps).text = '\x7b' :: commas (ps.map propText) ++ ['\x7d'] := by
  rw [← propTexts_eq_map]
  rfl

theorem Expr.text_member (obj prop : Expr) (computed optional : Bool) :
    (Expr.member obj prop computed optional).text =
      parensIf (obj.needsParensBefore !computed) obj.text ++
        (if computed then (if optional then "?.[" else "[").toList ++ prop.text ++ [']']
        else (if optional then "?." else ".").toList ++ prop.text) := rfl

theorem Expr.text_call (f : Expr) (args : List Expr) :
    (Expr.call f args).text = parensIf (f.needsParensBefore false) f.text ++
      parens (commas (args.map Expr.text)) := by
  rw [← exprTexts_eq_map]
  rfl

/-- The constructor is in parentheses if it is a call or a construction. -/
theorem Expr.text_construction (f : Expr) (args : List Expr) :
    (Expr.new f args).text =
      "new ".toList ++ parensIf (f.endsInArgs || f.needsParensBefore false) f.text ++
        parens (commas (args.map Expr.text)) := by
  rw [← exprTexts_eq_map]
  rfl

theorem Expr.text_new (n : String) (args : List Expr) :
    (Expr.new (.ident n) args).text =
      "new ".toList ++ n.toList ++ parens (commas (args.map Expr.text)) :=
  Expr.text_construction (.ident n) args

theorem Expr.text_unary (op : String) (e : Expr) :
    (Expr.unary op e).text = unaryText op ++ parensIf ((op == "-" || op == "+") &&
      e.startsWithSign op || e.needsParens (unaryKey op) .only) e.text := rfl

/-- A unary base of a power is in parentheses, as any operand that binds too loosely. -/
theorem Expr.text_binary (l : Expr) (op : String) (r : Expr) :
    (Expr.binary l op r).text =
      parensIf (op == "**" && l.strength == unaryStrength || l.needsParens op .left) l.text ++
        ' ' :: op.toList ++ ' ' :: parensIf (r.needsParens op .right) r.text := rfl

theorem Expr.text_logical (l : Expr) (op : String) (r : Expr) :
    (Expr.logical l op r).text = (Expr.binary l op r).text := rfl

theorem Expr.text_ternary (c y n : Expr) :
    (Expr.ternary c y n).text = parensIf (c.strength ≤ conditionalStrength) c.text ++
      " ? ".toList ++ y.text ++ " : ".toList ++ n.text := rfl

theorem Expr.text_arrow (ps : List Param) (body : Expr) :
    (Expr.arrow ps body).text =
      paramsText ps ++ " => ".toList ++ parensIf body.isObject body.text := rfl

/-! ## First characters -/

theorem toNat_of_isKeyPart (h : isKeyPart c = true) : c.toNat < 128 := by
  change (((decide (65 ≤ c.val ∧ c.val ≤ 90) || decide (97 ≤ c.val) && decide (c.val ≤ 122)) ||
    decide (48 ≤ c.val) && decide (c.val ≤ 57)) || c == '_' || c == '$') = true at h
  simp only [Bool.or_eq_true, Bool.and_eq_true, decide_eq_true_eq, beq_iff_eq,
    UInt32.le_iff_toNat_le] at h
  change ((((65 ≤ c.toNat ∧ c.toNat ≤ 90) ∨ (97 ≤ c.toNat ∧ c.toNat ≤ 122)) ∨
    (48 ≤ c.toNat ∧ c.toNat ≤ 57)) ∨ c = '_') ∨ c = '$' at h
  rcases h with (h | rfl) | rfl
  · omega
  · decide
  · decide

theorem isName_ascii {n : String} (h : NameClass.ascii.isName n = true) :
    names.isName n = true := by
  rw [NameClass.isName] at h ⊢
  cases chars : n.toList with
  | nil => simp [chars] at h
  | cons c cs =>
    simp only [chars, Bool.and_eq_true, all_eq_true] at h ⊢
    refine ⟨?_, fun d hd => ?_⟩
    · exact (names.start_ascii c (toNat_of_isKeyPart
        (NameClass.ascii.part_of_start c h.1))).trans h.1
    · exact (names.part_ascii d (toNat_of_isKeyPart (h.2 d hd))).trans (h.2 d hd)

/-- The text starts with no equals sign, and with a sign only if the expression is known to. -/
def Expr.Starts (e : Expr) (text : List Char) : Prop :=
  ∃ c cs, text = c :: cs ∧ c ≠ '=' ∧
    ∀ op ∈ ["+", "-"], op.toList = [c] → e.startsWithSign op = true

theorem Expr.starts_of_ne {text cs : List Char} (shape : text = c :: cs)
    (other : c ∉ ['=', '+', '-']) : e.Starts text := by
  simp only [mem_cons, not_mem_nil, or_false, not_or] at other
  obtain ⟨equals, plus, minus⟩ := other
  refine ⟨c, cs, shape, equals, ?_⟩
  intro op known same
  fin_cases known
  · exact absurd (singleton_inj.mp same).symm plus
  · exact absurd (singleton_inj.mp same).symm minus

theorem Expr.starts_name {n : String} (h : names.isName n = true) (rest : List Char) :
    e.Starts (n.toList ++ rest) := by
  obtain ⟨c, cs, chars, start⟩ := isName_head h
  refine Expr.starts_of_ne (c := c) (by rw [chars, cons_append]) ?_
  intro sign
  fin_cases sign <;> exact NameClass.ne_of_start start _ (by decide) (by decide) rfl

theorem isName_of_isIdentifier {n : String} (h : names.isIdentifier n = true) :
    names.isName n = true :=
  (Bool.and_eq_true_iff.mp h).1

/-- All unary operators bind alike. -/
theorem strength_unary (e : Expr) (known : op ∈ unaryOperators) :
    (Expr.unary op e).strength = unaryStrength := by
  fin_cases known <;> rfl

theorem le_strength_of_needsParensBefore {point : Bool} (h : e.needsParensBefore point = false) :
    primaryStrength ≤ e.strength := by
  simp only [Expr.needsParensBefore, Bool.or_eq_false_iff, decide_eq_false_iff_not,
    Nat.not_lt] at h
  exact h.1

/-- What needs no parentheses before a suffix starts with no sign. -/
theorem Expr.startsWithSign_of_bare {point : Bool} (op : String) (legible : e.Legible names)
    (h : e.needsParensBefore point = false) :
    e.startsWithSign op = false := by
  have strong := le_strength_of_needsParensBefore h
  cases legible with
  | @unary _ e known =>
    rw [strength_unary e known] at strong
    exact absurd strong (by decide)
  | @lit v =>
    cases negative : v.isNegative with
    | false => simp [Expr.startsWithSign, negative]
    | true => simp [Expr.strength, negative, primaryStrength, unaryStrength] at strong
  | _ => rfl

theorem Expr.starts_parensIf {e outer : Expr} {point : Bool} (rest : List Char)
    (legible : e.Legible names) (bare : e.needsParensBefore point = false → e.Starts e.text) :
    outer.Starts (parensIf (e.needsParensBefore point) e.text ++ rest) := by
  cases needs : e.needsParensBefore point with
  | true => exact Expr.starts_of_ne (c := '(') rfl (by decide)
  | false =>
    obtain ⟨c, cs, shape, equals, sign⟩ := bare needs
    refine ⟨c, cs ++ rest, by rw [parensIf, if_neg (by decide), shape, cons_append],
      equals, ?_⟩
    intro op known same
    have starts := sign op known same
    rw [Expr.startsWithSign_of_bare op legible needs] at starts
    exact absurd starts (by decide)

theorem le_strength_of_bare {point : Bool} (h : e.needsParensBefore point = false) :
    unaryStrength ≤ e.strength :=
  Nat.le_trans (by decide) (le_strength_of_needsParensBefore h)

theorem starts_scalarText {v : Scalar} (exact : isExact v = true) :
    (Expr.lit v).Starts (scalarText v) := by
  by_cases number : v.isNumber = true
  · obtain ⟨n, text, _⟩ := exists_numeral number exact
    obtain ⟨c, cs, head, digit⟩ := n.text_head
    rw [text, head]
    cases minus : hasMinus v with
    | false =>
      refine Expr.starts_of_ne (c := c) rfl ?_
      intro sign
      fin_cases sign <;> exact absurd digit (by decide)
    | true =>
      refine ⟨'-', c :: cs, rfl, by decide, ?_⟩
      intro op known same
      fin_cases known
      · exact absurd same (by decide)
      · exact isNegative_of_hasMinus exact minus
  · cases v with
    | null => exact Expr.starts_of_ne (c := 'n') rfl (by decide)
    | bool b => cases b <;> exact Expr.starts_of_ne rfl (by decide)
    | text s => exact Expr.starts_of_ne (c := '\x22') rfl (by decide)
    | int | double => exact absurd rfl number

/-- The level of an operator. -/
def operatorLevel (op : String) : Nat := (bindingStrength? op).getD 0 - 6

theorem bindingStrength?_infixed : ∀ op ∈ binaryOperators ++ logicalOperators,
    bindingStrength? op = some (operatorLevel op + 6) ∧ operatorLevel op ≤ 10 := by
  decide

/-- The strength of an infixed expression is that of its operator. -/
theorem strength_infixed (l : Expr) (op : String) (r : Expr)
    (known : op ∈ binaryOperators ++ logicalOperators) :
    (Expr.binary l op r).strength = operatorLevel op + 6 ∧
      (Expr.logical l op r).strength = operatorLevel op + 6 ∧ operatorLevel op ≤ 10 := by
  obtain ⟨strength, most⟩ := bindingStrength?_infixed op known
  simp [Expr.strength, strength, most]

theorem starts_unaryText (e : Expr) (rest : List Char) (h : op ∈ unaryOperators) :
    (Expr.unary op e).Starts (unaryText op ++ rest) := by
  by_cases sign : op ∈ ["+", "-"]
  · obtain ⟨c, chars, equals⟩ : ∃ c, unaryText op = [c] ∧ op.toList = [c] ∧ c ≠ '=' := by
      fin_cases sign <;> exact ⟨_, rfl, rfl, by decide⟩
    refine ⟨c, rest, by rw [chars]; rfl, equals.2, ?_⟩
    intro o _ same
    have eq : o = op := String.toList_inj.mp (same.trans equals.1.symm)
    simp [Expr.startsWithSign, eq]
  · fin_cases h <;> first | exact absurd (by decide) sign | exact Expr.starts_of_ne rfl (by decide)

/-- What binds as tightly as a unary operator starts as it is known to. -/
theorem Expr.Legible.text_starts (legible : e.Legible names) (strong : unaryStrength ≤ e.strength) :
    e.Starts e.text := by
  induction legible with
  | @ident n name =>
    have starts := Expr.starts_name (e := .ident n) (isName_of_isIdentifier name) []
    rwa [append_nil, ← Expr.text_ident] at starts
  | lit h =>
    rw [Expr.text_lit]
    exact starts_scalarText h
  | undefined => exact Expr.starts_of_ne Expr.text_undefined (by decide)
  | @array es => exact Expr.starts_of_ne (Expr.text_array es) (by decide)
  | @object ps => exact Expr.starts_of_ne (Expr.text_object ps) (by decide)
  | property _ object _ ih | index _ object _ ih =>
    rw [Expr.text_member]
    exact Expr.starts_parensIf _ object fun bare => ih (le_strength_of_bare bare)
  | call callee _ ih =>
    rw [Expr.text_call]
    exact Expr.starts_parensIf _ callee fun bare => ih (le_strength_of_bare bare)
  | new =>
    rw [Expr.text.eq_def]
    exact Expr.starts_of_ne (c := 'n') rfl (by decide)
  | unary known =>
    rw [Expr.text_unary]
    exact starts_unaryText _ _ known
  -- Everything from here on binds less tightly than a unary operator.
  | @binary l r op known | @logical l r op known =>
    obtain ⟨binary, logical, most⟩ := strength_infixed l op r (by simp [known])
    rw [unaryStrength] at strong
    omega
  | ternary => simp [Expr.strength, unaryStrength, conditionalStrength] at strong
  | arrow => simp [Expr.strength, unaryStrength, arrowStrength] at strong

/-! ## Lexing -/

/-- The text of an exact literal is lexed to its tokens. -/
theorem Reading.Lexes.scalar {v : Scalar} (exact : isExact v = true)
    (follows : (Expr.lit v).Follows rest) : Lexes names (scalarText v) (scalarTokens v) rest := by
  by_cases number : v.isNumber = true
  · have needs : (Expr.lit v).needsParensBefore true = true := by
      simp [Expr.needsParensBefore, number]
    have stop : EndsNumber names rest := by
      intro c hc
      have follower := follows.not_point needs c hc
      refine ⟨part_followers (Or.inl follower), ?_⟩
      rintro rfl
      exact absurd follower (by decide)
    cases v with
    | int | double => exact Lexes.number number exact stop
    | null | bool | text => simp [Scalar.isNumber] at number
  · cases v with
    | null => exact Lexes.word (n := "null") (isName_ascii (by decide)) follows.endsName
    | bool b =>
      cases b
      · exact Lexes.word (n := "false") (isName_ascii (by decide)) follows.endsName
      · exact Lexes.word (n := "true") (isName_ascii (by decide)) follows.endsName
    | text s => exact Lexes.string s rest
    | int | double => exact absurd rfl number

/-- A key that is a name is written bare. -/
theorem keyText_of_isName {k : String} (h : NameClass.ascii.isName k = true) :
    keyText k = k.toList := by
  rw [NameClass.isName] at h
  have plain : isPlainKey k.toList = true := by
    cases chars : k.toList with
    | nil => simp [chars] at h
    | cons c cs =>
      simp only [chars, Bool.and_eq_true] at h
      simp only [isPlainKey, Bool.and_eq_true, Bool.or_eq_true]
      exact ⟨h.1, Or.inl h.2⟩
  rw [keyText, if_pos plain]

theorem Reading.Lexes.pattern {ns : List String} (each : ∀ n ∈ ns, names.isName n = true) :
    Lexes names (Param.pattern ns).text (Param.pattern ns).tokens rest := by
  have name {n : String} {c : Char} (r : List Char) (h : n ∈ ns) (stop : c ∈ followers) :
      Lexes names n.toList [.word n] (c :: r) :=
    Lexes.word (each n h) ((Expr.ident n).follows_cons stop).endsName
  refine Lexes.bracketed (l := "\x7b") (r := "\x7d") (by decide) ?_
  exact Lexes.commas (fun n hn r => name r hn (by decide)) (fun n hn => name _ hn (by decide))

/-- The text of parameters is lexed to their tokens. -/
theorem Reading.Lexes.params {ps : List Param} (legible : ps.all (·.isLegible names) = true) :
    Lexes names (paramsText ps) (paramsTokens ps) rest := by
  have param {p : Param} {c : Char} (r : List Char) (h : p ∈ ps) (stop : c ∈ followers) :
      Lexes names p.text p.tokens (c :: r) := by
    have known := all_eq_true.mp legible p h
    cases p with
    | name n =>
      exact Lexes.word (isName_of_isIdentifier known) ((Expr.ident n).follows_cons stop).endsName
    | pattern ns =>
      exact Lexes.pattern fun n hn => isName_of_isIdentifier (all_eq_true.mp known n hn)
  exact Lexes.parens (Lexes.commas (fun p hp r => param r hp (by decide))
    (fun p hp => param rest hp (by decide)))

/-- An operator stands between blanks, which keep it apart. -/
theorem Reading.Lexes.operator (h : op ∈ binaryOperators ++ logicalOperators) :
    Lexes names op.toList [operatorToken op] (' ' :: rest) := by
  have stop : EndsName names (' ' :: rest) :=
    (Expr.undefined.follows_cons (by decide)).endsName
  by_cases word : op ∈ ["instanceof", "in"]
  · fin_cases word <;> exact Lexes.word (isName_ascii (by decide)) stop
  · have sign : op ∈ signs ∧ operatorToken op = .sign op := by
      fin_cases h <;> first | exact absurd (by decide) word | decide
    rw [sign.2]
    exact Lexes.sign_blank sign.1

theorem Reading.Lexes.elements {es : List Expr}
    (each : ∀ e ∈ es, ∀ r, e.Follows r → Lexes names e.text e.tokens r) (stop : c ∈ followers) :
    Lexes names (Script.commas (es.map Expr.text)) (commaTokens (es.map Expr.tokens))
      (c :: rest) :=
  Lexes.commas (fun e he r => each e he _ (e.follows_cons (by decide)))
    (fun e he => each e he _ (e.follows_cons stop))

/-- An operand is lexed, in parentheses or bare. -/
theorem Reading.Lexes.operand {needed : Bool} (h : ∀ r, e.Follows r → Lexes names e.text e.tokens r)
    (bare : needed = false → e.Follows rest) :
    Lexes names (Script.parensIf needed e.text) (parenTokensIf needed e.tokens) rest :=
  Lexes.parensIf (fun _ => h _ (e.follows_cons (by decide))) (fun no => h _ (bare no))

theorem Reading.Lexes.spaced {s : String} (known : s ∈ signs) :
    Lexes names (' ' :: s.toList ++ [' ']) [.sign s] rest :=
  Lexes.append (a := [' '] ++ s.toList) (s := [.sign s])
    (Lexes.append (a := [' ']) Lexes.blank (Lexes.sign_blank known)) Lexes.blank

/-- An operand without parentheses binds at least as tightly as its operator. -/
theorem Expr.le_strength_of_needsParens {key : String} {side : Side}
    (h : e.needsParens key side = false) :
    (bindingStrength? key).getD unaryStrength ≤ e.strength := by
  unfold Expr.needsParens at h
  split at h
  case h_4 =>
    simp only [Bool.or_eq_false_iff, decide_eq_false_iff_not, Nat.not_lt] at h
    exact h.1
  all_goals exact absurd h (by decide)

/-- A unary operator does not run together with its operand: a second sign is in parentheses. -/
theorem Reading.Lexes.unary (known : op ∈ unaryOperators) (legible : e.Legible names)
    (h : ∀ r, e.Follows r → Lexes names e.text e.tokens r) (follows : e.Follows rest) :
    Lexes names (Expr.unary op e).text (Expr.unary op e).tokens rest := by
  rw [Expr.text_unary, Expr.tokens]
  generalize needs : ((op == "-" || op == "+") && e.startsWithSign op ||
    e.needsParens (unaryKey op) .only) = needed
  refine Lexes.append (s := [operatorToken op]) ?_ (Lexes.operand h fun _ => follows)
  by_cases word : op ∈ ["typeof", "void"]
  · have stop : ∀ r, EndsName names (' ' :: r) :=
      fun r => (Expr.undefined.follows_cons (by decide)).endsName
    fin_cases word
    · exact Lexes.append (a := "typeof".toList) (Lexes.word (isName_ascii (by decide)) (stop _))
        Lexes.blank
    · exact Lexes.append (a := "void".toList) (Lexes.word (isName_ascii (by decide)) (stop _))
        Lexes.blank
  · have sign : op ∈ ["!", "~", "+", "-"] ∧ unaryText op = op.toList ∧
        operatorToken op = .sign op ∧
        (bindingStrength? (unaryKey op)).getD unaryStrength = unaryStrength := by
      fin_cases known <;> first | exact absurd (by decide) word | decide
    obtain ⟨isSign, text, token, strength⟩ := sign
    rw [text, token]
    refine Lexes.unarySign isSign ?_
    intro c hc
    cases needed with
    | true =>
      obtain rfl : '(' = c := by simpa [Script.parensIf, Script.parens] using hc
      exact ⟨by decide, fun plus same => by fin_cases plus <;> exact absurd same (by decide)⟩
    | false =>
      -- Without parentheses the operand starts with no sign that would glue.
      simp only [Bool.or_eq_false_iff] at needs
      have strong := Expr.le_strength_of_needsParens needs.2
      rw [strength] at strong
      obtain ⟨d, ds, shape, equals, signs⟩ := legible.text_starts strong
      obtain rfl : d = c := by simpa [Script.parensIf, shape] using hc
      refine ⟨equals, fun plus same => ?_⟩
      have starts := signs op plus same
      have either : (op == "-" || op == "+") = true := by fin_cases plus <;> rfl
      rw [either, starts] at needs
      exact absurd needs.1 (by decide)

/-- An operator and its operands are lexed one after the other. -/
theorem Reading.Lexes.infixed {l r : Expr} {left right : Bool}
    (known : op ∈ binaryOperators ++ logicalOperators)
    (hl : ∀ s, l.Follows s → Lexes names l.text l.tokens s)
    (hr : ∀ s, r.Follows s → Lexes names r.text r.tokens s) (follows : r.Follows rest) :
    Lexes names (Script.parensIf left l.text ++ ' ' :: op.toList ++
        ' ' :: Script.parensIf right r.text)
      (parenTokensIf left l.tokens ++ operatorToken op :: parenTokensIf right r.tokens) rest := by
  rw [append_assoc]
  refine Lexes.append (Lexes.operand hl fun _ => l.follows_cons (c := ' ') (by decide)) ?_
  refine Lexes.append (a := [' ']) Lexes.blank ?_
  refine Lexes.append (a := op.toList) (s := [operatorToken op]) (Lexes.operator known) ?_
  exact Lexes.append (a := [' ']) Lexes.blank (Lexes.operand hr fun _ => follows)

theorem Reading.Lexes.prop {k : String} (key : NameClass.ascii.isName k = true)
    (value : ∀ r, e.Follows r → Lexes names e.text e.tokens r) (follows : e.Follows rest) :
    Lexes names (propText (k, e)) (propTokens (k, e)) rest := by
  rw [propText, propTokens, keyText_of_isName key]
  refine Lexes.append (s := [.word k]) (Lexes.word (isName_ascii key) ?_) ?_
  · intro c hc
    obtain rfl : ':' = c := by simpa using hc
    exact names.part_ascii ':' (by decide)
  refine Lexes.append (a := [':']) (s := [.sign ":"]) (Lexes.bracket (s := ":") _ (by decide)) ?_
  exact Lexes.append (a := [' ']) Lexes.blank (value rest follows)

/-- An arrow function is lexed to parameters, arrow and body. -/
theorem Reading.Lexes.arrow {ps : List Param} {body : Expr}
    (params : ∀ r, Lexes names (paramsText ps) (paramsTokens ps) r)
    (h : ∀ r, body.Follows r → Lexes names body.text body.tokens r) (follows : body.Follows rest) :
    Lexes names (Expr.arrow ps body).text (Expr.arrow ps body).tokens rest := by
  rw [Expr.text_arrow, Expr.tokens, append_assoc]
  refine Lexes.append (params _) ?_
  refine Lexes.append (a := " => ".toList) (s := [.sign "=>"])
    (Lexes.spaced (s := "=>") (by decide)) ?_
  exact Lexes.operand h fun _ => follows

/-- The lexer finds the tokens of a legible expression in its text. -/
theorem Expr.Legible.lexes (legible : e.Legible names) (rest : List Char)
    (follows : e.Follows rest) : Lexes names e.text e.tokens rest := by
  induction legible generalizing rest with
  | ident name =>
    rw [Expr.text_ident]
    exact Lexes.word (isName_of_isIdentifier name) follows.endsName
  | lit h =>
    rw [Expr.text_lit]
    exact Lexes.scalar h follows
  | undefined =>
    rw [Expr.text_undefined]
    exact Lexes.word (isName_ascii (by decide)) follows.endsName
  | array _ ih =>
    rw [Expr.text_array, Expr.tokens, exprsTokens_eq_map]
    exact Lexes.bracketed (l := "[") (r := "]") (by decide) (Lexes.elements ih (by decide))
  | object keys _ ih =>
    rw [Expr.text_object, Expr.tokens, propsTokens_eq_map]
    refine Lexes.bracketed (l := "\x7b") (r := "\x7d") (by decide) ?_
    exact Lexes.commas
      (fun p hp r => Lexes.prop (keys p hp) (ih p hp) (p.2.follows_cons (by decide)))
      (fun p hp => Lexes.prop (keys p hp) (ih p hp) (p.2.follows_cons (by decide)))
  | @index obj key optional _ _ ihObject ihKey =>
    rw [Expr.text_member, Expr.tokens]
    -- Whether the object is in parentheses or bare, the bracket behind it may follow it.
    refine Lexes.append (Lexes.operand ihObject fun _ => ?_) ?_
    · cases optional <;> exact obj.follows_cons (by decide)
    · refine Lexes.append (Lexes.append ?_ (ihKey _ (key.follows_cons (c := ']') (by decide))))
        (Lexes.bracket (s := "]") _ (by decide))
      cases optional with
      | false => exact Lexes.bracket (s := "[") _ (by decide)
      | true =>
        exact Lexes.append (a := "?.".toList) (s := [.sign "?."])
          (Lexes.optional (by decide)) (Lexes.bracket (s := "[") _ (by decide))
  | property optional _ name ih =>
    obtain ⟨c, cs, chars, start⟩ := isName_head name
    rw [Expr.text_member, Expr.tokens, Expr.text_ident, Expr.tokens]
    refine Lexes.append (Lexes.operand ih fun bare => ?_) ?_
    -- A point is the one character that does not follow every expression: it would lengthen a
    -- number.
    · intro d hd
      cases optional with
      | true =>
        obtain rfl : '?' = d := by simpa using hd
        exact Or.inl (by decide)
      | false =>
        obtain rfl : '.' = d := by simpa using hd
        exact Or.inr ⟨rfl, bare⟩
    · refine Lexes.append ?_ (Lexes.word name follows.endsName)
      rw [chars]
      cases optional with
      | false => exact Lexes.point start
      | true => exact Lexes.optional (isDigit_of_start start)
  | @call f args _ _ ih ihArgs =>
    rw [Expr.text_call, Expr.tokens, exprsTokens_eq_map]
    refine Lexes.append (Lexes.operand ih fun _ => f.follows_cons (c := '(') (by decide)) ?_
    exact Lexes.parens (Lexes.elements ihArgs (by decide))
  | new name _ ih =>
    rw [Expr.text_new, Expr.tokens, exprsTokens_eq_map, Expr.tokens, append_assoc]
    have stop : ∀ c ∈ followers, ∀ r, EndsName names (c :: r) :=
      fun c hc r => (Expr.undefined.follows_cons hc).endsName
    refine Lexes.append (a := "new ".toList) (s := [.word "new"]) ?_ ?_
    · exact Lexes.append (a := "new".toList)
        (Lexes.word (isName_ascii (by decide)) (stop ' ' (by decide) _)) Lexes.blank
    refine Lexes.append (Lexes.word (isName_of_isIdentifier name) (stop '(' (by decide) _)) ?_
    exact Lexes.parens (Lexes.elements ih (by decide))
  | @unary op e known operand ih =>
    -- What follows a unary expression follows its operand, for no point follows it.
    have weak : (Expr.unary op e).strength < primaryStrength := by
      rw [strength_unary e known]
      decide
    exact Lexes.unary known operand ih (follows.inner (needsParensBefore_of_strength weak) e)
  | @binary l r op known _ _ ihLeft ihRight | @logical l r op known _ _ ihLeft ihRight =>
    have known : op ∈ binaryOperators ++ logicalOperators := by simp [known]
    obtain ⟨binary, logical, most⟩ := strength_infixed l op r known
    refine Lexes.infixed known ihLeft ihRight (follows.inner (needsParensBefore_of_strength ?_) r)
    rw [primaryStrength]
    omega
  | @ternary c y n _ _ _ ihTest ihYes ihNo =>
    have needs : (Expr.ternary c y n).needsParensBefore true = true := rfl
    rw [Expr.text_ternary, Expr.tokens]
    simp only [append_assoc, cons_append]
    refine Lexes.append (Lexes.operand ihTest fun _ => c.follows_cons (c := ' ') (by decide)) ?_
    refine Lexes.append (a := " ? ".toList) (s := [.sign "?"])
      (Lexes.spaced (s := "?") (by decide)) ?_
    refine Lexes.append (ihYes _ (y.follows_cons (c := ' ') (by decide))) ?_
    refine Lexes.append (a := " : ".toList) (s := [.sign ":"])
      (Lexes.spaced (s := ":") (by decide)) ?_
    exact ihNo _ (follows.inner needs n)
  | @arrow ps body params _ _ ih =>
    have needs : (Expr.arrow ps body).needsParensBefore true = true := rfl
    exact Lexes.arrow (fun _ => Lexes.params params) ih (follows.inner needs body)

end JexlScript.Script
