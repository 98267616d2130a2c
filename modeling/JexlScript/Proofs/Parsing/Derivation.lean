import JexlScript.Proofs.Parsing.Climbing

/-!
# The grammar of formulas

`Derives` states which lists of tokens are formulas, one constructor for each
way to apply a rule:

    Expression  = Binary ( '?' Expression ':' Expression )?
    Binary      = Unary ( binaryOp Unary )*
    Unary       = unaryOp Unary | Postfix
    Postfix     = Primary ( '.' name | '[' Expression ']' | '|' name Args? )*
    Primary     = literal | name Args? | '.' name | '(' Expression ')'
                | '[' Expression,* ']' | '{' Key ':' Expression,* '}'

Along with the tokens goes the formula that they spell. A relative name may
stand only where a filter is open around it, and a filter is relative if such a
name stands in it outside of the filters in it. Two things are left to `Rules`:
the shape of a chain of binary operators, and whether a minus before a number
is a primary.
-/

namespace JexlScript

/-- Whether a token is a symbol of a kind. -/
def Token.Is (t : Token) (kind : SymbolKind) : Prop := ∃ text, t.lexeme = .symbol kind text

/-- Whether a token is a key of an object, given as a name or as a text. -/
def Token.IsKey (t : Token) (key : String) : Prop :=
  t.lexeme = .identifier key ∨ t.lexeme = .literal (.text key)

namespace Formula

/-- What the grammar leaves open. -/
structure Rules where
  /-- Whether a first operand and the operators and operands after it may be
  joined to a formula. -/
  joins : Formula → List (String × Formula) → Formula → Prop
  /-- Whether a minus before a number is a primary. -/
  signs : Bool

/-- A part of the grammar with what it spells. -/
inductive Part where
  | expression (f : Formula)
  | binary (f : Formula)
  /-- The operators of a chain, each with the operand after it. -/
  | links (ls : List (String × Formula))
  | unary (f : Formula)
  /-- What follows a primary, which it makes into a formula. -/
  | suffixes (subject f : Formula)
  | primary (f : Formula)
  /-- Expressions with commas between them, or nothing. -/
  | items (es : List Formula)
  /-- Expressions with commas between them, at least one. -/
  | listed (es : List Formula)
  /-- The entries of an object, at least one. -/
  | entries (ps : List (String × Formula))

/-- The tokens of each part. `inside` says whether a filter is open around them,
and `relative` whether a relative name stands among them outside of the filters
that they hold. -/
inductive Derives (r : Rules) : Part → (inside : Bool) → List Token → (relative : Bool) → Prop
  | plain {f inside ts m} :
      Derives r (.binary f) inside ts m → Derives r (.expression f) inside ts m
  | conditional {t y n inside ts us vs m m' m''} {q c : Token} :
      Derives r (.binary t) inside ts m → q.Is .question →
      Derives r (.expression y) inside us m' → c.Is .colon →
      Derives r (.expression n) inside vs m'' →
      Derives r (.expression (.conditional t y n)) inside (ts ++ q :: (us ++ c :: vs))
        (m || (m' || m''))
  | chain {e ls f inside ts us m m'} :
      Derives r (.unary e) inside ts m → Derives r (.links ls) inside us m' → r.joins e ls f →
      Derives r (.binary f) inside (ts ++ us) (m || m')
  | noLink {inside} : Derives r (.links []) inside [] false
  | link {op e ls inside ts us m m'} {o : Token} :
      o.lexeme = .symbol .binaryOp op → Derives r (.unary e) inside ts m →
      Derives r (.links ls) inside us m' →
      Derives r (.links ((op, e) :: ls)) inside (o :: (ts ++ us)) (m || m')
  | prefixed {op e inside ts m} {o : Token} :
      o.lexeme = .symbol .unaryOp op → Derives r (.unary e) inside ts m →
      Derives r (.unary (.unary op e)) inside (o :: ts) m
  | postfixed {e f inside ts us m m'} :
      Derives r (.primary e) inside ts m → Derives r (.suffixes e f) inside us m' →
      Derives r (.unary f) inside (ts ++ us) (m || m')
  | noSuffix {f inside} : Derives r (.suffixes f f) inside [] false
  | field {s f name inside us m} {d n : Token} :
      d.Is .dot → n.lexeme = .identifier name →
      Derives r (.suffixes (.field s name false) f) inside us m →
      Derives r (.suffixes s f) inside (d :: n :: us) m
  | filter {s e f inside ts us m m'} {o c : Token} :
      o.Is .openBracket → Derives r (.expression e) true ts m → c.Is .closeBracket →
      Derives r (.suffixes (.filter s e m) f) inside us m' →
      Derives r (.suffixes s f) inside (o :: (ts ++ c :: us)) m'
  | transform {s f name inside us m} {p n : Token} :
      p.Is .pipe → n.lexeme = .identifier name →
      Derives r (.suffixes (.call transformsPool name [s]) f) inside us m →
      Derives r (.suffixes s f) inside (p :: n :: us) m
  | transformArgs {s es f name inside ts us m m'} {p n o c : Token} :
      p.Is .pipe → n.lexeme = .identifier name → o.Is .openParen →
      Derives r (.items es) inside ts m → c.Is .closeParen →
      Derives r (.suffixes (.call transformsPool name (s :: es)) f) inside us m' →
      Derives r (.suffixes s f) inside (p :: n :: o :: (ts ++ c :: us)) (m || m')
  | literal {v inside} {t : Token} :
      t.lexeme = .literal v → Derives r (.primary (.literal v)) inside [t] false
  | name {name inside} {t : Token} :
      t.lexeme = .identifier name → Derives r (.primary (.root name false)) inside [t] false
  | call {name es inside ts m} {t o c : Token} :
      t.lexeme = .identifier name → o.Is .openParen → Derives r (.items es) inside ts m →
      c.Is .closeParen →
      Derives r (.primary (.call functionsPool name es)) inside (t :: o :: (ts ++ [c])) m
  | relativeName {name} {d t : Token} :
      d.Is .dot → t.lexeme = .identifier name →
      Derives r (.primary (.root name true)) true [d, t] true
  | group {e inside ts m} {o c : Token} :
      o.Is .openParen → Derives r (.expression e) inside ts m → c.Is .closeParen →
      Derives r (.primary e) inside (o :: (ts ++ [c])) m
  | array {es inside ts m} {o c : Token} :
      o.Is .openBracket → Derives r (.items es) inside ts m → c.Is .closeBracket →
      Derives r (.primary (.array es)) inside (o :: (ts ++ [c])) m
  | noEntry {inside} {o c : Token} :
      o.Is .openCurl → c.Is .closeCurl → Derives r (.primary (ofEntries [])) inside [o, c] false
  | object {ps inside ts m} {o c : Token} :
      o.Is .openCurl → Derives r (.entries ps) inside ts m → c.Is .closeCurl →
      Derives r (.primary (ofEntries ps)) inside (o :: (ts ++ [c])) m
  | negative {v inside} {t u : Token} :
      r.signs = true → t.isMinus = true → u.number = some v →
      Derives r (.primary (.literal (.double v.neg))) inside [t, u] false
  | noItem {inside} : Derives r (.items []) inside [] false
  | someItems {es inside ts m} :
      Derives r (.listed es) inside ts m → Derives r (.items es) inside ts m
  | lastItem {e inside ts m} :
      Derives r (.expression e) inside ts m → Derives r (.listed [e]) inside ts m
  | moreItems {e es inside ts us m m'} {c : Token} :
      Derives r (.expression e) inside ts m → c.Is .comma → Derives r (.listed es) inside us m' →
      Derives r (.listed (e :: es)) inside (ts ++ c :: us) (m || m')
  | lastEntry {key e inside ts m} {k c : Token} :
      k.IsKey key → c.Is .colon → Derives r (.expression e) inside ts m →
      Derives r (.entries [(key, e)]) inside (k :: c :: ts) m
  | moreEntries {key e ps inside ts us m m'} {k c s : Token} :
      k.IsKey key → c.Is .colon → Derives r (.expression e) inside ts m → s.Is .comma →
      Derives r (.entries ps) inside us m' →
      Derives r (.entries ((key, e) :: ps)) inside (k :: c :: (ts ++ s :: us)) (m || m')

/-! ## Shapes of chains -/

/-- A formula whose binary operators, read from left to right, join a first
operand to the operands after it, in any shape. -/
inductive InOrder : Formula → List (String × Formula) → Formula → Prop
  | operand (e : Formula) : InOrder e [] e
  | binary {e e' f f' : Formula} {ls ls' : List (String × Formula)} (op : String) :
      InOrder e ls f → InOrder e' ls' f' → InOrder e (ls ++ (op, e') :: ls') (.binary op f f')

/-- Whether an operator with the given precedence may go on a chain. One of the
least precedence may only where an operator that has no place in the order is
held before it. -/
def Joinable {ι : Type} (g : Grammar ι) (held : Bool) (op : String) (precedence : Double) : Prop :=
  (g.lookup? op .binaryOp).map (·.precedence) = some precedence ∧
    (isLeast precedence && !held) = false

/-- Links that go on a chain one after the other. -/
def Linked {ι : Type} (g : Grammar ι) : (held : Bool) → List Link → Prop
  | _, [] => True
  | held, l :: ls => Joinable g held l.op l.precedence ∧ Linked g (held || l.precedence.isNaN) ls

/-- Whether climbing gives a formula to a first operand and the links after it. -/
def Climbs {ι : Type} (g : Grammar ι) (e : Formula) (ls : List (String × Formula)) (f : Formula) :
    Prop :=
  ∃ links : List Link, (links.map fun l => (l.op, l.operand)) = ls ∧
    Linked g false links ∧ climb e [] links = f

end Formula

end JexlScript
