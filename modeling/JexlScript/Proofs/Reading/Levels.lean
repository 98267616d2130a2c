import JexlScript.Proofs.Reading.TokenShape

/-!
# Reading printed tokens, level by level

The tree that the tokens of an expression are read as is the expression itself,
up to the spelling of its literals: `Expr.asRead`. What binds as tightly as a
level of the grammar is read at that level and, with an operator of the level
behind it, as its left operand; what stands in parentheses is read at every level.
-/

namespace JexlScript.Script

open List hiding head
open Reading

variable {names : NameClass}
variable {ts : List Token} {e : Expr} {n : Nat} {needed : Bool}

/-! ## Trees as they are read -/

/-- A literal as it is read back. -/
def scalarAsRead (v : Scalar) : Expr :=
  if v.isNumber then
    if hasMinus v then .unary "-" (.lit (.double (absolute v))) else .lit (.double (absolute v))
  else .lit v

mutual

/-- An expression as it is read back, which differs only in its literals. -/
def Expr.asRead : Expr → Expr
  | .ident n => .ident n
  | .lit v => scalarAsRead v
  | .undefined => .ident "undefined"
  | .array es => .array (exprsAsRead es)
  | .object ps => .object (propsAsRead ps)
  | .member obj prop computed optional => .member obj.asRead prop.asRead computed optional
  | .call f args => .call f.asRead (exprsAsRead args)
  | .new f args => .new f.asRead (exprsAsRead args)
  | .unary op e => .unary op e.asRead
  | .binary l op r => .binary l.asRead op r.asRead
  | .logical l op r => .logical l.asRead op r.asRead
  | .ternary c y n => .ternary c.asRead y.asRead n.asRead
  | .arrow ps body => .arrow ps body.asRead
  | .arrowBlock ps body => .arrowBlock ps body
  | .function n ps body => .function n ps body

def exprsAsRead : List Expr → List Expr
  | [] => []
  | e :: es => e.asRead :: exprsAsRead es

def propsAsRead : List (String × Expr) → List (String × Expr)
  | [] => []
  | (k, e) :: ps => (k, e.asRead) :: propsAsRead ps

end

/-! ## What follows -/

/-- Whether a token continues a primary. -/
def isSuffix (t : Token) : Bool := t ∈ [".", "[", "(", "?."].map Token.sign

def NoSuffix (ts : List Token) : Prop := ∀ t ∈ ts.head?, isSuffix t = false

/-- What follows is taken neither by a suffix nor by an operator that binds more tightly than a
level. -/
def Quiet (n : Nat) (ts : List Token) : Prop :=
  ∀ t ∈ ts.head?, isSuffix t = false ∧ t ≠ .sign "**" ∧
    ∀ op l, operator? t = some (op, l) → l ≤ n

/-- What follows ends an expression. -/
def Ends (ts : List Token) : Prop :=
  ∀ t ∈ ts.head?, t ∈ [")", "]", "\x7d", ",", ":"].map Token.sign

theorem Quiet.mono {m n : Nat} (h : Quiet m ts) (le : m ≤ n) : Quiet n ts := by
  intro t ht
  obtain ⟨suffix, power, level⟩ := h t ht
  exact ⟨suffix, power, fun op l known => Nat.le_trans (level op l known) le⟩

theorem Quiet.noSuffix (h : Quiet n ts) : NoSuffix ts :=
  fun t ht => (h t ht).1

theorem ends_sign {s : String} (ts : List Token) (h : s ∈ [")", "]", "\x7d", ",", ":"]) :
    Ends (.sign s :: ts) := by
  intro t ht
  obtain rfl : .sign s = t := by simpa using ht
  exact mem_map_of_mem h

/-- What ends an expression is no operator, no suffix and no arrow. -/
theorem ends_spec : ∀ t ∈ [")", "]", "\x7d", ",", ":"].map Token.sign,
    isSuffix t = false ∧ t ≠ .sign "**" ∧ operator? t = none ∧ t ≠ .sign "?" ∧ t ≠ .sign "=>" := by
  decide

theorem Ends.quiet (h : Ends ts) : Quiet 0 ts := by
  intro t ht
  obtain ⟨suffix, power, none, _⟩ := ends_spec t (h t ht)
  exact ⟨suffix, power, fun op l known => by simp [none] at known⟩

theorem Ends.head?_ne_arrow (h : Ends ts) : ts.head? ≠ some (.sign "=>") :=
  fun same => (ends_spec _ (h _ same)).2.2.2.2 rfl

theorem expect_eq_none {s : String} (h : ts.head? ≠ some (.sign s)) :
    expect s ts = none := by
  unfold expect
  split
  · rw [if_neg]
    rintro rfl
    exact h rfl
  · rfl

theorem expect_self (s : String) (ts : List Token) : expect s (.sign s :: ts) = some ts :=
  if_pos rfl

/-! ## Functions that stop -/

/-- Suffixes stop where none comes next. -/
theorem suffixes_stop (e : Expr) (h : NoSuffix ts) :
    suffixes e ts = some (e, ts) := by
  rw [suffixes.eq_def]
  split
  · rfl
  case h_2 s ts =>
      have other : s ∉ [".", "[", "(", "?."] := by
        intro member
        have isTrue : isSuffix (.sign s) = true := decide_eq_true (mem_map_of_mem member)
        exact Bool.false_ne_true ((h _ rfl).symm.trans isTrue)
      simp only [mem_cons, not_mem_nil, or_false, not_or] at other
      simp [other]
  · rfl

/-- A level stops at operators of other levels. -/
theorem operands_stop (e : Expr) (h : ∀ t ∈ ts.head?, ∀ op l, operator? t = some (op, l) → l ≠ n) :
    operands n e ts = some (e, ts) := by
  cases ts with
  | nil => rw [operands]
  | cons t ts =>
    rw [operands]
    split
    · rfl
    case h_2 op l known => rw [if_neg (h t rfl op l known)]

/-! ## Reading at a level -/

/-- Tokens are read as an expression that suffixes may follow. -/
def ReadsPrimary (ts : List Token) (e : Expr) : Prop :=
  ∀ rest, leftHandSide (ts ++ rest) = suffixes e rest

/-- Tokens are read as an operand of a unary operator. -/
def ReadsUnary (ts : List Token) (e : Expr) : Prop :=
  ∀ rest, NoSuffix rest → unary (ts ++ rest) = some (e, rest)

/-- Tokens are read as the left operand of operators of a level. -/
def ReadsLevel (n : Nat) (ts : List Token) (e : Expr) : Prop :=
  ∀ rest, Quiet n rest →
    level n (ts ++ rest) = if n < operatorLevels.length then operands n e rest else some (e, rest)

/-- Tokens are read as an expression where one ends. -/
def ReadsWhole (ts : List Token) (e : Expr) : Prop :=
  ∀ rest, Ends rest → assignment (ts ++ rest) = some (e, rest)

/-- A primary is read as an operand, if it starts with no unary operator. -/
theorem ReadsPrimary.unary (h : ReadsPrimary ts e)
    (head : ∃ t us, ts = t :: us ∧ unaryOperator? t = none) : ReadsUnary ts e := by
  intro rest stop
  obtain ⟨t, us, rfl, none⟩ := head
  rw [cons_append, Reading.unary, none]
  exact (h rest).trans (suffixes_stop e stop)

theorem ReadsUnary.level (h : ReadsUnary ts e) :
    ReadsLevel 10 ts e := by
  intro rest quiet
  have power : rest.head? ≠ some (.sign "**") := fun same => (quiet _ same).2.1 rfl
  rw [Reading.level, if_neg (by decide), if_neg (by decide), exponential, h rest quiet.noSuffix]
  simp [expect_eq_none power]

/-- What is read at a level is read at the next weaker one. -/
theorem ReadsLevel.pred (h : ReadsLevel (n + 1) ts e) (lt : n < operatorLevels.length) :
    ReadsLevel n ts e := by
  intro rest quiet
  have tighter : Reading.level (n + 1) (ts ++ rest) = some (e, rest) := by
    rw [h rest (quiet.mono (Nat.le_succ n))]
    split
    · refine operands_stop e fun t ht op l known => ?_
      have low := (quiet t ht).2.2 op l known
      omega
    · rfl
  rw [Reading.level, if_pos lt, if_pos lt, tighter]
  rfl

/-- What is read at a level is read at all weaker ones. -/
theorem ReadsLevel.mono {m n : Nat} (h : ReadsLevel n ts e) (le : m ≤ n) (most : n ≤ 10) :
    ReadsLevel m ts e := by
  induction n with
  | zero =>
    obtain rfl : m = 0 := by omega
    exact h
  | succ n ih =>
    rcases Nat.lt_or_ge n m with lt | ge
    · obtain rfl : m = n + 1 := by omega
      exact h
    · have lt : n < operatorLevels.length := by
        show n < 10
        omega
      exact ih (h.pred lt) ge (by omega)

/-- What is read at the weakest level is a whole expression, if it does not look like an arrow. -/
theorem ReadsLevel.whole (h : ReadsLevel 0 ts e)
    (arrow : ∀ rest, Ends rest → startsArrow (ts ++ rest) = false) : ReadsWhole ts e := by
  intro rest ends
  have quiet := ends.quiet
  have stop : operands 0 e rest = some (e, rest) := by
    refine operands_stop e fun t ht op l known => ?_
    rw [(ends_spec t (ends t ht)).2.2.1] at known
    exact absurd known (by simp)
  have question : rest.head? ≠ some (.sign "?") := fun same =>
    (ends_spec _ (ends _ same)).2.2.2.1 rfl
  rw [assignment, if_neg (by simp [arrow rest ends]), h rest quiet, if_pos (by decide), stop]
  simp [expect_eq_none question]

/-- In parentheses any expression is primary. -/
theorem ReadsWhole.parens (h : ReadsWhole ts e) :
    ReadsPrimary (parenTokens ts) e := by
  intro rest
  have inner := h (.sign ")" :: rest) (ends_sign rest (by decide))
  rw [leftHandSide, parenTokens, append_assoc, cons_append, head]
  simp [inner, expect_self]

/-! ## Expressions at their levels -/

/-- An expression is read at the levels that it binds as tightly as, and as a
whole. -/
structure Expr.Reads (e : Expr) : Prop where
  primary : primaryStrength ≤ e.strength → ReadsPrimary e.tokens e.asRead
  unary : unaryStrength ≤ e.strength → ReadsUnary e.tokens e.asRead
  level : ∀ n ≤ 10, n + 6 ≤ e.strength → ReadsLevel n e.tokens e.asRead
  whole : ReadsWhole e.tokens e.asRead

theorem Expr.whole_of_level (legible : e.Legible names) (strong : arrowStrength < e.strength)
    (h : ReadsLevel 0 e.tokens e.asRead) :
    ReadsWhole e.tokens e.asRead :=
  h.whole fun rest ends => legible.startsArrow_tokens rest strong ends.head?_ne_arrow

/-- An expression is read at its level, and so at all weaker ones. -/
theorem Expr.reads_of_level (legible : e.Legible names) (most : n ≤ 10)
    (strength : e.strength = n + 6) (h : ReadsLevel n e.tokens e.asRead) :
    e.Reads where
  primary strong := by
    rw [strength, primaryStrength] at strong
    omega
  unary strong := by
    rw [strength, unaryStrength] at strong
    omega
  level m _ le := h.mono (by omega) most
  whole := Expr.whole_of_level legible (by rw [strength, arrowStrength]; omega)
    (h.mono (Nat.zero_le n) most)

/-- A unary expression is read as an operand, and so at all levels. -/
theorem Expr.reads_of_unary (legible : e.Legible names) (strength : e.strength = unaryStrength)
    (h : ReadsUnary e.tokens e.asRead) : e.Reads where
  primary strong := by
    rw [strength] at strong
    exact absurd strong (by decide)
  unary _ := h
  level m most _ := h.level.mono most (Nat.le_refl 10)
  whole := Expr.whole_of_level legible (by rw [strength]; decide)
    (h.level.mono (Nat.zero_le 10) (Nat.le_refl 10))

theorem Expr.reads_of_primary (legible : e.Legible names) (strength : e.strength = primaryStrength)
    (h : ReadsPrimary e.tokens e.asRead) :
    e.Reads := by
  have unary : ReadsUnary e.tokens e.asRead := by
    obtain ⟨t, ts, shape, opens⟩ := legible.hasHead
    exact h.unary ⟨t, ts, shape, opens.bare (Nat.le_of_eq strength.symm)⟩
  exact {
    primary := fun _ => h
    unary := fun _ => unary
    level := fun m most _ => unary.level.mono most (Nat.le_refl 10)
    whole := Expr.whole_of_level legible (by rw [strength]; decide)
      (unary.level.mono (Nat.zero_le 10) (Nat.le_refl 10)) }

/-! ## Operands -/

theorem parens_head (ts : List Token) :
    ∃ t us, parenTokens ts = t :: us ∧ unaryOperator? t = none :=
  ⟨.sign "(", _, rfl, by decide⟩

/-- An operand before a suffix is read back, in parentheses or bare. -/
theorem Expr.Reads.primary_operand (h : e.Reads)
    (bare : needed = false → primaryStrength ≤ e.strength) :
    ReadsPrimary (parenTokensIf needed e.tokens) e.asRead := by
  cases needed with
  | true => exact h.whole.parens
  | false => exact h.primary (bare rfl)

theorem Expr.Reads.unary_operand (h : e.Reads) (bare : needed = false → unaryStrength ≤ e.strength) :
    ReadsUnary (parenTokensIf needed e.tokens) e.asRead := by
  cases needed with
  | true => exact h.whole.parens.unary (parens_head _)
  | false => exact h.unary (bare rfl)

/-- An operand of an operator is read back at its level, in parentheses or bare. -/
theorem Expr.Reads.level_operand (h : e.Reads) (most : n ≤ 10)
    (bare : needed = false → n + 6 ≤ e.strength) :
    ReadsLevel n (parenTokensIf needed e.tokens) e.asRead := by
  cases needed with
  | true => exact (h.whole.parens.unary (parens_head _)).level.mono most (Nat.le_refl 10)
  | false => exact h.level n most (bare rfl)

/-- Every printed operator is read as itself, on its level. -/
theorem operator?_operatorToken : ∀ op ∈ binaryOperators ++ logicalOperators, op ≠ "**" →
    operator? (operatorToken op) = some (op, operatorLevel op) ∧ operatorLevel op < 10 ∧
      isSuffix (operatorToken op) = false ∧ operatorToken op ≠ .sign "**" := by
  decide

/-- Operands in parentheses or tight enough are read back with their operator. -/
theorem reads_infixed {l r : Expr} {op : String} {left right : Bool}
    (known : op ∈ binaryOperators ++ logicalOperators) (power : op ≠ "**")
    (hl : l.Reads) (hr : r.Reads)
    (bareLeft : left = false → operatorLevel op + 6 ≤ l.strength)
    (bareRight : right = false → operatorLevel op + 7 ≤ r.strength) :
    ReadsLevel (operatorLevel op) (parenTokensIf left l.tokens ++
      operatorToken op :: parenTokensIf right r.tokens) (infixed l.asRead op r.asRead) := by
  obtain ⟨level, lt, suffix, star⟩ := operator?_operatorToken op known power
  intro rest quiet
  have lt' : operatorLevel op < operatorLevels.length := lt
  -- The left operand ends at the operator, which is of this level.
  have leftRead := hl.level_operand (Nat.le_of_lt lt) bareLeft
    (operatorToken op :: (parenTokensIf right r.tokens ++ rest)) (by
      intro t ht
      obtain rfl : operatorToken op = t := by simpa using ht
      refine ⟨suffix, star, fun o k other => ?_⟩
      rw [level] at other
      obtain ⟨rfl, rfl⟩ : op = o ∧ operatorLevel op = k := by simpa using other
      exact Nat.le_refl _)
  -- The right operand takes tighter operators only, and what follows it has none.
  have rightRead : Reading.level (operatorLevel op + 1) (parenTokensIf right r.tokens ++ rest) =
      some (r.asRead, rest) := by
    rw [hr.level_operand lt bareRight rest (quiet.mono (Nat.le_succ _))]
    split
    · refine operands_stop _ fun t ht o k other => ?_
      have low := (quiet t ht).2.2 o k other
      omega
    · rfl
  rw [append_assoc, cons_append, leftRead, if_pos lt', operands, level, if_pos lt']
  simp [rightRead]

end JexlScript.Script
