import JexlScript.Proofs.Reading.PrintedTokens

/-!
# How printed tokens start and nest

Brackets close in the tokens of an expression, so that a search for a closing
bracket passes over it. Its first token tells what it may be: nothing that closes
or separates, a brace only where an object literal comes first, a unary operator
only where no member may follow. And no arrow stands where the reader would take
an operand in parentheses for the parameters of an arrow function.
-/

namespace JexlScript.Script

open List Reading

variable {names : NameClass}

/-! ## Nesting -/

theorem afterClose_open {s : String} (h : s ∈ ["(", "[", "\x7b"]) (d : Nat) (ts : List Token) :
    afterClose d (.sign s :: ts) = afterClose (d + 1) ts := by
  fin_cases h <;> simp [afterClose]

theorem afterClose_close {s : String} (h : s ∈ [")", "]", "\x7d"]) (d : Nat) (ts : List Token) :
    afterClose 0 (.sign s :: ts) = ts ∧ afterClose (d + 1) (.sign s :: ts) = afterClose d ts := by
  fin_cases h <;> exact ⟨by simp [afterClose], by simp [afterClose]⟩

/-- Whether a token is a bracket. -/
def isBracket (t : Token) : Bool :=
  t ∈ (["(", "[", "\x7b", ")", "]", "\x7d"].map Token.sign)

theorem afterClose_other {t : Token} (h : isBracket t = false) (d : Nat) (ts : List Token) :
    afterClose d (t :: ts) = afterClose d ts := by
  cases t with
  | sign s =>
    simp only [isBracket, map_cons, map_nil, mem_cons, Token.sign.injEq,
      not_mem_nil, or_false, decide_eq_false_iff_not, not_or] at h
    rw [afterClose.eq_def]
    simp [h]
  | word | number | string => simp [afterClose]

/-- A search for a closing bracket passes over the tokens. -/
def Balanced (ts : List Token) : Prop :=
  ∀ d rest, afterClose d (ts ++ rest) = afterClose d rest

namespace Balanced

theorem nil : Balanced [] := fun _ _ => rfl

theorem append {a b : List Token} (ha : Balanced a) (hb : Balanced b) : Balanced (a ++ b) := by
  intro d rest
  rw [append_assoc, ha, hb]

theorem single {t : Token} (h : isBracket t = false) : Balanced [t] := by
  intro d rest
  exact afterClose_other h d rest

theorem cons {t : Token} {ts : List Token} (h : isBracket t = false) (hts : Balanced ts) :
    Balanced (t :: ts) :=
  (single h).append hts

/-- Balanced tokens in brackets are balanced. -/
theorem bracketed {l r : String} {ts : List Token}
    (known : (l, r) ∈ [("(", ")"), ("[", "]"), ("\x7b", "\x7d")]) (h : Balanced ts) :
    Balanced (.sign l :: ts ++ [Token.sign r]) := by
  intro d rest
  have opens : l ∈ ["(", "[", "\x7b"] := by fin_cases known <;> decide
  have closes : r ∈ [")", "]", "\x7d"] := by fin_cases known <;> decide
  rw [append_assoc, cons_append, afterClose_open opens, h]
  exact (afterClose_close closes d rest).2

theorem parens {ts : List Token} (h : Balanced ts) : Balanced (parenTokens ts) :=
  bracketed (l := "(") (r := ")") (by decide) h

theorem parensIf {ts : List Token} (needed : Bool) (h : Balanced ts) :
    Balanced (parenTokensIf needed ts) := by
  cases needed
  · exact h
  · exact h.parens

theorem commas : ∀ {tss : List (List Token)}, (∀ ts ∈ tss, Balanced ts) →
    Balanced (commaTokens tss)
  | [], _ => nil
  | [ts], h => h ts (by simp)
  | ts :: us :: tss, h =>
    (h ts (by simp)).append (cons (by decide)
      (commas fun x hx => h x (mem_cons_of_mem _ hx)))

end Balanced

theorem balanced_scalarTokens (v : Scalar) : Balanced (scalarTokens v) := by
  cases v with
  | null => exact Balanced.single rfl
  | bool b => exact Balanced.single rfl
  | text s => exact Balanced.single rfl
  | int | double =>
    show Balanced (numberTokens _ _)
    unfold numberTokens
    split
    · exact Balanced.cons (by decide) (Balanced.single rfl)
    · exact Balanced.single rfl

theorem balanced_paramsTokens (ps : List Param) : Balanced (commaTokens (ps.map Param.tokens)) := by
  refine Balanced.commas fun ts h => ?_
  obtain ⟨p, _, rfl⟩ := mem_map.mp h
  cases p with
  | name n => exact Balanced.single rfl
  | pattern ns =>
    refine Balanced.bracketed (l := "\x7b") (r := "\x7d") (by decide) ?_
    refine Balanced.commas fun ts h => ?_
    obtain ⟨n, _, rfl⟩ := mem_map.mp h
    exact Balanced.single rfl

/-- No operator is a bracket. -/
theorem operatorToken_spec : ∀ op ∈ unaryOperators ++ (binaryOperators ++ logicalOperators),
    isBracket (operatorToken op) = false := by
  decide

theorem Balanced.exprs {es : List Expr} (h : ∀ e ∈ es, Balanced e.tokens) :
    Balanced (commaTokens (exprsTokens es)) := by
  rw [exprsTokens_eq_map]
  exact Balanced.commas (forall_mem_map.mpr h)

/-- The tokens of a legible expression are balanced. -/
theorem Expr.Legible.balanced {e : Expr} (legible : e.Legible names) : Balanced e.tokens := by
  induction legible with
  | ident | undefined => exact Balanced.single rfl
  | lit => exact balanced_scalarTokens _
  | array _ ih =>
    rw [Expr.tokens]
    exact Balanced.bracketed (by decide) (Balanced.exprs ih)
  | object _ _ ih =>
    rw [Expr.tokens, propsTokens_eq_map]
    refine Balanced.bracketed (by decide) (Balanced.commas (forall_mem_map.mpr fun p hp => ?_))
    exact Balanced.cons rfl (Balanced.cons (by decide) (ih p hp))
  | property optional _ _ ih =>
    rw [Expr.tokens]
    refine (ih.parensIf _).append ?_
    cases optional <;> exact Balanced.cons (by decide) (Balanced.single rfl)
  | index optional _ _ ihObject ihKey =>
    rw [Expr.tokens]
    refine (ihObject.parensIf _).append ?_
    have inner := Balanced.bracketed (l := "[") (r := "]") (by decide) ihKey
    cases optional with
    | false => exact inner
    | true => exact Balanced.cons (by decide) inner
  | call _ _ ih ihArgs =>
    rw [Expr.tokens]
    exact (ih.parensIf _).append (Balanced.exprs ihArgs).parens
  | new _ _ ih =>
    rw [Expr.tokens, Expr.tokens]
    exact (Balanced.cons rfl (Balanced.single rfl)).append (Balanced.exprs ih).parens
  | unary known _ ih =>
    rw [Expr.tokens]
    exact Balanced.cons (operatorToken_spec _ (by simp [known])) (ih.parensIf _)
  | binary known _ _ ihLeft ihRight | logical known _ _ ihLeft ihRight =>
    rw [Expr.tokens]
    exact (ihLeft.parensIf _).append
      (Balanced.cons (operatorToken_spec _ (by simp [known])) (ihRight.parensIf _))
  | ternary _ _ _ ihTest ihYes ihNo =>
    rw [Expr.tokens]
    exact ((ihTest.parensIf _).append (Balanced.cons (by decide) ihYes)).append
      (Balanced.cons (by decide) ihNo)
  | arrow _ _ _ ih =>
    rw [Expr.tokens]
    exact (balanced_paramsTokens _).parens.append (Balanced.cons (by decide) (ih.parensIf _))

/-! ## First tokens -/

/-- What the first token of an expression can be. -/
structure Expr.Opens (e : Expr) (t : Token) : Prop where
  sign : ∀ s, t = .sign s → s ∈ ["(", "[", "\x7b", "!", "~", "+", "-"]
  brace : t = .sign "\x7b" → e.leftmost.isObject = true
  bare : primaryStrength ≤ e.strength → unaryOperator? t = none

/-- An expression has a first token, which opens it. -/
def Expr.HasHead (e : Expr) : Prop := ∃ t ts, e.tokens = t :: ts ∧ e.Opens t

theorem Expr.opens_paren (e : Expr) : e.Opens (.sign "(") where
  sign s h := by
    obtain rfl : "(" = s := by simpa using h
    decide
  brace h := by simp at h
  bare _ := by decide

theorem Expr.opens_word {e : Expr} {n : String} (h : unaryOperator? (.word n) = none) :
    e.Opens (.word n) where
  sign s h := by simp at h
  brace h := by simp at h
  bare _ := h

/-- The first token of a left operand is that of the whole. -/
theorem Expr.HasHead.leading {e outer : Expr} {needed : Bool} {rest : List Token}
    (h : e.HasHead) (tokens : outer.tokens = parenTokensIf needed e.tokens ++ rest)
    (leftmost : outer.leftmost = e.leftmost)
    (strong : needed = false → primaryStrength ≤ outer.strength → primaryStrength ≤ e.strength) :
    outer.HasHead := by
  cases needed with
  | true => exact ⟨_, _, tokens, outer.opens_paren⟩
  | false =>
    obtain ⟨t, ts, shape, opens⟩ := h
    refine ⟨t, ts ++ rest, ?_, opens.sign, ?_, fun h => opens.bare (strong rfl h)⟩
    · rw [tokens, parenTokensIf, if_neg (by decide), shape, cons_append]
    · rw [leftmost]
      exact opens.brace

theorem unaryOperator?_of_isIdentifier {n : String} (h : names.isIdentifier n = true) :
    unaryOperator? (.word n) = none := by
  have free : n ∉ reservedWords := by
    simpa [NameClass.isIdentifier] using (Bool.and_eq_true_iff.mp h).2
  rw [unaryOperator?, if_neg]
  intro word
  fin_cases word <;> exact free (by decide)

/-- A literal starts with a word, a string, a number or a minus. -/
theorem hasHead_lit {v : Scalar} (exact : isExact v = true) : (Expr.lit v).HasHead := by
  by_cases number : v.isNumber = true
  · have tokens : (Expr.lit v).tokens = numberTokens (hasMinus v) (absolute v) := by
      cases v with
      | int | double => rfl
      | null | bool | text => simp [Scalar.isNumber] at number
    rw [Expr.HasHead, tokens]
    cases minus : hasMinus v with
    | false => exact ⟨_, [], rfl, fun s h => by simp at h, fun h => by simp at h, fun _ => rfl⟩
    | true =>
      refine ⟨.sign "-", [.number (absolute v)], rfl, ?_, fun h => by simp at h, ?_⟩
      · intro s h
        obtain rfl : "-" = s := by simpa using h
        decide
      · intro strong
        simp [Expr.strength, isNegative_of_hasMinus exact minus, unaryStrength,
          primaryStrength] at strong
  · cases v with
    | null => exact ⟨_, [], rfl, Expr.opens_word (by decide)⟩
    | bool b => cases b <;> exact ⟨_, [], rfl, Expr.opens_word (by decide)⟩
    | text s => exact ⟨_, [], rfl, fun s h => by simp at h, fun h => by simp at h, fun _ => rfl⟩
    | int | double => exact absurd rfl number

theorem operatorToken_unary (op : String) (h : op ∈ unaryOperators) :
    (∀ s, operatorToken op = .sign s → s ∈ ["(", "[", "\x7b", "!", "~", "+", "-"]) ∧
      operatorToken op ≠ .sign "\x7b" := by
  refine ⟨fun s same => ?_, by fin_cases h <;> decide⟩
  fin_cases h
  case «4» => exact absurd same (by simp [operatorToken])
  case «5» => exact absurd same (by simp [operatorToken])
  all_goals
    obtain rfl := Token.sign.inj same
    decide

/-- Every legible expression has a first token. -/
theorem Expr.Legible.hasHead {e : Expr} (legible : e.Legible names) : e.HasHead := by
  induction legible with
  | ident name => exact ⟨_, [], rfl, Expr.opens_word (unaryOperator?_of_isIdentifier name)⟩
  | lit h => exact hasHead_lit h
  | undefined => exact ⟨_, [], rfl, Expr.opens_word (by decide)⟩
  | array =>
    -- An opening bracket is no unary operator and closes nothing.
    refine ⟨.sign "[", _, rfl, ?_, fun h => by simp at h, fun _ => by decide⟩
    intro s h
    obtain rfl : "[" = s := by simpa using h
    decide
  | object =>
    refine ⟨.sign "\x7b", _, rfl, ?_, fun _ => rfl, fun _ => by decide⟩
    intro s h
    obtain rfl : "\x7b" = s := by simpa using h
    decide
  -- A left operand is in parentheses, or its first token is that of the whole.
  | property _ _ _ ih | index _ _ _ ih | call _ _ ih =>
    exact ih.leading (by rw [Expr.tokens]) rfl
      fun bare _ => le_strength_of_needsParensBefore bare
  | new => exact ⟨_, _, rfl, Expr.opens_word (by decide)⟩
  | @unary op e known =>
    obtain ⟨sign, brace⟩ := operatorToken_unary op known
    refine ⟨operatorToken op, _, by rw [Expr.tokens], sign, fun is => absurd is brace, ?_⟩
    intro strong
    rw [strength_unary e known] at strong
    exact absurd strong (by decide)
  | @binary l r op known _ _ ih | @logical l r op known _ _ ih =>
    obtain ⟨binary, logical, most⟩ := strength_infixed l op r (by simp [known])
    refine ih.leading (by rw [Expr.tokens]) rfl fun _ strong => ?_
    rw [primaryStrength] at strong
    omega
  | ternary _ _ _ ih =>
    refine ih.leading (by rw [Expr.tokens, append_assoc]) rfl fun _ strong => ?_
    simp [Expr.strength, primaryStrength, conditionalStrength] at strong
  | arrow => exact ⟨_, _, rfl, Expr.opens_paren _⟩

/-! ## Arrows -/

/-- Parentheses look like parameters only before an arrow. -/
theorem startsArrow_parensIf {needed : Bool} {ts rest : List Token} (balanced : Balanced ts)
    (next : rest.head? ≠ some (.sign "=>"))
    (bare : needed = false → startsArrow (ts ++ rest) = false) :
    startsArrow (parenTokensIf needed ts ++ rest) = false := by
  cases needed with
  | false => exact bare rfl
  | true =>
    have closed : afterClose 0 (ts ++ .sign ")" :: rest) = rest := by
      rw [balanced]
      exact (afterClose_close (by decide) 0 rest).1
    simpa [parenTokensIf, parenTokens, startsArrow, closed] using next

theorem head?_append_of_hasHead {e : Expr} (h : e.HasHead) (needed : Bool) (rest : List Token) :
    (parenTokensIf needed e.tokens ++ rest).head? ≠ some (.sign "=>") := by
  cases needed with
  | true => simp [parenTokensIf, parenTokens]
  | false =>
    obtain ⟨t, ts, shape, opens⟩ := h
    rw [parenTokensIf, if_neg (by decide), shape]
    intro same
    obtain rfl : t = .sign "=>" := by simpa using same
    exact absurd (opens.sign "=>" rfl) (by decide)

theorem operatorToken_ne_arrow : ∀ op ∈ binaryOperators ++ logicalOperators,
    operatorToken op ≠ .sign "=>" := by
  decide

/-- A left operand does not look like an arrow function, for an operator follows. -/
theorem startsArrow_infixed {l : Expr} {op : String} {extra : Bool} {rest : List Token}
    (known : op ∈ binaryOperators ++ logicalOperators) (balanced : Balanced l.tokens)
    (h : ∀ rest, arrowStrength < l.strength → rest.head? ≠ some (.sign "=>") →
      startsArrow (l.tokens ++ rest) = false) :
    startsArrow (parenTokensIf (extra || l.needsParens op .left) l.tokens ++
      operatorToken op :: rest) = false := by
  have next : (operatorToken op :: rest).head? ≠ some (.sign "=>") := by
    simpa using operatorToken_ne_arrow op known
  refine startsArrow_parensIf balanced next fun bare => h _ ?_ next
  -- An arrow function would stand in parentheses here.
  have strong := Expr.le_strength_of_needsParens (Bool.or_eq_false_iff.mp bare).2
  rw [(bindingStrength?_infixed op known).1, Option.getD_some] at strong
  rw [arrowStrength]
  omega

theorem startsArrow_before {e : Expr} {point : Bool} {more : List Token} (legible : e.Legible names)
    (h : ∀ rest, arrowStrength < e.strength → rest.head? ≠ some (.sign "=>") →
      startsArrow (e.tokens ++ rest) = false) (next : more.head? ≠ some (.sign "=>")) :
    startsArrow (parenTokensIf (e.needsParensBefore point) e.tokens ++ more) = false :=
  startsArrow_parensIf legible.balanced next fun bare =>
    h _ (Nat.lt_of_lt_of_le (by decide) (le_strength_of_needsParensBefore bare)) next

/-- What binds more tightly than an arrow does not look like one. -/
theorem Expr.Legible.startsArrow_tokens {e : Expr} (legible : e.Legible names) (rest : List Token)
    (strong : arrowStrength < e.strength) (next : rest.head? ≠ some (.sign "=>")) :
    startsArrow (e.tokens ++ rest) = false := by
  induction legible generalizing rest with
  | ident | undefined => simpa [Expr.tokens, startsArrow] using next
  | @lit v =>
    cases v with
    | null | bool => simpa [Expr.tokens, scalarTokens, startsArrow] using next
    | text => rfl
    | int | double =>
      show startsArrow (numberTokens _ _ ++ rest) = false
      unfold numberTokens
      split <;> rfl
  | array | object | new => simp [Expr.tokens, startsArrow]
  | property optional object _ ih | index optional object _ ih =>
    rw [Expr.tokens, append_assoc]
    exact startsArrow_before object ih (by cases optional <;> simp)
  | call callee _ ih =>
    rw [Expr.tokens, append_assoc]
    exact startsArrow_before callee ih (by simp [parenTokens])
  | @unary op e known operand =>
    rw [Expr.tokens, cons_append]
    -- The operand starts with a token that opens it, so no arrow comes behind a word like `typeof`.
    have next := head?_append_of_hasHead operand.hasHead ((op == "-" || op == "+") &&
      e.startsWithSign op || e.needsParens (unaryKey op) .only) rest
    generalize parenTokensIf _ e.tokens ++ rest = more at next ⊢
    fin_cases known <;> simp [operatorToken, startsArrow, next]
  | binary known left _ ih | logical known left _ ih =>
    rw [Expr.tokens, append_assoc, cons_append]
    exact startsArrow_infixed (by simp [known]) left.balanced ih
  | @ternary c _ _ test _ _ ih =>
    rw [Expr.tokens, append_assoc, append_assoc]
    refine startsArrow_parensIf test.balanced (by simp) fun bare => ?_
    have strong : conditionalStrength < c.strength := by simpa using bare
    exact ih _ (Nat.lt_trans (by decide) strong) (by simp)
  | arrow => simp [Expr.strength] at strong

end JexlScript.Script
