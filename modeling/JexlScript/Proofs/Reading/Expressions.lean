import Mathlib.Data.List.Forall2
import JexlScript.Proofs.Reading.Levels

/-!
# Reading printed expressions

Every form of expression is read back from its tokens. Operands are read at the
levels that their operators ask for, since the printer puts the weaker ones in
parentheses, and those of the same level on the side that the operator does not
group to; elements, properties and parameters are read one after another.
-/

namespace JexlScript.Script

open List hiding head
open Reading

variable {names : NameClass}
variable {tss : List (List Token)} {es : List Expr} {e : Expr} {ps : List (String × Expr)}
  {s : String} {ts : List Token}

/-! ## Strengths -/

/-- A legible expression is primary, unary, infixed on one of eleven levels, or weaker than all
these. -/
theorem Expr.strength_cases (legible : e.Legible names) :
    e.strength = primaryStrength ∨ e.strength = unaryStrength ∨
      (e.isInfixed = true ∧ 6 ≤ e.strength ∧ e.strength ≤ 16) ∨
        e.strength ≤ conditionalStrength := by
  cases legible with
  | ident | undefined | array | object | property | index | call | new => exact Or.inl rfl
  | lit =>
    rw [Expr.strength]
    split
    · exact Or.inr (Or.inl rfl)
    · exact Or.inl rfl
  | unary known => exact Or.inr (Or.inl (strength_unary _ known))
  | @binary l r op known | @logical l r op known =>
    obtain ⟨binary, logical, most⟩ := strength_infixed l op r (by simp [known])
    exact Or.inr (Or.inr (Or.inl ⟨rfl, by omega, by omega⟩))
  | ternary => exact Or.inr (Or.inr (Or.inr (Nat.le_refl _)))
  | arrow => exact Or.inr (Or.inr (Or.inr (by simp [Expr.strength, arrowStrength,
      conditionalStrength])))

/-- On the side that an operator does not group to, an operand without parentheses binds more
tightly. -/
theorem Expr.lt_strength_of_needsParens {op : String} {side : Side}
    (legible : e.Legible names) (known : op ∈ binaryOperators ++ logicalOperators)
    (grouping : side = if groupsRight op then .left else .right)
    (h : e.needsParens op side = false) : operatorLevel op + 6 < e.strength := by
  obtain ⟨outer, most⟩ := bindingStrength?_infixed op known
  have le := Expr.le_strength_of_needsParens h
  rw [outer, Option.getD_some] at le
  rcases Nat.lt_or_eq_of_le le with lt | same
  · exact lt
  · -- At this strength only an operator between two operands is left.
    have isInfixed : e.isInfixed = true := by
      rcases Expr.strength_cases legible with s | s | ⟨yes, _⟩ | s
      · rw [s, primaryStrength] at same
        omega
      · rw [s, unaryStrength] at same
        omega
      · exact yes
      · rw [conditionalStrength] at s
        omega
    have parens : e.needsParens op side = true := by
      cases e with
      | binary | logical =>
        simp [Expr.needsParens, outer, ← same, Expr.isInfixed, grouping]
      | _ => exact absurd isInfixed (by simp [Expr.isInfixed])
    exact absurd (parens.symm.trans h) (by decide)

/-! ## Powers -/

/-- The base of a power is primary and its exponent another power or tighter. -/
theorem reads_power {l r : Expr} {left right : Bool} (legible : l.Legible names) (hl : l.Reads)
    (hr : r.Reads) (bareLeft : left = false → primaryStrength ≤ l.strength)
    (bareRight : right = false → 16 ≤ r.strength) :
    ReadsLevel 10 (parenTokensIf left l.tokens ++ .sign "**" :: parenTokensIf right r.tokens)
      (.binary l.asRead "**" r.asRead) := by
  intro rest quiet
  -- The base is read up to the operator, the exponent up to the end.
  have base := hl.unary_operand (fun h => Nat.le_trans (by decide) (bareLeft h))
    (.sign "**" :: (parenTokensIf right r.tokens ++ rest)) (by
      intro t ht
      obtain rfl : .sign "**" = t := by simpa using ht
      decide)
  have exponent := hr.level_operand (Nat.le_refl 10) bareRight rest quiet
  rw [Reading.level, if_neg (by decide), if_neg (by decide)] at exponent
  -- A base without parentheses is primary, and so starts with no unary operator.
  have noUnary : ∀ more : List Token,
      ((parenTokensIf left l.tokens ++ more).head?.bind unaryOperator?).isSome = false := by
    intro more
    cases left with
    | true => rfl
    | false =>
      obtain ⟨t, ts, shape, opens⟩ := legible.hasHead
      simp [parenTokensIf, shape, opens.bare (bareLeft rfl)]
  rw [Reading.level, if_neg (by decide), if_neg (by decide), append_assoc,
    cons_append, exponential, base]
  simp only [Option.bind_eq_bind, Option.bind_some, expect_self, noUnary, Bool.false_eq_true,
    if_false, exponent]

/-! ## Lists -/

/-- Between items stand commas, none before the first. -/
theorem commaTokens_cons (ts : List Token) (tss : List (List Token)) :
    commaTokens (ts :: tss) = ts ++ tss.flatMap (.sign "," :: ·) := by
  induction tss generalizing ts with
  | nil => simp [commaTokens]
  | cons us tss ih => simp [commaTokens, ih]

theorem ends_flatMap {α : Type} (f : α → List Token) (items : List α)
    (rest : List Token) (close : s ∈ [")", "]", "\x7d"]) :
    Ends (items.flatMap (fun x => .sign "," :: f x) ++ .sign s :: rest) := by
  cases items with
  | nil => exact ends_sign rest (by fin_cases close <;> decide)
  | cons x items => exact ends_sign _ (by decide)

/-- Tokens that start with none that closes. -/
def StartsInside (ts : List Token) : Prop :=
  ∃ t us, ts = t :: us ∧ t ∉ [")", "]", "\x7d"].map Token.sign

theorem StartsInside.head?_ne (h : StartsInside ts)
    (rest : List Token) (close : s ∈ [")", "]", "\x7d"]) :
    (ts ++ rest).head? ≠ some (.sign s) := by
  obtain ⟨t, us, rfl, inside⟩ := h
  intro same
  obtain rfl : t = .sign s := by simpa using same
  exact inside (mem_map_of_mem close)

/-- No expression starts with a closing bracket. -/
theorem Expr.HasHead.startsInside (h : e.HasHead) : StartsInside e.tokens := by
  obtain ⟨t, ts, shape, opens⟩ := h
  refine ⟨t, ts, shape, fun close => ?_⟩
  obtain ⟨s, close, rfl⟩ := mem_map.mp close
  have sign := opens.sign s rfl
  fin_cases close <;> exact absurd sign (by decide)

theorem moreElements_tokens
    (rest : List Token) (known : s ∈ [")", "]"]) (h : List.Forall₂ ReadsWhole tss es) :
    moreElements s (tss.flatMap (.sign "," :: ·) ++ .sign s :: rest) = some (es, rest) := by
  have closes : s ∈ [")", "]", "\x7d"] := by fin_cases known <;> decide
  induction h with
  | nil =>
    rw [moreElements]
    simp [expect_self]
  | @cons ts e tss es first more ih =>
    have comma : s ≠ "," := by fin_cases known <;> decide
    have first := first _ (ends_flatMap id tss rest closes)
    rw [moreElements, flatMap_cons, append_assoc, cons_append, expect_eq_none (by
      simpa using comma.symm)]
    simp only [id] at first
    simp [expect_self, first, ih]

/-- A list of elements is read up to its closing bracket. -/
theorem elements_tokens
    (rest : List Token) (known : s ∈ [")", "]"]) (inside : ∀ ts ∈ tss, StartsInside ts)
    (h : List.Forall₂ ReadsWhole tss es) :
    elements s (commaTokens tss ++ .sign s :: rest) = some (es, rest) := by
  have closes : s ∈ [")", "]", "\x7d"] := by fin_cases known <;> decide
  cases h with
  | nil =>
    rw [elements]
    simp [commaTokens, expect_self]
  | @cons ts e tss es first more =>
    have first := first _ (ends_flatMap id tss rest closes)
    have more := moreElements_tokens rest known more
    have open' := (inside ts (by simp)).head?_ne
      (tss.flatMap (.sign "," :: ·) ++ .sign s :: rest) closes
    rw [commaTokens_cons, append_assoc, elements, expect_eq_none open']
    simp only [id] at first
    simp [first, more]

theorem exprs_readWhole (h : ∀ e ∈ es, e.Reads) :
    List.Forall₂ ReadsWhole (exprsTokens es) (exprsAsRead es) := by
  induction es with
  | nil => exact .nil
  | cons e es ih =>
    obtain ⟨first, more⟩ := forall_mem_cons.mp h
    exact .cons first.whole (ih more)

theorem exprs_startInside (h : ∀ e ∈ es, e.HasHead) :
    ∀ ts ∈ exprsTokens es, StartsInside ts := by
  intro ts member
  rw [exprsTokens_eq_map] at member
  obtain ⟨e, among, rfl⟩ := mem_map.mp member
  exact (h e among).startsInside

/-- The elements of a list are read back. -/
theorem elements_read (rest : List Token)
    (known : s ∈ [")", "]"]) (legible : ∀ e ∈ es, e.HasHead) (h : ∀ e ∈ es, e.Reads) :
    elements s (commaTokens (exprsTokens es) ++ .sign s :: rest) =
      some (exprsAsRead es, rest) :=
  elements_tokens rest known (exprs_startInside legible) (exprs_readWhole h)

/-- Tokens of a property: its key as a name or a string, a colon and the value. -/
def ReadsProperty (ts : List Token) (p : String × Expr) : Prop :=
  ∃ key us, ts = key :: .sign ":" :: us ∧ (key = .word p.1 ∨ key = .string p.1) ∧
    ReadsWhole us p.2

theorem ReadsProperty.propertyKey {p : String × Expr} (h : ReadsProperty ts p) :
    ∃ us, ReadsWhole us p.2 ∧ ∀ rest,
      Reading.propertyKey (ts ++ rest) = some (p.1, .sign ":" :: us ++ rest) ∧
        expect "\x7d" (ts ++ rest) = none := by
  obtain ⟨key, us, rfl, is | is, reads⟩ := h <;>
    exact ⟨us, reads, fun rest => by subst is; exact ⟨rfl, rfl⟩⟩

theorem moreProperties_tokens (rest : List Token) (h : List.Forall₂ ReadsProperty tss ps) :
    moreProperties (tss.flatMap (.sign "," :: ·) ++ .sign "\x7d" :: rest) = some (ps, rest) := by
  induction h with
  | nil =>
    rw [moreProperties]
    simp [expect_self]
  | @cons ts p tss ps first more ih =>
    obtain ⟨us, value, key⟩ := first.propertyKey
    have value := value _ (ends_flatMap id tss rest (by decide : "\x7d" ∈ _))
    simp only [id] at value
    rw [moreProperties, flatMap_cons, append_assoc, cons_append,
      expect_eq_none (by simp)]
    simp [expect_self, key, value, ih]

theorem properties_tokens (rest : List Token) (h : List.Forall₂ ReadsProperty tss ps) :
    properties (commaTokens tss ++ .sign "\x7d" :: rest) = some (ps, rest) := by
  cases h with
  | nil =>
    rw [properties]
    simp [commaTokens, expect_self]
  | @cons ts p tss ps first more =>
    obtain ⟨us, value, key⟩ := first.propertyKey
    have value := value _ (ends_flatMap id tss rest (by decide : "\x7d" ∈ _))
    simp only [id] at value
    rw [commaTokens_cons, append_assoc, properties, (key _).2]
    simp [expect_self, key, value, moreProperties_tokens rest more]

/-- The properties of an object are read back. -/
theorem properties_read (rest : List Token) (h : ∀ p ∈ ps, p.2.Reads) :
    properties (commaTokens (propsTokens ps) ++ .sign "\x7d" :: rest) =
      some (propsAsRead ps, rest) := by
  refine properties_tokens rest ?_
  induction ps with
  | nil => exact .nil
  | cons p ps ih =>
    obtain ⟨first, more⟩ := forall_mem_cons.mp h
    exact .cons ⟨_, _, rfl, .inl rfl, first.whole⟩ (ih more)

/-! ## Parameters -/

/-- An identifier is no reserved word. -/
theorem not_reserved {n : String} (h : names.isIdentifier n = true) : n ∉ reservedWords := by
  simpa [NameClass.isIdentifier] using (Bool.and_eq_true_iff.mp h).2

theorem moreBindings_read {ns : List String} (rest : List Token)
    (h : ∀ n ∈ ns, names.isIdentifier n = true) :
    moreBindings (ns.flatMap (fun n => [Token.sign ",", Token.word n]) ++
      Token.sign "\x7d" :: rest) = some (ns, rest) := by
  induction ns with
  | nil =>
    cases rest with
    | nil => rfl
    | cons t ts => cases t <;> simp [moreBindings]
  | cons n ns ih =>
    have free := not_reserved (h n (by simp))
    rw [flatMap_cons]
    simp [moreBindings, free, ih fun x hx => h x (mem_cons_of_mem _ hx)]

/-- A legible parameter is read back. -/
theorem parameter_read {p : Param} (rest : List Token) (legible : p.isLegible names = true) :
    parameter (p.tokens ++ rest) = some (p, rest) := by
  cases p with
  | name n =>
    have free := not_reserved legible
    simp [parameter, Param.tokens, expect, binding, free]
  | pattern ns =>
    have each : ∀ n ∈ ns, names.isIdentifier n = true := all_eq_true.mp legible
    have read : bindings (commaTokens (ns.map fun n => [.word n]) ++ .sign "\x7d" :: rest) =
        some (ns, rest) := by
      cases ns with
      | nil => simp [bindings, commaTokens, expect_self]
      | cons n ns =>
        have free := not_reserved (each n (by simp))
        have more := moreBindings_read rest fun x hx => each x (mem_cons_of_mem n hx)
        rw [map_cons, commaTokens_cons, flatMap_map]
        simp [bindings, expect, binding, free, more]
    rw [Param.tokens, append_assoc, cons_append, parameter, expect_self]
    simp [read]

theorem moreParameters_read {ps : List Param} (rest : List Token)
    (h : ∀ p ∈ ps, p.isLegible names = true) :
    moreParameters (ps.flatMap (fun p => .sign "," :: p.tokens) ++ .sign ")" :: rest) =
      some (ps, rest) := by
  induction ps with
  | nil =>
    rw [moreParameters]
    simp [expect_self]
  | cons p ps ih =>
    rw [moreParameters, flatMap_cons, append_assoc, cons_append,
      expect_eq_none (by simp)]
    simp [expect_self, parameter_read _ (h p (by simp)),
      ih fun x hx => h x (mem_cons_of_mem _ hx)]

/-- Legible parameters are read back up to the arrow. -/
theorem parameters_read {ps : List Param} (rest : List Token)
    (legible : ps.all (·.isLegible names) = true) :
    parameters (paramsTokens ps ++ .sign "=>" :: rest) = some (ps, rest) := by
  have each := all_eq_true.mp legible
  rw [paramsTokens, parenTokens, append_assoc, cons_append, parameters, expect_self]
  cases ps with
  | nil => simp [commaTokens, expect_self]
  | cons p ps =>
    have more := moreParameters_read (.sign "=>" :: rest) fun x hx =>
      each x (mem_cons_of_mem p hx)
    have close : (p.tokens ++ (ps.flatMap (fun p => .sign "," :: p.tokens) ++
        .sign ")" :: .sign "=>" :: rest)).head? ≠ some (.sign ")") := by
      cases p <;> simp [Param.tokens]
    rw [map_cons, commaTokens_cons, flatMap_map, append_assoc]
    simp only [singleton_append, expect_eq_none close]
    simp [parameter_read _ (each p (by simp)), more, expect_self]

/-! ## Members and arguments -/

/-- A primary with a suffix behind it is primary. -/
theorem ReadsPrimary.suffix {ts us : List Token} {e e' : Expr} (h : ReadsPrimary ts e)
    (step : ∀ rest, suffixes e (us ++ rest) = suffixes e' rest) : ReadsPrimary (ts ++ us) e' := by
  intro rest
  rw [append_assoc, h, step]

theorem suffixes_member (e : Expr) (n : String) (optional : Bool) (rest : List Token) :
    suffixes e ((if optional then [Token.sign "?."] else [Token.sign "."]) ++
      [Token.word n] ++ rest) = suffixes (.member e (.ident n) false optional) rest := by
  cases optional with
  | false =>
    rw [suffixes.eq_def]
    simp [memberName]
  | true =>
    rw [suffixes.eq_def]
    simp [memberName, expect]

theorem suffixes_index {p : Expr} (e : Expr) (optional : Bool) (rest : List Token)
    (h : ReadsWhole ts p) :
    suffixes e ((if optional then [Token.sign "?.", Token.sign "["] else [Token.sign "["]) ++
      ts ++ [Token.sign "]"] ++ rest) = suffixes (.member e p true optional) rest := by
  have inner := h (.sign "]" :: rest) (ends_sign rest (by decide))
  cases optional with
  | false =>
    rw [suffixes.eq_def]
    simp [inner, expect_self]
  | true =>
    rw [suffixes.eq_def]
    simp [inner, expect_self]

/-- Arguments in parentheses make a call. -/
theorem suffixes_call {args : List Expr} (e : Expr) (rest : List Token)
    (inside : ∀ ts ∈ tss, StartsInside ts) (h : List.Forall₂ ReadsWhole tss args) :
    suffixes e (parenTokens (commaTokens tss) ++ rest) = suffixes (.call e args) rest := by
  have inner := elements_tokens (s := ")") rest (by decide) inside h
  rw [parenTokens, suffixes.eq_def]
  simp [inner]

/-! ## Conditionals and arrow functions -/

/-- A test that binds no more tightly than a conditional is in parentheses; the branches end at
their signs. -/
theorem reads_ternary {c y n : Expr} (legible : (Expr.ternary c y n).Legible names) (hc : c.Reads)
    (hy : y.Reads) (hn : n.Reads) :
    ReadsWhole (Expr.ternary c y n).tokens (Expr.ternary c y n).asRead := by
  intro rest ends
  have arrow := legible.startsArrow_tokens rest
    (by simp [Expr.strength, arrowStrength, conditionalStrength]) ends.head?_ne_arrow
  have tested : c.Legible names := by
    cases legible
    assumption
  -- A bare test binds more tightly than a conditional, so it is read on the level of operators.
  have bare : decide (c.strength ≤ conditionalStrength) = false → 0 + 6 ≤ c.strength := by
    intro strong
    have strong : conditionalStrength < c.strength := by simpa using strong
    rw [conditionalStrength] at strong
    rcases Expr.strength_cases tested with s | s | ⟨_, s, _⟩ | s
    · rw [s, primaryStrength]
      omega
    · rw [s, unaryStrength]
      omega
    · exact s
    · rw [conditionalStrength] at s
      omega
  -- The question mark is no operator and ends the test.
  have question : ∀ op l, operator? (.sign "?") ≠ some (op, l) := by
    intro op l
    simp [show operator? (.sign "?") = none by decide]
  have test := hc.level_operand (Nat.zero_le 10) bare
    (.sign "?" :: (y.tokens ++ .sign ":" :: (n.tokens ++ rest))) (by
      intro t ht
      obtain rfl : .sign "?" = t := by simpa using ht
      exact ⟨by decide, by decide, fun op l known => absurd known (question op l)⟩)
  rw [if_pos (by decide), operands_stop _ (by
    intro t ht op l known
    obtain rfl : .sign "?" = t := by simpa using ht
    exact absurd known (question op l))] at test
  have yes := hy.whole (.sign ":" :: (n.tokens ++ rest)) (ends_sign _ (by decide))
  have no := hn.whole rest ends
  rw [assignment, arrow, Expr.tokens]
  simp [test, expect_self, yes, no, Expr.asRead]

theorem Expr.Reads.whole_operand (needed : Bool) (legible : e.Legible names) (h : e.Reads) :
    ReadsWhole (parenTokensIf needed e.tokens) e.asRead := by
  cases needed with
  | false => exact h.whole
  | true =>
    have level := (h.whole.parens.unary (parens_head _)).level.mono (Nat.zero_le 10)
      (Nat.le_refl 10)
    refine level.whole fun rest ends => ?_
    show startsArrow (parenTokensIf true e.tokens ++ rest) = false
    exact startsArrow_parensIf (legible.balanced) ends.head?_ne_arrow
      fun no => absurd no (by decide)

/-- Parameters are told from an operand in parentheses by the arrow behind them. -/
theorem startsArrow_paramsTokens (ps : List Param) (rest : List Token) :
    startsArrow (paramsTokens ps ++ .sign "=>" :: rest) = true := by
  have closed : afterClose 0 (commaTokens (ps.map Param.tokens) ++ .sign ")" :: .sign "=>" ::
      rest) = .sign "=>" :: rest := by
    rw [balanced_paramsTokens]
    exact (afterClose_close (by decide) 0 _).1
  simp [paramsTokens, parenTokens, startsArrow, closed]

/-- An arrow reads back unless its body would start a block. -/
theorem reads_arrow {ps : List Param} {body : Expr} (params : ps.all (·.isLegible names) = true)
    (legible : body.Legible names) (brace : (body.isObject || !body.leftmost.isObject) = true)
    (h : body.Reads) :
    ReadsWhole (Expr.arrow ps body).tokens (Expr.arrow ps body).asRead := by
  intro rest ends
  have noBlock : (parenTokensIf body.isObject body.tokens ++ rest).head? ≠
      some (.sign "\x7b") := by
    cases object : body.isObject with
    | true => simp [parenTokensIf, parenTokens]
    | false =>
      obtain ⟨t, ts, shape, opens⟩ := legible.hasHead
      rw [parenTokensIf, if_neg (by decide), shape]
      intro same
      have leftmost := opens.brace (by simpa using same)
      rw [object, leftmost] at brace
      exact absurd brace (by decide)
  have inner := h.whole_operand body.isObject legible rest ends
  rw [Expr.tokens, append_assoc, cons_append, assignment, startsArrow_paramsTokens,
    parameters_read _ params]
  simp only [if_true, Option.bind_eq_bind, Option.bind_some, noBlock, if_false, inner]
  rfl

/-! ## All expressions -/

theorem reads_word {n : String} {e' : Expr} (h : ∀ rest, head (.word n :: rest) = some (e', rest))
    (tokens : e.tokens = [.word n]) :
    ReadsPrimary e.tokens e' := by
  intro rest
  rw [tokens, leftHandSide, singleton_append, h]
  rfl

/-- A name that is not reserved is read as itself. -/
theorem head_ident {n : String} (free : n ∉ reservedWords) (rest : List Token) :
    head (.word n :: rest) = some (.ident n, rest) := by
  have other : n ≠ "new" ∧ n ≠ "null" ∧ n ≠ "true" ∧ n ≠ "false" := by
    refine ⟨?_, ?_, ?_, ?_⟩ <;> rintro rfl <;> exact free (by decide)
  rw [Reading.head.eq_def]
  simp [other, free]

theorem reads_number (d : Double) : ReadsPrimary [.number d] (.lit (.double d)) := by
  intro rest
  rw [leftHandSide, singleton_append, Reading.head.eq_def]
  rfl

theorem reads_numberTokens (negative : Bool) (d : Double) :
    ReadsUnary (numberTokens negative d)
      (if negative then .unary "-" (.lit (.double d)) else .lit (.double d)) := by
  have plain := (reads_number d).unary ⟨_, [], rfl, rfl⟩
  cases negative with
  | false => exact plain
  | true =>
    intro rest stop
    have inner := plain rest stop
    rw [numberTokens, if_pos rfl, if_pos rfl, cons_append, Reading.unary,
      show unaryOperator? (.sign "-") = some "-" by decide]
    simp only [Option.bind_eq_bind, inner, Option.bind_some]

/-- An exact literal is read back, as a minus and a positive one if it is negative. -/
theorem reads_lit {v : Scalar} (exact : isExact v = true) : (Expr.lit v).Reads := by
  have legible : (Expr.lit v).Legible .ascii := .lit exact
  by_cases number : v.isNumber = true
  · have tokens : (Expr.lit v).tokens = numberTokens (hasMinus v) (absolute v) := by
      cases v with
      | int | double => rfl
      | null | bool | text => simp [Scalar.isNumber] at number
    have unary : ReadsUnary (Expr.lit v).tokens (Expr.lit v).asRead := by
      rw [tokens, Expr.asRead, scalarAsRead, if_pos number]
      exact reads_numberTokens _ _
    cases negative : v.isNegative with
    | true => exact Expr.reads_of_unary legible (by simp [Expr.strength, negative]) unary
    | false =>
      -- Only a number without a minus may stand before a member.
      have minus : hasMinus v = false := by
        by_contra minus
        have := isNegative_of_hasMinus exact (Bool.of_not_eq_false minus)
        exact absurd (negative.symm.trans this) (by decide)
      refine Expr.reads_of_primary legible (by simp [Expr.strength, negative]) ?_
      rw [tokens, Expr.asRead, scalarAsRead, if_pos number, minus]
      exact reads_number _
  · cases v with
    | null => exact Expr.reads_of_primary legible rfl (reads_word (fun rest => by
      rw [Reading.head.eq_def]; simp [Expr.asRead, scalarAsRead, Scalar.isNumber]) rfl)
    | bool b =>
      cases b <;> exact Expr.reads_of_primary legible rfl (reads_word (fun rest => by
        rw [Reading.head.eq_def]; simp [Expr.asRead, scalarAsRead, Scalar.isNumber]) rfl)
    | text s =>
      refine Expr.reads_of_primary legible rfl fun rest => ?_
      rw [Expr.tokens, scalarTokens, leftHandSide, singleton_append, Reading.head.eq_def]
      simp [Expr.asRead, scalarAsRead, Scalar.isNumber]
    | int | double => exact absurd rfl number

theorem unaryOperator?_operatorToken : ∀ op ∈ unaryOperators,
    unaryOperator? (operatorToken op) = some op ∧
      (bindingStrength? (unaryKey op)).getD unaryStrength = unaryStrength := by
  decide

/-- A left operand without parentheses binds at least as tightly as the operator. -/
theorem bare_left {l : Expr} {op : String} {extra : Bool}
    (known : op ∈ binaryOperators ++ logicalOperators) :
    (extra || l.needsParens op .left) = false → operatorLevel op + 6 ≤ l.strength := by
  intro bare
  have strong := Expr.le_strength_of_needsParens (Bool.or_eq_false_iff.mp bare).2
  rwa [(bindingStrength?_infixed op known).1, Option.getD_some] at strong

/-- A right operand without parentheses binds more tightly than the operator. -/
theorem bare_right {r : Expr} {op : String} (legible : r.Legible names)
    (known : op ∈ binaryOperators ++ logicalOperators) (power : op ≠ "**") :
    r.needsParens op .right = false → operatorLevel op + 7 ≤ r.strength := by
  intro bare
  exact Expr.lt_strength_of_needsParens legible known (by simp [groupsRight, power]) bare

/-- A base without parentheses is primary. -/
theorem bare_base {l : Expr} (legible : l.Legible names) :
    (("**" == "**") && l.strength == unaryStrength || l.needsParens "**" .left) = false →
      primaryStrength ≤ l.strength := by
  intro bare
  obtain ⟨notUnary, parens⟩ := Bool.or_eq_false_iff.mp bare
  have strong := Expr.lt_strength_of_needsParens legible (by decide) (by decide) parens
  rcases Expr.strength_cases legible with s | s | ⟨_, _, s⟩ | s
  · exact Nat.le_of_eq s.symm
  · rw [s] at notUnary
    exact absurd notUnary (by decide)
  · rw [show operatorLevel "**" = 10 by decide] at strong
    omega
  · rw [show operatorLevel "**" = 10 by decide] at strong
    rw [conditionalStrength] at s
    omega

theorem bare_exponent {r : Expr} :
    r.needsParens "**" .right = false → 16 ≤ r.strength :=
  fun bare => Expr.le_strength_of_needsParens bare

theorem Expr.reads_of_whole (weak : e.strength ≤ conditionalStrength)
    (h : ReadsWhole e.tokens e.asRead) : e.Reads where
  primary strong := absurd (Nat.le_trans strong weak) (by decide)
  unary strong := absurd (Nat.le_trans strong weak) (by decide)
  level n _ strong := by
    rw [conditionalStrength] at weak
    omega
  whole := h

/-- Every legible expression is read back from its tokens, by induction over its form. -/
theorem Expr.Legible.reads (legible : e.Legible names) : e.Reads := by
  induction legible with
  | ident name =>
    refine Expr.reads_of_primary (.ident name) rfl (reads_word ?_ rfl)
    exact head_ident (not_reserved name)
  | lit h => exact reads_lit h
  | undefined =>
    have whole : Expr.undefined.Legible names := .undefined
    exact Expr.reads_of_primary whole rfl (reads_word (head_ident (by decide)) rfl)
  | array all ih =>
    refine Expr.reads_of_primary (.array all) rfl fun rest => ?_
    have inner := elements_read (s := "]") rest (by decide) (fun e h => (all e h).hasHead) ih
    rw [Expr.tokens, leftHandSide, append_assoc, cons_append, Reading.head.eq_def]
    simp [inner, Expr.asRead]
  | object keys all ih =>
    refine Expr.reads_of_primary (.object keys all) rfl fun rest => ?_
    have inner := properties_read rest ih
    rw [Expr.tokens, leftHandSide, append_assoc, cons_append, Reading.head.eq_def]
    simp [inner, Expr.asRead]
  | property optional object name ih =>
    refine Expr.reads_of_primary (.property optional object name) rfl ?_
    rw [Expr.tokens, Expr.asRead]
    exact ReadsPrimary.suffix (ih.primary_operand le_strength_of_needsParensBefore)
      fun rest => suffixes_member _ _ optional rest
  | index optional object key ih ihKey =>
    refine Expr.reads_of_primary (.index optional object key) rfl ?_
    rw [Expr.tokens, Expr.asRead]
    exact ReadsPrimary.suffix (ih.primary_operand le_strength_of_needsParensBefore)
      fun rest => suffixes_index _ optional rest ihKey.whole
  | call callee all ih ihArgs =>
    refine Expr.reads_of_primary (.call callee all) rfl ?_
    rw [Expr.tokens, Expr.asRead]
    refine ReadsPrimary.suffix (ih.primary_operand le_strength_of_needsParensBefore)
      fun rest => ?_
    exact suffixes_call _ rest (exprs_startInside fun e h => (all e h).hasHead)
      (exprs_readWhole ihArgs)
  | @new n args name all ih =>
    refine Expr.reads_of_primary (.new name all) rfl fun rest => ?_
    have inner := elements_read (s := ")") rest (by decide) (fun e h => (all e h).hasHead) ih
    -- A name in front of its arguments has no members to be read.
    have stop : ∀ more, members (.ident n) (.sign "(" :: more) =
        some (.ident n, .sign "(" :: more) := by
      intro more
      rw [members.eq_def]
      simp
    rw [Expr.tokens, Expr.tokens, parenTokens, leftHandSide]
    simp only [cons_append, nil_append, append_assoc]
    rw [Reading.head.eq_def]
    simp [head_ident (not_reserved name), stop, expect_self, inner, Expr.asRead]
  | @unary op e known legible ih =>
    refine Expr.reads_of_unary (.unary known legible) (strength_unary e known) fun rest stop => ?_
    obtain ⟨operator, strength⟩ := unaryOperator?_operatorToken op known
    -- An operand without parentheses binds as tightly as a unary operator, a second sign or not.
    have strong : ∀ extra, (extra || e.needsParens (unaryKey op) .only) = false →
        unaryStrength ≤ e.strength := by
      intro extra bare
      have le := Expr.le_strength_of_needsParens (Bool.or_eq_false_iff.mp bare).2
      rwa [strength] at le
    have operand := ih.unary_operand (strong ((op == "-" || op == "+") &&
      e.startsWithSign op)) rest stop
    rw [Expr.tokens, cons_append, Reading.unary, operator]
    simp only [Option.bind_eq_bind, operand, Option.bind_some, Expr.asRead]
  | @binary l r op isBinary left right ihLeft ihRight =>
    have known : op ∈ binaryOperators ++ logicalOperators := mem_append_left _ isBinary
    obtain ⟨strength, _, most⟩ := strength_infixed l op r known
    refine Expr.reads_of_level (.binary isBinary left right) most strength ?_
    -- Powers group from the right, and all other operators from the left.
    by_cases power : op = "**"
    · subst power
      exact reads_power left ihLeft ihRight (bare_base left) bare_exponent
    · have form : infixed l.asRead op r.asRead = .binary l.asRead op r.asRead := by
        rw [infixed, if_neg]
        rintro (rfl | rfl) <;> exact absurd isBinary (by decide)
      rw [Expr.tokens, Expr.asRead, ← form]
      exact reads_infixed known power ihLeft ihRight (bare_left known)
        (bare_right right known power)
  | @logical l r op isLogical left right ihLeft ihRight =>
    have known : op ∈ binaryOperators ++ logicalOperators := mem_append_right _ isLogical
    obtain ⟨_, strength, most⟩ := strength_infixed l op r known
    have power : op ≠ "**" := by
      rintro rfl
      exact absurd isLogical (by decide)
    refine Expr.reads_of_level (.logical isLogical left right) most strength ?_
    have form : infixed l.asRead op r.asRead = .logical l.asRead op r.asRead := by
      rw [infixed, if_pos (by fin_cases isLogical <;> decide)]
    rw [Expr.tokens, Expr.asRead, ← form]
    exact reads_infixed known power ihLeft ihRight (bare_left known) (bare_right right known power)
  | ternary test yes no ihTest ihYes ihNo =>
    exact Expr.reads_of_whole (Nat.le_refl _)
      (reads_ternary (.ternary test yes no) ihTest ihYes ihNo)
  | arrow params result brace ih =>
    exact Expr.reads_of_whole (by simp [Expr.strength, arrowStrength, conditionalStrength])
      (reads_arrow params result brace ih)

end JexlScript.Script
