import JexlScript.Proofs.Reading.PrintedTokens

/-!
# Texts that start with a brace

Behind an arrow and at the start of a statement a brace opens a block. The printer puts an
object literal into parentheses there if it is the whole expression, and looks no further.
`Expr.head?_text` says of every expression whether its text starts with a brace: the way
goes down from left operand to left operand until a parenthesis is written, and ends at an
object literal. `opensBlock_iff` draws from it which arrows and statements are printed with
a brace where a block is read.
-/

namespace JexlScript.Script

open List Reading

/-- The part of an expression that its text starts with: what is reached through objects of
members, callees, left operands and tests, as far as no parenthesis is written. -/
def Expr.front : Expr → Expr
  | .member obj prop computed optional =>
    if obj.needsParensBefore !computed then .member obj prop computed optional else obj.front
  | .call f args => if f.needsParensBefore false then .call f args else f.front
  | .unary op e => if op = "" ∧ e.needsParens op .only = false then e.front else .unary op e
  | .binary l op r =>
    if op == "**" && l.strength == unaryStrength || l.needsParens op .left then .binary l op r
    else l.front
  | .logical l op r =>
    if op == "**" && l.strength == unaryStrength || l.needsParens op .left then .logical l op r
    else l.front
  | .ternary c y n => if c.strength ≤ conditionalStrength then .ternary c y n else c.front
  | e => e

/-- Whether an expression that is not printed in parentheses starts with a brace itself. -/
def Expr.isBraced : Expr → Bool
  | .object _ => true
  | .ident s | .unary s _ => s.toList.head? == some '\x7b'
  | _ => false

/-- Whether an expression, printed as the body of an arrow or as a statement, opens a block:
an object literal comes first, but is not the whole. -/
def Expr.opensBlock (e : Expr) : Bool := !e.isObject && e.front.isBraced

/-! ## First characters -/

/-- Numerals start with a digit or a sign. -/
theorem head?_signed_ne_brace (minus : Bool) (n : Numeral) :
    (signed minus n.text).head? ≠ some '\x7b' := by
  obtain ⟨c, cs, head, digit⟩ := n.text_head
  cases minus with
  | true => simp [signed]
  | false =>
    intro same
    obtain rfl : c = '\x7b' := by simpa [signed, head] using same
    exact absurd digit (by decide)

theorem head?_doubleText_ne_brace (d : Double) : d.text.head? ≠ some '\x7b' := by
  cases shape : d.shape with
  | nan => simp [Double.text, shape]
  | infinite negative => cases negative <;> simp [Double.text, shape]
  | finite negative m e =>
    obtain ⟨n, text, _⟩ := exists_numeral_double shape
    rw [text]
    exact head?_signed_ne_brace _ n

theorem head?_intDigits_ne_brace (n : Int) : (intDigits n).head? ≠ some '\x7b' := by
  have numeral : intDigits n = signed (decide (n < 0)) (Numeral.ofNat n.natAbs).text := by
    simp [intDigits, signed, Numeral.text, Numeral.ofNat, fractionText, exponentPartText]
  rw [numeral]
  exact head?_signed_ne_brace _ _

/-- So no literal starts with a brace. -/
theorem head?_scalarText_ne_brace (v : Scalar) : (scalarText v).head? ≠ some '\x7b' := by
  cases v with
  | null => decide
  | bool b => cases b <;> decide
  | text s => simp [scalarText, stringText]
  | double d => exact head?_doubleText_ne_brace d
  | int n =>
    rw [scalarText, intText?]
    split
    · exact head?_intDigits_ne_brace n
    · cases Double.ofInt? n with
      | none => exact head?_intDigits_ne_brace n
      | some d => exact head?_doubleText_ne_brace d

/-- An operand in parentheses starts with none, and any other starts as its text does. -/
theorem head?_operand {needed : Bool} {text rest : List Char} {c : Char} (other : c ≠ '\x7b') :
    (parensIf needed text ++ c :: rest).head? = some '\x7b' ↔
      needed = false ∧ text.head? = some '\x7b' := by
  cases needed with
  | true => simp [parensIf, parens]
  | false =>
    cases text with
    | nil => simp [parensIf, other]
    | cons d ds => simp [parensIf]

/-- A text starts with a brace if its front does. -/
theorem Expr.head?_text : ∀ e : Expr, e.text.head? = some '\x7b' ↔ e.front.isBraced = true
  | .ident n => by simp [Expr.text_ident, Expr.front, Expr.isBraced]
  | .lit v => by
    simpa [Expr.text_lit, Expr.front, Expr.isBraced] using head?_scalarText_ne_brace v
  | .undefined => by simp [Expr.text_undefined, Expr.front, Expr.isBraced]
  | .array es => by simp [Expr.text_array, Expr.front, Expr.isBraced]
  | .object ps => by simp [Expr.text_object, Expr.front, Expr.isBraced]
  | .member obj prop computed optional => by
    -- What follows the object does not start with a brace, whichever form the access has.
    obtain ⟨c, rest, suffix, other⟩ : ∃ c rest, (if computed then
        (if optional then "?.[" else "[").toList ++ prop.text ++ [']']
        else (if optional then "?." else ".").toList ++ prop.text) = c :: rest ∧
          c ≠ '\x7b' := by
      cases computed <;> cases optional <;> exact ⟨_, _, rfl, by decide⟩
    rw [Expr.text_member, suffix, head?_operand other, Expr.front]
    cases obj.needsParensBefore !computed with
    | true => simp [Expr.isBraced]
    | false => simpa using obj.head?_text
  | .call f args => by
    rw [Expr.text_call, parens, cons_append, head?_operand (by decide), Expr.front]
    cases f.needsParensBefore false with
    | true => simp [Expr.isBraced]
    | false => simpa using f.head?_text
  | .new f args => by simp [Expr.text_construction, Expr.front, Expr.isBraced]
  | .unary op e => by
    rw [Expr.text_unary, Expr.front]
    by_cases blank : op = ""
    · -- an operator without a spelling leaves the first place to its operand
      subst blank
      have key : unaryKey "" = "" := by decide
      rw [key]
      cases e.needsParens "" .only with
      | true => simp [unaryText, parensIf, parens, Expr.isBraced]
      | false => simpa [unaryText, parensIf] using e.head?_text
    · obtain ⟨c, cs, chars⟩ := exists_cons_of_ne_nil (mt String.toList_eq_nil_iff.mp blank)
      have head : ∀ rest, (unaryText op ++ rest).head? = some c := by
        intro rest
        rw [unaryText]
        split <;> simp [chars]
      rw [head, if_neg fun h => blank h.1]
      simp [Expr.isBraced, chars]
  | .binary l op r => by
    rw [Expr.text_binary, append_assoc, cons_append, head?_operand (by decide),
      Expr.front]
    cases op == "**" && l.strength == unaryStrength || l.needsParens op .left with
    | true => simp [Expr.isBraced]
    | false => simpa using l.head?_text
  | .logical l op r => by
    rw [Expr.text_logical, Expr.text_binary, append_assoc, cons_append,
      head?_operand (by decide), Expr.front]
    cases op == "**" && l.strength == unaryStrength || l.needsParens op .left with
    | true => simp [Expr.isBraced]
    | false => simpa using l.head?_text
  | .ternary c y n => by
    have blank : " ? ".toList = ' ' :: "? ".toList := rfl
    rw [Expr.text_ternary, blank, append_assoc, append_assoc, append_assoc,
      cons_append, head?_operand (by decide), Expr.front]
    by_cases weak : c.strength ≤ conditionalStrength
    · simp [weak, Expr.isBraced]
    · simpa [weak] using c.head?_text
  | .arrow ps body => by
    simp [Expr.text_arrow, Expr.front, Expr.isBraced, paramsText, parens]
  | .arrowBlock ps body => by
    have text : (Expr.arrowBlock ps body).text =
      paramsText ps ++ " => ".toList ++ braces (linesText body) := rfl
    simp [text, Expr.front, Expr.isBraced, paramsText, parens]
  | .function n ps body => by
    have text : (Expr.function n ps body).text = "function ".toList ++ n.toList ++
      paramsText ps ++ ' ' :: braces (linesText body) := rfl
    simp [text, Expr.front, Expr.isBraced]

/-! ## Bodies and statements -/

/-- The body of an arrow starts with a brace if it opens a block. -/
theorem head?_body (e : Expr) :
    (parensIf e.isObject e.text).head? = some '\x7b' ↔ e.opensBlock = true := by
  rw [Expr.opensBlock, Bool.and_eq_true, Bool.not_eq_true']
  cases e.isObject with
  | true => simp [parensIf, parens]
  | false => simpa [parensIf] using e.head?_text

/-- The body of an arrow and a statement are printed with a brace at their start exactly
where an object literal comes first in an expression that is more than that: in an object
literal alone the printer sees the brace, further down it does not. -/
theorem opensBlock_iff (e : Expr) :
    (∀ ps text, (Node.expr (.arrow ps e)).print? = some text →
      ∃ body, text.toList = paramsText ps ++ " => ".toList ++ body ∧
        (body.head? = some '\x7b' ↔ e.opensBlock = true)) ∧
    ∀ text, (Node.stmt (.expr e)).print? = some text →
      (text.toList.head? = some '\x7b' ↔ e.opensBlock = true) := by
  refine ⟨fun ps text printed => ⟨_, toList_of_print? printed, head?_body e⟩, ?_⟩
  intro text printed
  have shape : (Stmt.expr e).text = parensIf e.isObject e.text ++ [';'] := rfl
  rw [toList_of_print? printed, Node.text, shape, ← head?_body e]
  cases parensIf e.isObject e.text with
  | nil => simp
  | cons c cs => simp

/-- `{ a: x }.a > 1 ? x : y` -/
def keyTest : Expr :=
  .ternary (.binary (.member (.object [("a", .ident "x")]) (.ident "a") false false) ">"
    (.lit (.int 1))) (.ident "x") (.ident "y")

/-- A filter with the test `{a: x}.a > 1 ? x : y` has a block as its body. -/
theorem opensBlock_iff_keyTest :
    (Node.expr (.arrow [.pattern ["x"]] keyTest)).print? =
      some "(\x7bx\x7d) => \x7ba: x\x7d.a > 1 ? x : y" ∧
    (Node.stmt (.expr keyTest)).print? = some "\x7ba: x\x7d.a > 1 ? x : y;" ∧
    keyTest.opensBlock = true ∧
    (∃ body, "(\x7bx\x7d) => \x7ba: x\x7d.a > 1 ? x : y".toList =
        paramsText [.pattern ["x"]] ++ " => ".toList ++ body ∧ body.head? = some '\x7b') ∧
    "\x7ba: x\x7d.a > 1 ? x : y;".toList.head? = some '\x7b' := by
  have arrow : (Node.expr (.arrow [.pattern ["x"]] keyTest)).print? =
    some "(\x7bx\x7d) => \x7ba: x\x7d.a > 1 ? x : y" := by decide
  have statement : (Node.stmt (.expr keyTest)).print? =
    some "\x7ba: x\x7d.a > 1 ? x : y;" := by decide
  have opens : keyTest.opensBlock = true := by decide
  obtain ⟨body, shape, brace⟩ := (opensBlock_iff keyTest).1 _ _ arrow
  exact ⟨arrow, statement, opens, ⟨body, shape, brace.mpr opens⟩,
    ((opensBlock_iff keyTest).2 _ statement).mpr opens⟩

/-- In `{a: x}.a` the object literal is not protected. -/
theorem member_of_object_opens_block :
    ∃ body, (Node.expr (.arrow [.pattern ["x"]]
      (.member (.object [("a", .ident "x")]) (.ident "a") false false))).print? =
        some (String.ofList (paramsText [.pattern ["x"]] ++ " => ".toList ++ body)) ∧
      body.head? = some '\x7b' :=
  ⟨"\x7ba: x\x7d.a".toList, by decide, by decide⟩

end JexlScript.Script
