import JexlScript.Proofs.Parsing.Completeness
import JexlScript.Proofs.Parsing.Layers
import JexlScript.Proofs.Parsing.Reshaping
import JexlScript.Proofs.Rounding

/-!
# The parser accepts its grammar

`ofTokensWith_eq_ok_iff`: a list of tokens is read to a formula just if the
grammar derives it, with the shape that the precedences give to its chains.

Which lists are read at all does not depend on the shapes. So for a grammar
without an operator of the least precedence, which no chain would take, the
lists that are read are those of the plain grammar, where a chain may have any
shape that keeps its operands and operators in order.
-/

namespace JexlScript

open List

/-- Only the least double is at most the least. -/
theorem Double.eq_infinity_of_atMost {d : Double}
    (least : d.atMost (Double.infinity true) = true) : d = Double.infinity true := by
  have infinite : (Double.infinity true).rank = -(infiniteMagnitude : Int) := by decide
  simp only [Double.atMost, infinite, Double.isNaN, Bool.and_eq_true, Bool.not_eq_true',
    decide_eq_false_iff_not, decide_eq_true_eq] at least
  obtain ⟨⟨bounded, _⟩, below⟩ := least
  have positive : 0 < infiniteMagnitude := by decide
  rw [← ofMagnitude_magnitude d]
  cases sign : d.signBit with
  | false =>
    simp only [Double.rank, sign] at below
    simp at below
    omega
  | true =>
    simp only [Double.rank, sign, if_true] at below
    have same : d.magnitude = infiniteMagnitude := by omega
    rw [same]
    rfl

namespace Formula

open Parse

/-! ## Lists of tokens -/

section

variable {ι : Type} {g : Grammar ι} {first : PrimaryReader} {tokens : List Token} {f : Formula}

/-- What is read is derived, if the shapes of chains are allowed. -/
theorem derives_of_ofTokensWith {r : Rules} (takes : TakesPrimaries r.signs first)
    (joins : ∀ e links, Linked g false links →
      r.joins e (links.map fun l => (l.op, l.operand)) (climb e [] links))
    (result : ofTokensWith g first tokens = .ok f) :
    ∃ m, Derives r (.expression f) false tokens m := by
  unfold ofTokensWith at result
  split at result
  · cases result
  · split at result
    · cases result
    · next e c ran =>
        split at result
        · next finished =>
            cases result
            -- of faults nothing is asked here
            have outcome := (expression_follows False "" takes False.elim joins
              tokens.length 0 []).runs [] tokens [] false (Nat.le_refl _) (Nat.le_refl _)
            simp only [any_nil, nil_append, ran] at outcome
            obtain ⟨ts, m, all, _, _, derived, _⟩ := outcome
            have all : tokens = ts := by simpa [finished] using all
            exact ⟨m, all ▸ derived⟩
        · cases result

/-- A list of tokens is read exactly if it is derived with the shapes that climbing gives. -/
theorem ofTokensWith_eq_ok_iff {signs : Bool} (takes : TakesPrimaries signs first) :
    ofTokensWith g first tokens = .ok f ↔
      ∃ m, Derives ⟨Climbs g, signs⟩ (.expression f) false tokens m := by
  constructor
  · exact derives_of_ofTokensWith (r := ⟨Climbs g, signs⟩) takes
      fun e links linked => ⟨links, rfl, linked, rfl⟩
  · rintro ⟨m, derived⟩
    have read := derived.read takes tokens.length [] (Nat.le_refl _) (Ends.nil _) false
    obtain ⟨t, us, rfl, _⟩ := derived.opens rfl
    rw [append_nil] at read
    simp only [ofTokensWith, read]
    rfl

end

/-! ## Texts -/

theorem exists_ok_of_any {ε α : Type} {x : Except ε α} {p : α → Bool}
    (checked : x.toOption.any p = true) : ∃ a, x = .ok a ∧ p a = true := by
  cases x with
  | error why => cases checked
  | ok a => exact ⟨a, rfl, checked⟩

/-! ## The documented grammar -/

/-- The plain grammar: a chain may have any shape, and a minus is no sign. -/
def plainRules : Rules := ⟨InOrder, false⟩

/-- A precedence is not the least if it is not minus infinity. -/
theorem isLeast_eq_false_iff {precedence : Double} :
    isLeast precedence = false ↔ precedence ≠ Double.infinity true := by
  constructor
  · rintro higher rfl
    exact absurd higher (by decide)
  · intro other
    rw [← Bool.not_eq_true]
    exact fun least => other (Double.eq_infinity_of_atMost least)

/-- So an operator of such a grammar is always taken into a chain. -/
theorem higher_of_known {ι : Type} {g : Grammar ι}
    (higher : ∀ op element, g.lookup? op .binaryOp = some element →
      element.precedence ≠ Double.infinity true)
    {op : String} (known : (g.lookup? op .binaryOp).isSome = true) :
    isLeast (g.precedence op) = false := by
  obtain ⟨element, found⟩ := Option.isSome_iff_exists.mp known
  rw [isLeast_eq_false_iff, Grammar.precedence, found]
  exact higher op element found

/-- For a grammar without a binary operator of the least precedence, a list of
its tokens is read just if it is an expression outside of all filters, and then
all of it is read, to a formula that it derives. -/
theorem ofTokens_accepts_expressions {ι : Type} (g : Grammar ι) (tokens : List Token)
    (higher : ∀ op element, g.lookup? op .binaryOp = some element →
      element.precedence ≠ Double.infinity true)
    (known : ∀ t ∈ tokens, ∀ op, t.lexeme = .symbol .binaryOp op →
      (g.lookup? op .binaryOp).isSome = true) :
    (∀ f, ofTokens g tokens = .ok f →
        ∃ m, Derives plainRules (.expression f) false tokens m) ∧
      ((∃ f, ofTokens g tokens = .ok f) ↔
        ∃ f m, Derives plainRules (.expression f) false tokens m) := by
  have sound : ∀ f, ofTokens g tokens = .ok f →
      ∃ m, Derives plainRules (.expression f) false tokens m := fun f =>
    derives_of_ofTokensWith (r := plainRules) primary_takesPrimaries
      fun e links _ => climb_inOrder e links
  refine ⟨sound, fun ⟨f, result⟩ => ⟨f, sound f result⟩, ?_⟩
  rintro ⟨f, m, derived⟩
  obtain ⟨f', _, derived'⟩ := derived.rereads (g := g) (fun _ _ _ chain => chain)
    fun t member op is => higher_of_known higher (known t member op is)
  exact ⟨f', (ofTokensWith_eq_ok_iff primary_takesPrimaries).mpr ⟨m, derived'⟩⟩

/-- The tokens of a text over the stock grammar, none where it has none. -/
def stockTokens (text : String) : List Token :=
  (Token.tokenize Grammar.stock text.toList).toOption.getD []

/-- What the stock grammar knows is in its list of elements. -/
theorem mem_stockElements {op : String} {kind : SymbolKind} {element : Element Callable}
    (found : Grammar.stock.lookup? op kind = some element) :
    (op, element) ∈ Grammar.stockElements := by
  obtain ⟨held, _⟩ := Option.filter_eq_some_iff.mp found
  obtain ⟨before, after, same, _⟩ := lookup_eq_some_iff.mp held
  have same : Grammar.stockElements = before ++ (op, element) :: after := same
  simp [same]

/-- No stock operator has the least precedence. -/
theorem stock_higher (op : String) (element : Element Callable)
    (found : Grammar.stock.lookup? op .binaryOp = some element) :
    element.precedence ≠ Double.infinity true := by
  have all : ∀ p ∈ Grammar.stockElements, p.2.precedence ≠ Double.infinity true := by
    decide +kernel
  exact all (op, element) (mem_stockElements found)

/-- Whether a token is none but a stock operator, if it is one. -/
def isStockToken (t : Token) : Bool :=
  match t.lexeme with
  | .symbol .binaryOp op => (Grammar.stock.lookup? op .binaryOp).isSome
  | _ => true

theorem stock_known {tokens : List Token} (all : tokens.all isStockToken = true) :
    ∀ t ∈ tokens, ∀ op, t.lexeme = .symbol .binaryOp op →
      (Grammar.stock.lookup? op .binaryOp).isSome = true := by
  intro t member op is
  simpa [isStockToken, is] using all_eq_true.mp all t member

/-- A relative filter with a chain in it is read, a comma before the end of an
array is not. -/
theorem ofTokens_accepts_expressions_stock :
    (∃ f m, ofTokens Grammar.stock (stockTokens "xs[.a + 2 * b < -1].c|f(1, !d)") = .ok f ∧
        Derives plainRules (.expression f) false (stockTokens "xs[.a + 2 * b < -1].c|f(1, !d)") m) ∧
      ¬ ∃ f m, Derives plainRules (.expression f) false (stockTokens "[1, 2,]") m := by
  constructor
  · have accepted : (ofTokens Grammar.stock
        (stockTokens "xs[.a + 2 * b < -1].c|f(1, !d)")).isOk = true := by decide +kernel
    cases result : ofTokens Grammar.stock (stockTokens "xs[.a + 2 * b < -1].c|f(1, !d)") with
    | error why => simp [result, Except.isOk, Except.toBool] at accepted
    | ok f =>
      obtain ⟨m, derived⟩ := (ofTokens_accepts_expressions Grammar.stock _ stock_higher
        (stock_known (by decide +kernel))).1 f result
      exact ⟨f, m, rfl, derived⟩
  · have refused : (ofTokens Grammar.stock (stockTokens "[1, 2,]")).isOk = false := by
      decide +kernel
    intro derived
    obtain ⟨f, result⟩ := (ofTokens_accepts_expressions Grammar.stock _ stock_higher
      (stock_known (by decide +kernel))).2.mpr derived
    simp [result, Except.isOk, Except.toBool] at refused

end Formula

end JexlScript
