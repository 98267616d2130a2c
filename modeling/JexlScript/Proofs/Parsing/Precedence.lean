import JexlScript.Proofs.Scanning.Conservative

/-!
# What precedences decide

Precedences decide the shape of a chain: `chain_reads_balanced`. They do not
decide what else a formula holds, and whether a text is read they decide only
through the least of them, which no operator of a text may have:
`parse_precedences`. Both are about precedences that are in order; an operator
whose precedence is not a number binds by no rule.
-/

namespace JexlScript.Formula

open List Parse

variable {ι : Type} {g g' : Grammar ι}

/-! ## The shape of a chain -/

/-- The grammar in which a chain gets the balanced shape, and a minus is no
sign. -/
def balancedRules (g : Grammar ι) : Rules := ⟨JoinsBalanced g, false⟩

/-- Where every precedence is above the least, climbing is balancing. -/
theorem climbingRules_eq
    (above : ∀ op element, g.lookup? op .binaryOp = some element →
      (Double.infinity true).less element.precedence = true) :
    (⟨Climbs g, false⟩ : Rules) = balancedRules g := by
  have same : Climbs g = JoinsBalanced g := by
    funext e ls f
    exact propext (climbs_iff_balanced above)
  rw [balancedRules, same]

/-- For a grammar with all precedences above the least, a chain of operands is
read to the one formula that is balanced; its outermost operator is the last of
those that bind least, and so on to both sides. An expression in parentheses is
one operand. -/
theorem chain_reads_balanced (g : Grammar ι)
    (above : ∀ op element, g.lookup? op .binaryOp = some element →
      (Double.infinity true).less element.precedence = true)
    {e : Formula} {ls : List (String × Formula)} {inside m m' : Bool} {ts us : List Token}
    (first : Derives (balancedRules g) (.unary e) inside ts m)
    (others : Derives (balancedRules g) (.links ls) inside us m')
    (known : ∀ l ∈ ls, (g.lookup? l.1 .binaryOp).isSome = true)
    {depth : Nat} (enough : (ts ++ us).length ≤ depth + 1)
    {rest : List Token} (ends : Ends (.question :: closers) rest) :
    ∃ f, Reads (chain g (operandAt g primary depth inside)) (ts ++ us) rest (m || m') f ∧
      Balanced g.precedence e ls f ∧ (∀ f', Balanced g.precedence e ls f' → f' = f) ∧
        f = joinAtLeast g.precedence e ls := by
  obtain ⟨balanced, unique⟩ : Balanced g.precedence e ls (joinAtLeast g.precedence e ls) ∧
      ∀ f', Balanced g.precedence e ls f' → f' = joinAtLeast g.precedence e ls := by
    refine ⟨joinAtLeast_balanced e fun l _ => ?_, fun f' => Balanced.eq_joinAtLeast⟩
    exact precedence_isNumber above l.1
  refine ⟨_, ?_, balanced, unique, rfl⟩
  have derived := Derives.chain first others (f := joinAtLeast g.precedence e ls)
    ⟨known, balanced⟩
  rw [← climbingRules_eq above] at derived
  exact derived.read primary_takesPrimaries depth rest enough ends

/-- Stock precedences are above the least. -/
theorem stock_above (op : String) (element : Element Callable)
    (found : Grammar.stock.lookup? op .binaryOp = some element) :
    (Double.infinity true).less element.precedence = true := by
  have all : ∀ p ∈ Grammar.stockElements,
      (Double.infinity true).less p.2.precedence = true := by decide +kernel
  exact all (op, element) (mem_stockElements found)

/-- `(b + c)` -/
def groupTokens : List Token :=
  [⟨.symbol .openParen "(", "(", 4⟩, ⟨.identifier "b", "b", 5⟩, ⟨.symbol .binaryOp "+", "+", 7⟩,
    ⟨.identifier "c", "c", 9⟩, ⟨.symbol .closeParen ")", ")", 10⟩]

/-- A name alone is an operand. -/
theorem derives_name {r : Rules} (name : String) (inside : Bool) (position : Nat) :
    Derives r (.unary (.root name false)) inside [⟨.identifier name, name, position⟩] false :=
  .postfixed (.name rfl) .noSuffix

theorem derives_group (inside : Bool) :
    Derives (balancedRules Grammar.stock)
      (.unary (.binary "+" (.root "b" false) (.root "c" false))) inside groupTokens false := by
  have sum : JoinsBalanced Grammar.stock (.root "b" false) [("+", .root "c" false)]
      (.binary "+" (.root "b" false) (.root "c" false)) :=
    ⟨by decide, .binary (.operand _) (.operand _) (by simp) (by simp)⟩
  have inner : Derives (balancedRules Grammar.stock) (.expression _) inside _ _ :=
    .plain <| .chain (derives_name "b" inside 5)
      (.link (o := ⟨.symbol .binaryOp "+", "+", 7⟩) rfl (derives_name "c" inside 9) .noLink) sum
  exact .postfixed (.group ⟨_, rfl⟩ inner ⟨_, rfl⟩) .noSuffix

/-- In `a - (b + c) ^ d - e` the last minus is outermost, and the sum in
parentheses is one operand. -/
theorem chain_reads_balanced_minus :
    Reads (chain Grammar.stock (operandAt Grammar.stock primary 10 false))
      (⟨.identifier "a", "a", 0⟩ :: ⟨.symbol .binaryOp "-", "-", 2⟩ :: (groupTokens ++
        [⟨.symbol .binaryOp "^", "^", 12⟩, ⟨.identifier "d", "d", 14⟩,
          ⟨.symbol .binaryOp "-", "-", 16⟩, ⟨.identifier "e", "e", 18⟩])) [] false
      (.binary "-"
        (.binary "-" (.root "a" false)
          (.binary "^" (.binary "+" (.root "b" false) (.root "c" false)) (.root "d" false)))
        (.root "e" false)) := by
  have others := Derives.link (r := balancedRules Grammar.stock)
    (o := ⟨.symbol .binaryOp "-", "-", 2⟩) rfl (derives_group false) <|
    .link (o := ⟨.symbol .binaryOp "^", "^", 12⟩) rfl (derives_name "d" false 14) <|
    .link (o := ⟨.symbol .binaryOp "-", "-", 16⟩) rfl (derives_name "e" false 18) .noLink
  obtain ⟨f, read, _, unique, _⟩ := chain_reads_balanced Grammar.stock stock_above
    (derives_name "a" false 0) others (by decide) (show _ ≤ 10 + 1 by decide) (Ends.nil _)
  have power : Balanced Grammar.stock.precedence _ [("^", .root "d" false)] _ :=
    .binary (.operand (.binary "+" (.root "b" false) (.root "c" false))) (.operand _)
      (by simp) (by simp)
  have minus : Balanced Grammar.stock.precedence (.root "a" false) (("-", _) :: [_]) _ :=
    .binary (.operand _) power (by simp) (by decide +kernel)
  have whole : Balanced Grammar.stock.precedence (.root "a" false) (_ ++ ("-", _) :: []) _ :=
    .binary minus (.operand (.root "e" false)) (by decide +kernel) (by simp)
  rw [unique _ whole]
  exact read

/-! ## Operators among the tokens -/

/-- The binary operator that a token is. -/
def binaryOperator? (t : Token) : Option String :=
  match t.lexeme with
  | .symbol .binaryOp op => some op
  | _ => none

/-- The binary operators of a list of tokens, in order. -/
def binaryOperators (ts : List Token) : List String := ts.filterMap binaryOperator?

theorem binaryOperator?_eq_some {t : Token} {op : String} :
    binaryOperator? t = some op ↔ t.lexeme = .symbol .binaryOp op := by
  unfold binaryOperator?
  split
  · next is => simp [is]
  · next other => simpa using other op

theorem mem_binaryOperators {ts : List Token} {op : String} :
    op ∈ binaryOperators ts ↔ ∃ t ∈ ts, t.lexeme = .symbol .binaryOp op := by
  simp [binaryOperators, mem_filterMap, binaryOperator?_eq_some]

section

variable {t : Token} {ts us : List Token}

theorem binaryOperators_append :
    binaryOperators (ts ++ us) = binaryOperators ts ++ binaryOperators us :=
  filterMap_append

theorem binaryOperators_operator {op : String} (is : t.lexeme = .symbol .binaryOp op) :
    binaryOperators (t :: ts) = op :: binaryOperators ts :=
  filterMap_cons_some (binaryOperator?_eq_some.mpr is)

theorem binaryOperators_symbol {kind : SymbolKind} (is : t.Is kind) (other : kind ≠ .binaryOp) :
    binaryOperators (t :: ts) = binaryOperators ts := by
  obtain ⟨text, is⟩ := is
  refine filterMap_cons_none (Option.eq_none_iff_forall_ne_some.mpr fun op is' => other ?_)
  rw [binaryOperator?_eq_some, is] at is'
  cases is'
  rfl

theorem binaryOperators_name {name : String} (is : t.lexeme = .identifier name) :
    binaryOperators (t :: ts) = binaryOperators ts :=
  filterMap_cons_none (by simp [binaryOperator?, is])

theorem binaryOperators_key {key : String} (is : t.IsKey key) :
    binaryOperators (t :: ts) = binaryOperators ts :=
  filterMap_cons_none (by rcases is with is | is <;> simp [binaryOperator?, is])

end

/-- The operators of a part that no chain has taken yet. -/
def Part.openOperators : Part → List String
  | .links ls => ls.map Prod.fst
  | _ => []

/-- Every operator of derived tokens is taken by a chain, or is open in the part. -/
theorem Derives.operators {r : Rules} {part : Part} {inside : Bool} {ts : List Token} {m : Bool}
    {P : String → Prop} (derived : Derives r part inside ts m) (unsigned : r.signs = false)
    (joins : ∀ e ls f, r.joins e ls f → ∀ l ∈ ls, P l.1) :
    ∀ op ∈ binaryOperators ts, op ∈ part.openOperators ∨ P op := by
  induction derived with
  | plain _ ih => exact ih
  | conditional _ question _ colon _ test consequent alternate =>
    rw [binaryOperators_append, binaryOperators_symbol question (by decide),
      binaryOperators_append, binaryOperators_symbol colon (by decide)]
    simp only [forall_mem_append]
    exact ⟨test, consequent, alternate⟩
  | chain _ _ joined operand links =>
    rw [binaryOperators_append, forall_mem_append]
    -- The operators of a chain are joined, and all others belong to parts of it.
    refine ⟨operand, fun op member => .inr ?_⟩
    rcases links op member with listed | holds
    · obtain ⟨l, inside, rfl⟩ := mem_map.mp listed
      exact joins _ _ _ joined l inside
    · exact holds
  | noLink => simp [binaryOperators]
  | @link op _ _ _ _ _ _ _ _ is _ _ operand links =>
    rw [binaryOperators_operator is, binaryOperators_append, forall_mem_cons,
      forall_mem_append]
    refine ⟨.inl mem_cons_self, fun op member => ?_, fun op member => ?_⟩
    · exact (operand op member).imp_left fun nothing => absurd nothing not_mem_nil
    · exact (links op member).imp_left (mem_cons_of_mem _)
  | prefixed is _ ih =>
    rw [binaryOperators_symbol ⟨_, is⟩ (by decide)]
    exact ih
  | postfixed _ _ primary suffixes =>
    rw [binaryOperators_append, forall_mem_append]
    exact ⟨primary, suffixes⟩
  | noSuffix => simp [binaryOperators]
  | field dot is _ ih =>
    rw [binaryOperators_symbol dot (by decide), binaryOperators_name is]
    exact ih
  | filter bracket _ close _ inner others =>
    rw [binaryOperators_symbol bracket (by decide), binaryOperators_append,
      binaryOperators_symbol close (by decide), forall_mem_append]
    exact ⟨inner, others⟩
  | transform pipe is _ ih =>
    rw [binaryOperators_symbol pipe (by decide), binaryOperators_name is]
    exact ih
  | transformArgs pipe is paren _ close _ items others =>
    rw [binaryOperators_symbol pipe (by decide), binaryOperators_name is,
      binaryOperators_symbol paren (by decide), binaryOperators_append,
      binaryOperators_symbol close (by decide), forall_mem_append]
    exact ⟨items, others⟩
  | literal is => simp [binaryOperators, binaryOperator?, is]
  | name is => simp [binaryOperators, binaryOperator?, is]
  | call is paren _ close ih =>
    rw [binaryOperators_name is, binaryOperators_symbol paren (by decide),
      binaryOperators_append, binaryOperators_symbol close (by decide), forall_mem_append]
    exact ⟨ih, by simp [binaryOperators]⟩
  | relativeName dot is =>
    rw [binaryOperators_symbol dot (by decide), binaryOperators_name is]
    simp [binaryOperators]
  | group paren _ close ih =>
    rw [binaryOperators_symbol paren (by decide), binaryOperators_append,
      binaryOperators_symbol close (by decide), forall_mem_append]
    exact ⟨ih, by simp [binaryOperators]⟩
  | array bracket _ close ih =>
    rw [binaryOperators_symbol bracket (by decide), binaryOperators_append,
      binaryOperators_symbol close (by decide), forall_mem_append]
    exact ⟨ih, by simp [binaryOperators]⟩
  | noEntry curl close =>
    rw [binaryOperators_symbol curl (by decide), binaryOperators_symbol close (by decide)]
    simp [binaryOperators]
  | object curl _ close ih =>
    rw [binaryOperators_symbol curl (by decide), binaryOperators_append,
      binaryOperators_symbol close (by decide), forall_mem_append]
    exact ⟨ih, by simp [binaryOperators]⟩
  -- Signs have been joined before, so the rule for them is not used.
  | negative signs => rw [unsigned] at signs; cases signs
  | noItem => simp [binaryOperators]
  | someItems _ ih => exact ih
  | lastItem _ ih => exact ih
  | moreItems _ comma _ ih others =>
    rw [binaryOperators_append, binaryOperators_symbol comma (by decide), forall_mem_append]
    exact ⟨ih, others⟩
  | lastEntry isKey colon _ ih =>
    rw [binaryOperators_key isKey, binaryOperators_symbol colon (by decide)]
    exact ih
  | moreEntries isKey colon _ comma _ ih others =>
    rw [binaryOperators_key isKey, binaryOperators_symbol colon (by decide),
      binaryOperators_append, binaryOperators_symbol comma (by decide), forall_mem_append]
    exact ⟨ih, others⟩

/-! ## Two grammars -/

/-- The binary operators of a text, none if it has no tokens. -/
def operatorsOf (g : Grammar ι) (text : String) : List String :=
  binaryOperators ((tokenize g text).toOption.getD [])

/-- What is read has no operator of the least precedence. -/
theorem higher_of_ofTokens (numbers : ∀ op, (g.precedence op).isNaN = false) {tokens : List Token}
    {f : Formula} (result : ofTokens g tokens = .ok f) :
    ∀ op ∈ binaryOperators tokens, isLeast (g.precedence op) = false := by
  obtain ⟨m, derived⟩ := (ofTokensWith_eq_ok_iff primary_takesPrimaries).mp result
  intro op member
  have listed := derived.operators (P := fun op => isLeast (g.precedence op) = false) rfl
    (fun e ls f climbs => ((climbs_iff numbers).mp climbs).1) op member
  exact listed.resolve_left not_mem_nil

/-- What one grammar reads is read by another that takes its operators, with the same reading. -/
theorem ofTokens_rereads {tokens : List Token} {f : Formula} (result : ofTokens g tokens = .ok f)
    (higher : ∀ op ∈ binaryOperators tokens, isLeast (g'.precedence op) = false) :
    ∃ f', ofTokens g' tokens = .ok f' ∧ f'.reading = f.reading := by
  obtain ⟨m, derived⟩ := (ofTokensWith_eq_ok_iff primary_takesPrimaries).mp result
  obtain ⟨f', same, derived'⟩ := derived.rereads (fun _ _ _ climbs => climbs.inOrder)
    fun t member op is => higher op (mem_binaryOperators.mpr ⟨t, member, is⟩)
  exact ⟨f', (ofTokensWith_eq_ok_iff primary_takesPrimaries).mpr ⟨m, derived'⟩, same⟩

/-- Two grammars whose symbols play the same parts, and whose precedences have
their places in the order, read the same texts, unless an operator of the text
has the least precedence of all in one of them; with that grammar the text is not
read. What both read has the same operands and operators from left to right. -/
theorem parse_precedences (g g' : Grammar ι) (text : String)
    (kinds : ∀ symbol, (g.elements.get? symbol).map (·.kind) =
      (g'.elements.get? symbol).map (·.kind))
    (numbers : ∀ op, (g.precedence op).isNaN = false ∧ (g'.precedence op).isNaN = false) :
    ((∀ op ∈ operatorsOf g text, g.precedence op ≠ Double.infinity true ∧
          g'.precedence op ≠ Double.infinity true) →
        ((∃ f, parse g text = .ok f) ↔ ∃ f', parse g' text = .ok f')) ∧
      (∀ f f', parse g text = .ok f → parse g' text = .ok f' → f.reading = f'.reading) ∧
      ∀ f, parse g text = .ok f → ∀ op ∈ operatorsOf g text,
        g.precedence op ≠ Double.infinity true := by
  have same : tokenize g text = tokenize g' text :=
    tokenize_of_sameKindsOn fun symbol _ => kinds symbol
  -- Kinds tell the tokens, so both grammars read the same ones and only the joining differs.
  simp only [parse_eq_ok_iff, ← same, operatorsOf, ← isLeast_eq_false_iff]
  cases tokenize g text with
  | error why => simp
  | ok tokens =>
    simp only [Except.ok.injEq, Except.toOption, Option.getD_some, exists_eq_left']
    refine ⟨fun higher => ⟨?_, ?_⟩, fun f f' result result' => ?_, fun f result => ?_⟩
    · rintro ⟨f, result⟩
      obtain ⟨f', result', _⟩ := ofTokens_rereads result fun op member => (higher op member).2
      exact ⟨f', result'⟩
    · rintro ⟨f', result'⟩
      obtain ⟨f, result, _⟩ := ofTokens_rereads result' fun op member => (higher op member).1
      exact ⟨f, result⟩
    -- Reading with either grammar tells that no operator has the least precedence.
    · have higher := higher_of_ofTokens (fun op => (numbers op).2) result'
      obtain ⟨f₂, result₂, same⟩ := ofTokens_rereads result higher
      rw [result'] at result₂
      cases result₂
      exact same.symm
    · exact higher_of_ofTokens (fun op => (numbers op).1) result

/-- The stock grammar with all operators on one level. -/
def levelGrammar : Grammar Callable :=
  { Grammar.stock with
    elements := Grammar.stock.elements.map fun (s, e) => (s, { e with precedence := Double.zero }) }

/-- It has the same symbols of the same kinds. -/
theorem levelGrammar_kinds (symbol : String) :
    (Grammar.stock.elements.get? symbol).map (·.kind) =
      (levelGrammar.elements.get? symbol).map (·.kind) := by
  simp only [Table.get?, levelGrammar]
  induction Grammar.stock.elements with
  | nil => rfl
  | cons p t ih =>
    obtain ⟨s, e⟩ := p
    simp only [map_cons, lookup_cons]
    split
    · rfl
    · exact ih

/-- If all precedences of a table are numbers, so is each that is looked up. -/
theorem precedence_isNaN_of_all {g : Grammar ι}
    (all : ∀ p ∈ g.elements, p.2.precedence.isNaN = false) (op : String) :
    (g.precedence op).isNaN = false := by
  unfold Grammar.precedence Grammar.lookup?
  cases found : g.elements.get? op with
  | none => exact (by decide : (Double.infinity true).isNaN = false)
  | some element =>
    obtain ⟨before, after, same, _⟩ := lookup_eq_some_iff.mp found
    have number := all (op, element) (by simp [same])
    by_cases kind : element.kind = .binaryOp
    · simpa [Option.filter, kind] using number
    · rw [Option.filter_some_neg (by simpa using kind)]
      exact (by decide : (Double.infinity true).isNaN = false)

/-- Whether an operator is the outermost. -/
def isJoinedBy (op : String) : Formula → Bool
  | .binary op' _ _ => op' == op
  | _ => false

/-- On one level, the product in `a + b * c` is outermost and not the sum; what
is read stays the same from left to right. -/
theorem parse_precedences_level :
    ∃ f f', parse Grammar.stock "a + b * c" = .ok f ∧ parse levelGrammar "a + b * c" = .ok f' ∧
      f.isJoinedBy "+" = true ∧ f'.isJoinedBy "*" = true ∧ f.reading = f'.reading := by
  obtain ⟨f, read, sum⟩ := exists_ok_of_any
    (x := parse Grammar.stock "a + b * c") (p := isJoinedBy "+") (by decide +kernel)
  obtain ⟨f', read', product⟩ := exists_ok_of_any
    (x := parse levelGrammar "a + b * c") (p := isJoinedBy "*") (by decide +kernel)
  have numbers (op : String) : (Grammar.stock.precedence op).isNaN = false ∧
      (levelGrammar.precedence op).isNaN = false :=
    ⟨precedence_isNaN_of_all (by decide +kernel) op, precedence_isNaN_of_all (by decide +kernel) op⟩
  exact ⟨f, f', read, read', sum, product,
    (parse_precedences Grammar.stock levelGrammar _ levelGrammar_kinds numbers).2.1 f f' read read'⟩

/-- An operator that is registered with the least precedence is not read. -/
theorem parse_least_refused :
    (parse (Grammar.stock.addBinaryOp "@" (Double.infinity true) (.native "len")) "a @ b").isOk =
        false ∧
      (parse (Grammar.stock.addBinaryOp "@" Double.zero (.native "len")) "a @ b").isOk = true := by
  decide +kernel

/-- It is read to the right of an operator that has no place in the order. -/
example : (parse ((Grammar.stock.addBinaryOp "@" Double.nan (.native "len")).addBinaryOp "#"
    (Double.infinity true) (.native "len")) "a @ b # c").isOk = true := by
  decide +kernel

end JexlScript.Formula
