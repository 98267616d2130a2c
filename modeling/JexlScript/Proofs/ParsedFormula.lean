import JexlScript.Proofs.Parsing.SideBySide

/-!
# What the parser builds

Every formula that is read from a text is built by the rules of
`Formula.Built`: an operator in it is one of the grammar, of the arity with
which it is applied, a field is never relative, and nothing in it is stray.
`Formula.Built.congruence` says so for single steps, and `Formula.parse_built` for
a whole text.
-/

namespace JexlScript

open List

variable {ι : Type} {g : Grammar ι}

/-! ## The symbols of tokens -/

/-- A symbol is known as of the kind that its element has. -/
theorem Grammar.lookup?_kind {symbol : String} {element : Element ι}
    (found : g.elements.get? symbol = some element) :
    (g.lookup? symbol element.kind).isSome := by
  simp [Grammar.lookup?, found]

/-- A symbol is one of the grammar, of the kind that it is scanned as. -/
def Lexeme.IsKnown (g : Grammar ι) (l : Lexeme) : Prop :=
  ∀ kind text, l = .symbol kind text → (g.lookup? text kind).isSome

namespace Token

/-- A word is scanned as a symbol only if the grammar has it. -/
theorem word_isKnown (text : String) : (word g text).IsKnown g := by
  intro kind symbol is
  unfold word at is
  split_ifs at is
  split at is
  · next element found =>
      cases is
      exact Grammar.lookup?_kind found
  · cases is

/-- Every scanned symbol is known. -/
theorem next_isKnown {c : Char} {cs : List Char} {l : Lexeme} {length : Nat}
    (result : next g c cs = .ok (l, length)) : l.IsKnown g := by
  unfold next at result
  split_ifs at result
  · -- a string
    split at result <;> cases result
    intro kind symbol is
    cases is
  · -- a number
    split at result <;> cases result
    intro kind symbol is
    cases is
  · -- a word
    cases result
    exact word_isKnown _
  · -- a sign
    simp only at result
    split at result
    · next element found =>
        split_ifs at result
        cases result
        intro kind symbol is
        cases is
        exact Grammar.lookup?_kind found
    · cases result

theorem scanFrom_isKnown {position skip : Nat} {cs : List Char} {ts : List Token}
    (result : scanFrom g position skip cs = .ok ts) : ∀ t ∈ ts, t.lexeme.IsKnown g := by
  fun_induction scanFrom g position skip cs generalizing ts with
  | case1 =>
    cases result
    simp
  | case2 _ _ _ _ ih | case3 _ _ _ _ ih => exact ih result
  | case4 => cases result
  | case5 position c cs blank l length found ih =>
    cases rest : scanFrom g (position + 1) (length - 1) cs with
    | error fault => simp [rest, bind, Except.bind] at result
    | ok tokens =>
      simp only [rest, bind, Except.bind, Except.ok.injEq] at result
      subst result
      intro t member
      rcases mem_cons.mp member with rfl | member
      · exact next_isKnown found
      · exact ih rest t member

/-- Folding signs into numbers makes no new symbols. -/
theorem foldSigns_isKnown (text : List Char) (before : Option Token) {ts : List Token}
    (known : ∀ t ∈ ts, t.lexeme.IsKnown g) :
    ∀ t ∈ foldSigns text before ts, t.lexeme.IsKnown g := by
  fun_induction foldSigns text before ts with
  | case1 => simp
  | case2 => exact known
  | case3 before t u ts value number joins joined ih =>
    intro other member
    rcases mem_cons.mp member with rfl | member
    · -- a number with its sign is a literal
      intro kind symbol is
      cases is
    · exact ih (fun v inside => known v (by simp [inside])) other member
  | case4 _ _ _ _ _ _ _ ih | case5 _ _ _ _ _ ih =>
    intro other member
    rcases mem_cons.mp member with rfl | member
    · exact known other (by simp)
    · exact ih (fun v inside => known v (mem_cons_of_mem _ inside)) other member

/-- The tokens of a text are those of its scan, with signs folded. -/
theorem exists_scan {text : List Char} {tokens : List Token} (read : tokenize g text = .ok tokens) :
    ∃ ts, scan g text = .ok ts ∧ foldSigns text none ts = tokens := by
  unfold tokenize at read
  cases scanned : scan g text with
  | error fault => simp [scanned, bind, Except.bind] at read
  | ok ts =>
    simp only [scanned, bind, Except.bind, Except.ok.injEq] at read
    exact ⟨ts, rfl, read⟩

end Token

/-- Texts as strings and as lists of characters have the same tokens. -/
theorem tokenize_eq_ok_iff {text : String} {tokens : List Token} :
    tokenize g text = .ok tokens ↔ Token.tokenize g text.toList = .ok tokens := by
  unfold tokenize
  cases Token.tokenize g text.toList <;> simp [Except.mapError]

theorem tokenize_isKnown {text : String} {ts : List Token} (result : tokenize g text = .ok ts) :
    ∀ t ∈ ts, t.lexeme.IsKnown g := by
  obtain ⟨tokens, scanned, rfl⟩ := Token.exists_scan (tokenize_eq_ok_iff.mp result)
  exact Token.foldSigns_isKnown _ _ (Token.scanFrom_isKnown scanned)

/-! ## The rules -/

/-- The formulas that the parser builds with a grammar. -/
inductive Formula.Built (g : Grammar ι) : Formula → Prop
  | literal (value : Scalar) : Built g (.literal value)
  | root (name : String) (relative : Bool) : Built g (.root name relative)
  | field {parent : Formula} (name : String) : Built g parent → Built g (.field parent name false)
  | unary {op : String} {e : Formula} :
      (g.lookup? op .unaryOp).isSome → Built g e → Built g (.unary op e)
  | binary {op : String} {l r : Formula} :
      (g.lookup? op .binaryOp).isSome → Built g l → Built g r → Built g (.binary op l r)
  | conditional {t c a : Formula} :
      Built g t → Built g c → Built g a → Built g (.conditional t c a)
  | array {es : List Formula} : (∀ e ∈ es, Built g e) → Built g (.array es)
  | object {ps : List (String × Formula)} : (∀ p ∈ ps, Built g p.2) → Built g (.object ps)
  | filter {s e : Formula} (relative : Bool) :
      Built g s → Built g e → Built g (.filter s e relative)
  | call {args : List Formula} (pool name : String) :
      (∀ e ∈ args, Built g e) → Built g (.call pool name args)

/-! ## Built formulas -/

namespace Formula

open Parse

/-- Setting a key in a table brings in no value but the new one. -/
theorem mem_of_mem_set {α : Type} {t : Table α} {name : String} {value : α} {p : String × α}
    (member : p ∈ Table.set t name value) : p ∈ t ∨ p.2 = value := by
  induction t with
  | nil => simp_all [Table.set]
  | cons q t ih =>
    unfold Table.set at member
    split_ifs at member
    · rcases mem_cons.mp member with rfl | member
      · exact .inr rfl
      · exact .inl (.tail _ member)
    · rcases mem_cons.mp member with rfl | member
      · exact .inl (.head _)
      · exact (ih member).imp_left (.tail _)

theorem value_of_mem_ofEntries {entries : List (String × Formula)} {p : String × Formula}
    (member : p ∈ Table.setAll [] entries) : ∃ q ∈ entries, p.2 = q.2 := by
  -- the table so far is kept apart from the entries that are left
  suffices table : ∀ t : Table Formula, p ∈ Table.setAll t entries →
      p ∈ t ∨ ∃ q ∈ entries, p.2 = q.2 from (table [] member).resolve_left (by simp)
  clear member
  induction entries with
  | nil => exact fun t member => .inl member
  | cons q entries ih =>
    obtain ⟨name, value⟩ := q
    intro t member
    rcases ih (Table.set t name value) member with member | ⟨q, inside, same⟩
    · exact (mem_of_mem_set member).imp_right fun same => ⟨(name, value), .head _, same⟩
    · exact .inr ⟨q, .tail _ inside, same⟩

/-- An object keeps for each key the last of its values, and these are built by the rules. -/
theorem ofEntries_built {entries : List (String × Formula)} (built : ∀ p ∈ entries, p.2.Built g) :
    (ofEntries entries).Built g := by
  refine .object fun p member => ?_
  obtain ⟨q, inside, same⟩ := value_of_mem_ofEntries member
  exact same ▸ built q inside

/-- Each step of the parser builds by the rules, if its symbols are known. -/
theorem Built.congruence : Congruence (fun t => t.lexeme.IsKnown g) fun _ f _ => f.Built g where
  literal _ _ := .literal _
  root relative _ := .root _ relative
  field := .field
  unary := fun ⟨_, known, is⟩ => .unary (known _ _ is)
  binary := fun ⟨_, known, is⟩ => .binary (known _ _ is)
  conditional := .conditional
  filter := .filter _
  array each := .array (forall_of_each (p := Built g) (fun _ _ _ built => built) each)
  call name _ each := .call _ name (forall_of_each (p := Built g) (fun _ _ _ built => built) each)

/-- What is read from a text is built by the rules. -/
theorem parse_built {text : String} {f : Formula} (parsed : Formula.parse g text = .ok f) :
    f.Built g := by
  obtain ⟨tokens, cut, read⟩ := parse_eq_ok_iff.mp parsed
  exact ofTokens_keeps Built.congruence
    (fun _ _ _ each => ofEntries_built (forall_of_each (fun _ _ _ related => related.2) each))
    (tokenize_isKnown cut) read

end Formula

end JexlScript
