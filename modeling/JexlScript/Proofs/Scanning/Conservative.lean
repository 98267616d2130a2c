import JexlScript.Proofs.Scanning.Tiling

/-!
# Changes of a grammar that a text does not notice

A grammar is changed by registering and removing operators. Reading a text asks the
grammar only about symbols that occur in the text, so two grammars that agree on
these (`Grammar.AgreeOn`) give the same tokens, the same formula and the same
errors. Main statement: `Formula.parse_foldl_change`, for any sequence of changes of
symbols that do not occur in the text.
-/

namespace JexlScript

open List

variable {ι : Type} {g g' : Grammar ι}

/-! ## Tables -/

namespace Table

variable {α : Type}

theorem get?_cons_ne {n s : String} (v : α) (t : Table α) (other : n ≠ s) :
    get? ((n, v) :: t) s = get? t s := by
  unfold get?
  rw [lookup_cons, beq_false_of_ne other.symm]

/-- Setting a name leaves the others alone. -/
theorem get?_set_ne {name s : String} (t : Table α) (value : α) (other : name ≠ s) :
    get? (set t name value) s = get? t s := by
  induction t with
  | nil => exact get?_cons_ne value [] other
  | cons p t ih =>
    obtain ⟨n, v⟩ := p
    unfold set
    split_ifs with same
    · subst same
      rw [get?_cons_ne value t other, get?_cons_ne v t other]
    · rcases eq_or_ne n s with rfl | different
      · simp [get?]
      · rw [get?_cons_ne v _ different, get?_cons_ne v t different, ih]

/-- Removing a name leaves the others alone. -/
theorem get?_remove_ne {name s : String} (t : Table α) (other : name ≠ s) :
    get? (remove t name) s = get? t s := by
  unfold remove
  induction t with
  | nil => rfl
  | cons p t ih =>
    obtain ⟨n, v⟩ := p
    rcases eq_or_ne n name with rfl | kept
    · rw [filter_cons_of_neg (by simp), ih, get?_cons_ne v t other]
    · rw [filter_cons_of_pos (by simpa using kept)]
      rcases eq_or_ne n s with rfl | different
      · simp [get?]
      · rw [get?_cons_ne v _ different, get?_cons_ne v t different, ih]

theorem mem_names_iff {t : Table α} {s : String} : s ∈ t.names ↔ (t.get? s).isSome = true := by
  unfold names get?
  rw [lookup_isSome_iff, mem_map]
  constructor
  · rintro ⟨p, member, rfl⟩
    exact ⟨p, member, by simp⟩
  · rintro ⟨p, member, same⟩
    exact ⟨p, member, (beq_iff_eq.mp same).symm⟩

end Table

/-! ## Changes -/

/-- A change of one symbol of a grammar. -/
inductive Grammar.Change (ι : Type) where
  /-- A binary operator is registered. -/
  | addBinaryOp (symbol : String) (precedence : Double) (impl : ι)
  /-- A unary operator is registered. -/
  | addUnaryOp (symbol : String) (impl : ι)
  | removeOp (symbol : String)

/-- The symbol that is changed. -/
def Grammar.Change.symbol : Change ι → String
  | .addBinaryOp symbol _ _ => symbol
  | .addUnaryOp symbol _ => symbol
  | .removeOp symbol => symbol

/-- Changes a grammar. -/
def Grammar.change (g : Grammar ι) : Change ι → Grammar ι
  | .addBinaryOp symbol precedence impl => g.addBinaryOp symbol precedence impl
  | .addUnaryOp symbol impl => g.addUnaryOp symbol impl
  | .removeOp symbol => g.removeOp symbol

/-- A change leaves other symbols alone. -/
theorem Grammar.get?_change {s : String} (g : Grammar ι) (change : Change ι)
    (other : change.symbol ≠ s) : (g.change change).elements.get? s = g.elements.get? s := by
  cases change with
  | addBinaryOp => exact Table.get?_set_ne _ _ other
  | addUnaryOp => exact Table.get?_set_ne _ _ other
  | removeOp =>
    simp only [Grammar.change, Grammar.removeOp]
    split_ifs
    · exact Table.get?_remove_ne _ other
    · rfl

/-- Two grammars have the same elements for all symbols that occur in a text. -/
def Grammar.AgreeOn (g g' : Grammar ι) (text : List Char) : Prop :=
  ∀ s : String, s.toList <:+: text → g.elements.get? s = g'.elements.get? s

/-- Two grammars have elements of the same kinds for all symbols that occur in a text. -/
def Grammar.SameKindsOn (g g' : Grammar ι) (text : List Char) : Prop :=
  ∀ s : String, s.toList <:+: text →
    (g.elements.get? s).map (·.kind) = (g'.elements.get? s).map (·.kind)

theorem Grammar.AgreeOn.sameKindsOn {text : List Char} (agree : g.AgreeOn g' text) :
    g.SameKindsOn g' text :=
  fun s occurs => congrArg (Option.map _) (agree s occurs)

namespace Grammar.SameKindsOn

variable {text part : List Char}

theorem symm (same : g.SameKindsOn g' text) : g'.SameKindsOn g text :=
  fun s occurs => (same s occurs).symm

theorem tail {c : Char} (same : g.SameKindsOn g' (c :: text)) : g.SameKindsOn g' text :=
  fun s occurs => same s (occurs.trans (suffix_cons c text).isInfix)

end Grammar.SameKindsOn

/-- Changes of symbols that do not occur in a text are not noticed there. -/
theorem Grammar.agreeOn_foldl_change {text : List Char} (g : Grammar ι) (changes : List (Change ι))
    (unused : ∀ change ∈ changes, ¬ change.symbol.toList <:+: text) :
    (changes.foldl change g).AgreeOn g text := by
  induction changes generalizing g with
  | nil => exact fun _ _ => rfl
  | cons first changes ih =>
    intro s occurs
    have other : first.symbol ≠ s := by
      rintro rfl
      exact unused first (.head _) occurs
    rw [foldl_cons, ih (g.change first) (fun c member => unused c (.tail _ member)) s occurs]
    exact g.get?_change first other

/-! ## The same tokens -/

namespace Token

/-- The longest symbol of one grammar is a symbol of the other. -/
theorem length_longestSymbol_le {cs : List Char} (kinds : g.SameKindsOn g' cs) :
    (longestSymbol g cs).length ≤ (longestSymbol g' cs).length := by
  obtain ⟨source, fits, _⟩ := longestSymbol_spec g cs
  obtain ⟨_, _, longest⟩ := longestSymbol_spec g' cs
  rcases source with nothing | ⟨s, named, sign, same⟩
  · simp [nothing]
  · rw [← same] at fits ⊢
    have named' : s ∈ g'.elements.names := by
      rw [Table.mem_names_iff, ← Option.isSome_map] at named ⊢
      rwa [← kinds s fits.isInfix]
    exact longest s named' sign fits

/-- So both have the same longest symbol. -/
theorem longestSymbol_congr {cs : List Char} (kinds : g.SameKindsOn g' cs) :
    longestSymbol g cs = longestSymbol g' cs := by
  have lengths := Nat.le_antisymm (length_longestSymbol_le kinds)
    (length_longestSymbol_le kinds.symm)
  obtain ⟨_, fits, _⟩ := longestSymbol_spec g cs
  obtain ⟨_, fits', _⟩ := longestSymbol_spec g' cs
  rw [prefix_iff_eq_take.mp fits, prefix_iff_eq_take.mp fits', lengths]

/-- Two elements of the same kind, or none. -/
theorem kinds_cases {x y : Option (Element ι)} (same : x.map (·.kind) = y.map (·.kind)) :
    (x = none ∧ y = none) ∨ ∃ a b, x = some a ∧ y = some b ∧ a.kind = b.kind := by
  cases x with
  | none => exact .inl ⟨rfl, by simpa using same.symm⟩
  | some a =>
    obtain ⟨b, found, kind⟩ := Option.map_eq_some_iff.mp same.symm
    exact .inr ⟨a, b, rfl, found, kind.symm⟩

/-- The next token depends on the kinds of symbols only. -/
theorem next_congr {c : Char} {cs : List Char} (kinds : g.SameKindsOn g' (c :: cs)) :
    next g c cs = next g' c cs := by
  have word := kinds (String.ofList (c :: cs.takeWhile isWordPart)) <| by
    rw [String.toList_ofList]
    have run := (prefix_cons_inj c).mpr <| takeWhile_prefix (l := cs) isWordPart
    exact run.isInfix
  have symbol := kinds (String.ofList (longestSymbol g (c :: cs))) <| by
    rw [String.toList_ofList]
    exact (longestSymbol_spec g (c :: cs)).2.1.isInfix
  -- strings and numbers are read without the grammar
  unfold next
  split_ifs
  · rfl
  · rfl
  · obtain ⟨no, no'⟩ | ⟨a, b, found, found', kind⟩ := kinds_cases word
    · simp only [Token.word, no, no']
    · simp only [Token.word, found, found', kind]
  · rw [← longestSymbol_congr kinds]
    obtain ⟨no, no'⟩ | ⟨a, b, found, found', kind⟩ := kinds_cases symbol
    · simp only [no, no']
    · simp only [found, found', kind]

/-- And so do all tokens. -/
theorem scanFrom_congr {position skip : Nat} {cs : List Char} (kinds : g.SameKindsOn g' cs) :
    scanFrom g position skip cs = scanFrom g' position skip cs := by
  fun_induction scanFrom g position skip cs with
  | case1 => rfl
  | case2 position skip c cs ih => exact ih kinds.tail
  | case3 position c cs blank ih =>
    rw [scanFrom, if_pos blank]
    exact ih kinds.tail
  | case4 position c cs other fault failed =>
    rw [scanFrom, if_neg other, ← next_congr kinds, failed]
  | case5 position c cs other lexeme length cut ih =>
    rw [scanFrom, if_neg other, ← next_congr kinds, cut, ih kinds.tail]

/-- A symbol among the tokens occurs in the text. -/
theorem symbol_occurs {text : List Char} {tokens : List Token}
    (read : tokenize g text = .ok tokens) {t : Token} (member : t ∈ tokens) {kind : SymbolKind}
    {s : String} (is : t.lexeme = .symbol kind s) : s.toList <:+: text := by
  have placed := tokenize_placed read
  have fits := (placed.tiles.standsIn t member).fits
  rcases placed.pieces t member with piece | ⟨value, is'⟩
  · rw [is] at piece
    rw [piece.symbol_eq]
    exact fits.isInfix.trans (drop_suffix _ _).isInfix
  · rw [is] at is'
    cases is'

end Token

/-! ## The same formula -/

theorem tokenize_of_sameKindsOn {text : String} (kinds : g.SameKindsOn g' text.toList) :
    tokenize g text = tokenize g' text := by
  unfold tokenize Token.tokenize Token.scan
  rw [Token.scanFrom_congr kinds]

theorem tokenize_congr {text : String} (agree : g.AgreeOn g' text.toList) :
    tokenize g text = tokenize g' text :=
  tokenize_of_sameKindsOn agree.sameKindsOn

namespace Formula

/-- Grammars that agree on a text read it alike: the parser asks for symbols of the tokens only. -/
theorem parse_congr {text : String} (agree : g.AgreeOn g' text.toList) :
    Formula.parse g text = Formula.parse g' text := by
  unfold Formula.parse
  rw [← tokenize_congr agree]
  cases read : tokenize g text with
  | error failure => simp only [bind, Except.bind]
  | ok tokens =>
    have same : ofTokens g tokens = ofTokens g' tokens := by
      refine (ofTokens_alike (P := (· ∈ tokens)) ?_ fun _ member => member).1
      intro t member op is
      have occurs := Token.symbol_occurs (tokenize_eq_ok_iff.mp read) member is
      unfold Grammar.lookup?
      rw [agree op occurs]
    simp only [bind, Except.bind, same]

/-- Operators whose symbols do not occur in a text can be registered and removed in
any order: the text gives the same tokens and the same formula, or fails alike. -/
theorem parse_foldl_change (g : Grammar ι) (changes : List (Grammar.Change ι)) (text : String)
    (unused : ∀ change ∈ changes, ¬ change.symbol.toList <:+: text.toList) :
    tokenize (changes.foldl Grammar.change g) text = tokenize g text ∧
      Formula.parse (changes.foldl Grammar.change g) text = Formula.parse g text := by
  have agree := g.agreeOn_foldl_change changes unused
  exact ⟨tokenize_congr agree, parse_congr agree⟩

/-- Changes of symbols that are in the stock grammar and of some that are not. -/
def mixedChanges : List (Grammar.Change Callable) :=
  [.removeOp "//", .addBinaryOp "===" Double.zero (.native "is_"), .addUnaryOp "in" (.native "abs"),
    .removeOp "===", .addUnaryOp "a2" (.native "neg")]

/-- The text is read, and as before the changes. -/
theorem parse_foldl_change_mixed :
    (∀ change ∈ mixedChanges, ¬ change.symbol.toList <:+: "a / - 2 == b".toList) ∧
      tokenize (mixedChanges.foldl Grammar.change Grammar.stock) "a / - 2 == b" =
        tokenize Grammar.stock "a / - 2 == b" ∧
      Formula.parse (mixedChanges.foldl Grammar.change Grammar.stock) "a / - 2 == b" =
        Formula.parse Grammar.stock "a / - 2 == b" ∧
      (Formula.parse Grammar.stock "a / - 2 == b").toBool = true := by
  have unused : ∀ change ∈ mixedChanges, ¬ change.symbol.toList <:+: "a / - 2 == b".toList := by
    decide
  obtain ⟨tokens, formula⟩ := parse_foldl_change Grammar.stock mixedChanges "a / - 2 == b" unused
  exact ⟨unused, tokens, formula, by decide +kernel⟩

end Formula

end JexlScript
