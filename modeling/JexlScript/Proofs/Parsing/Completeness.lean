import JexlScript.Proofs.Parsing.Steps

/-!
# What is derived the parser accepts

A list of tokens that the grammar derives is read to its end, whatever stands
behind it, as long as that cannot go on with what is read: `Ends` says what may
follow each part. The depth and the fuels of the parser count tokens, and a
nested part has fewer of them than the part around it.
-/

namespace JexlScript

open List

variable {ts rest : List Token} {m : Bool} {r : Rules} {e : Formula}

/-! ## Readers that read on -/

namespace Parse

variable {α β : Type}

/-- A reader takes some tokens with a result, whatever mark it starts with. `m` says whether the
mark is set then. -/
def Reads (p : Parse α) (ts rest : List Token) (m : Bool) (a : α) : Prop :=
  ∀ relative, p ⟨ts ++ rest, relative⟩ = .ok (a, ⟨rest, relative || m⟩)

variable {ts us rest : List Token} {m m' : Bool} {a : α} {b : β}

theorem Reads.pure : Reads (Pure.pure a) [] rest false a := by
  intro relative
  rw [Bool.or_false]
  rfl

/-- Readers one after the other take their tokens one after the other. -/
theorem Reads.bind {p : Parse α} {k : α → Parse β} (first : Reads p ts (us ++ rest) m a)
    (next : Reads (k a) us rest m' b) : Reads (p >>= k) (ts ++ us) rest (m || m') b := by
  intro relative
  rw [append_assoc, ← Bool.or_assoc]
  exact bind_eq_ok.mpr ⟨a, _, first relative, next _⟩

/-- A last step that takes nothing changes only the result. -/
theorem Reads.last {p : Parse α} {k : α → Parse β} (first : Reads p ts rest m a)
    (next : Reads (k a) [] rest false b) : Reads (p >>= k) ts rest m b := by
  intro relative
  refine bind_eq_ok.mpr ⟨a, _, first relative, ?_⟩
  simpa using next (relative || m)

/-- A step that only looks ahead changes nothing. -/
theorem Reads.look {p : Parse α} {k : α → Parse β}
    (looked : ∀ relative, p ⟨ts ++ rest, relative⟩ = .ok (a, ⟨ts ++ rest, relative⟩))
    (next : Reads (k a) ts rest m b) : Reads (p >>= k) ts rest m b :=
  fun relative => bind_eq_ok.mpr ⟨a, _, looked relative, next relative⟩

section

variable {kind : SymbolKind} {t : Token} {yes no : Parse α}

/-- The branch for a symbol is taken where the symbol comes next. -/
theorem Reads.ifSymbol (is : t.Is kind) (found : Reads yes us rest m a) :
    Reads (do if ← atSymbol kind then do { advance; yes } else no) (t :: us) rest m a := by
  have starts : startsWith kind (t :: us ++ rest) = true := startsWith_eq_true.mpr ⟨t, _, rfl, is⟩
  refine Reads.look (fun relative => (atSymbol_eq _ _).trans (by rw [starts])) fun relative => ?_
  exact bind_eq_ok.mpr ⟨(), _, rfl, found relative⟩

/-- The other branch is taken where it does not. -/
theorem Reads.ifOther (other : startsWith kind (ts ++ rest) = false) (found : Reads no ts rest m a) :
    Reads (do if ← atSymbol kind then do { advance; yes } else no) ts rest m a :=
  Reads.look (a := false) (fun relative => (atSymbol_eq _ _).trans (by rw [other])) found

theorem expectSymbol_reads (is : t.Is kind) (what : Expected) :
    Reads (expectSymbol kind what) [t] rest false () := by
  have starts : startsWith kind ([t] ++ rest) = true := startsWith_eq_true.mpr ⟨t, _, rfl, is⟩
  refine Reads.look (fun relative => (atSymbol_eq _ _).trans (by rw [starts])) fun relative => ?_
  rw [Bool.or_false]
  rfl

theorem Reads.expectSymbol {what : Expected} {k : Unit → Parse α} (is : t.Is kind)
    (next : Reads (k ()) us rest m a) :
    Reads (Parse.expectSymbol kind what >>= k) (t :: us) rest m a := by
  simpa using (expectSymbol_reads is what).bind next

theorem Reads.expectName {what : Expected} {name : String} {k : String → Parse α}
    (is : t.lexeme = .identifier name) (next : Reads (k name) us rest m a) :
    Reads (Parse.expectName what >>= k) (t :: us) rest m a := by
  obtain ⟨lexeme, raw, position⟩ := t
  cases is
  exact fun relative => bind_eq_ok.mpr ⟨name, _, rfl, next relative⟩

end

section

variable {item : Parse α} {as : List α} {fuel : Nat} {c : Token}

/-- A list ends with an item that no comma follows. -/
theorem commaSeparated_last (only : Reads item ts rest m a) (ends : startsWith .comma rest = false) :
    Reads (commaSeparated item (fuel + 1)) ts rest m [a] :=
  only.last (Reads.ifOther ends Reads.pure)

/-- A list goes on behind a comma. -/
theorem commaSeparated_more (comma : c.Is .comma) (first : Reads item ts (c :: us ++ rest) m a)
    (others : Reads (commaSeparated item fuel) us rest m' as) :
    Reads (commaSeparated item (fuel + 1)) (ts ++ c :: us) rest (m || m') (a :: as) :=
  first.bind (Reads.ifSymbol comma (others.last Reads.pure))

variable {close : SymbolKind}

theorem items_none (is : c.Is close) (what : Expected) :
    Reads (items item close what) [c] rest false [] := by
  have starts : startsWith close ([c] ++ rest) = true := startsWith_eq_true.mpr ⟨c, _, rfl, is⟩
  refine Reads.look (fun relative => (atSymbol_eq _ _).trans (by rw [starts])) ?_
  exact Reads.look (fun _ => rfl) (Reads.expectSymbol is Reads.pure)

/-- The fuel of a list counts the tokens up to its closing bracket, which is enough. -/
theorem items_some (is : c.Is close) (what : Expected)
    (open_ : startsWith close (ts ++ c :: rest) = false)
    (listed : ∀ fuel, ts.length < fuel → Reads (commaSeparated item fuel) ts (c :: rest) m as) :
    Reads (items item close what) (ts ++ [c]) rest m as := by
  have other : startsWith close (ts ++ [c] ++ rest) = false := by simpa using open_
  refine Reads.look (fun relative => (atSymbol_eq _ _).trans (by rw [other])) ?_
  intro relative
  refine bind_eq_ok.mpr ⟨_, _, rfl, ?_⟩
  have all := Reads.bind (k := fun as => do { expectSymbol close what; Pure.pure as })
    (listed ((ts ++ [c] ++ rest).length + 1) (by simp only [length_append]; omega))
    (Reads.expectSymbol is Reads.pure)
  simpa using all relative

end

end Parse

namespace Formula

open Parse

/-! ## What parts start with and what follows them -/

/-- What may stand behind an expression, apart from the end. -/
def closers : List SymbolKind := [.closeParen, .closeBracket, .closeCurl, .colon, .comma]

/-- The next token, if there is one, is of one of these kinds. -/
def Ends (kinds : List SymbolKind) (rest : List Token) : Prop :=
  ∀ t us, rest = t :: us → ∃ kind ∈ kinds, t.Is kind

theorem Ends.nil (kinds : List SymbolKind) : Ends kinds [] := by
  intro t us impossible
  cases impossible

theorem Ends.cons {kinds : List SymbolKind} {kind : SymbolKind} {t : Token} {us : List Token}
    (is : t.Is kind) (among : kind ∈ kinds) : Ends kinds (t :: us) := by
  intro t' us' same
  cases same
  exact ⟨kind, among, is⟩

/-- What ends one part may be among what ends another. -/
theorem Ends.mono {kinds kinds' : List SymbolKind} {rest : List Token} (ends : Ends kinds rest)
    (wider : kinds ⊆ kinds') : Ends kinds' rest := by
  intro t us same
  obtain ⟨kind, among, is⟩ := ends t us same
  exact ⟨kind, wider among, is⟩

/-- A symbol of another kind does not come next. -/
theorem Ends.startsWith {kinds : List SymbolKind} {kind : SymbolKind} {rest : List Token}
    (ends : Ends kinds rest) (other : kind ∉ kinds) : startsWith kind rest = false := by
  cases starts : Parse.startsWith kind rest with
  | false => rfl
  | true =>
    obtain ⟨t, us, same, is⟩ := startsWith_eq_true.mp starts
    obtain ⟨kind', among, is'⟩ := ends t us same
    exact absurd (is.unique is' ▸ among) other

/-- Whether a part holds at least one token. -/
def Part.isProper : Part → Bool
  | .links _ | .suffixes _ _ | .items _ => false
  | _ => true

/-- The kinds of symbols that a part never starts with. -/
def Part.excluded : Part → List SymbolKind
  | .primary _ => .unaryOp :: closers
  | _ => closers

/-- A proper part starts with a token that closes nothing, and a primary with no unary operator. -/
theorem Derives.opens {part : Part} {inside : Bool} {ts : List Token}
    (derived : Derives r part inside ts m) (proper : part.isProper = true) :
    ∃ t us, ts = t :: us ∧ ∀ kind ∈ part.excluded, ¬ t.Is kind := by
  -- a token that is no symbol, or one of another kind, opens the rest
  have word {kinds : List SymbolKind} {t : Token} (us : List Token)
      (other : ∀ kind text, t.lexeme ≠ .symbol kind text) :
      ∃ t' us', t :: us = t' :: us' ∧ ∀ kind ∈ kinds, ¬ t'.Is kind :=
    ⟨t, us, rfl, fun kind _ is => is.elim fun text same => other kind text same⟩
  have symbol {t : Token} {kind : SymbolKind} (us : List Token) (is : t.Is kind)
      (other : kind ∉ .unaryOp :: closers) :
      ∃ t' us', t :: us = t' :: us' ∧ ∀ kind ∈ .unaryOp :: closers, ¬ t'.Is kind :=
    ⟨t, us, rfl, fun kind' among is' => other (is.unique is' ▸ among)⟩
  have before {kinds : List SymbolKind} {ts us : List Token} (wider : closers ⊆ kinds)
      (opens : ∃ t vs, ts = t :: vs ∧ ∀ kind ∈ kinds, ¬ t.Is kind) :
      ∃ t vs, ts ++ us = t :: vs ∧ ∀ kind ∈ closers, ¬ t.Is kind := by
    obtain ⟨t, vs, rfl, other⟩ := opens
    exact ⟨t, vs ++ us, rfl, fun kind among => other kind (wider among)⟩
  have key {k : Token} {name : String} (us : List Token) (is : k.IsKey name) :
      ∃ t' us', k :: us = t' :: us' ∧ ∀ kind ∈ closers, ¬ t'.Is kind :=
    word us fun kind text same => by rcases is with is | is <;> rw [is] at same <;> cases same
  induction derived with
  | plain _ ih | lastItem _ ih => exact ih rfl
  | conditional _ _ _ _ _ ih | chain _ _ _ ih | moreItems _ _ _ ih =>
    exact before (List.Subset.refl _) (ih rfl)
  | prefixed is _ _ =>
    refine ⟨_, _, rfl, fun kind among is' => absurd among ?_⟩
    rw [is'.unique ⟨_, is⟩]
    exact (by decide : SymbolKind.unaryOp ∉ closers)
  | postfixed _ _ ih => exact before (subset_cons_self _ _) (ih rfl)
  | literal is | name is | call is => exact word _ (by simp [is])
  | relativeName dot _ => exact symbol _ dot (by decide)
  | group paren => exact symbol _ paren (by decide)
  | array bracket => exact symbol _ bracket (by decide)
  | noEntry curl | object curl => exact symbol _ curl (by decide)
  | negative _ minus _ => exact symbol _ ⟨"-", by simpa [Token.isMinus] using minus⟩ (by decide)
  | lastEntry isKey | moreEntries isKey => exact key _ isKey
  | noLink | link | noSuffix | field | filter | transform | transformArgs | noItem | someItems =>
    cases proper

theorem Part.closers_subset (part : Part) : closers ⊆ part.excluded := by
  cases part <;> simp [Part.excluded]

/-- So no closing symbol comes next where a proper part stands. -/
theorem Derives.startsWith_closer {part : Part} {inside : Bool} {kind : SymbolKind}
    (derived : Derives r part inside ts m) (proper : part.isProper = true) (closer : kind ∈ closers) :
    Parse.startsWith kind (ts ++ rest) = false := by
  obtain ⟨t, us, rfl, other⟩ := derived.opens proper
  cases starts : Parse.startsWith kind (t :: us ++ rest) with
  | false => rfl
  | true =>
    obtain ⟨_, _, same, is⟩ := startsWith_eq_true.mp starts
    cases same
    exact absurd is (other kind (part.closers_subset closer))

/-- No suffix starts with a parenthesis: that would make the operand a call. -/
theorem Derives.suffixes_startsWith {s f : Formula} {inside : Bool}
    (derived : Derives r (.suffixes s f) inside ts m)
    (other : Parse.startsWith .openParen rest = false) :
    Parse.startsWith .openParen (ts ++ rest) = false := by
  cases derived with
  | noSuffix => exact other
  | field dot => exact startsWith_other dot (by decide)
  | filter bracket => exact startsWith_other bracket (by decide)
  | transform pipe | transformArgs pipe => exact startsWith_other pipe (by decide)

/-- Behind an operand comes an operator or what ends the chain. -/
theorem Derives.links_ends {ls : List (String × Formula)} {inside : Bool}
    (derived : Derives r (.links ls) inside ts m) (ends : Ends (.question :: closers) rest) :
    Ends (.binaryOp :: .question :: closers) (ts ++ rest) := by
  cases derived with
  | noLink => exact ends.mono (subset_cons_self _ _)
  | link is => exact Ends.cons ⟨_, is⟩ (mem_cons_self)

/-- No unary operator stands before a primary. -/
theorem Derives.primary_unaryOps {f : Formula} {inside : Bool}
    (derived : Derives r (.primary f) inside ts m) : unaryOps (ts ++ rest) = [] := by
  obtain ⟨t, us, rfl, other⟩ := derived.opens rfl
  exact unaryOps_eq_nil fun op same => other .unaryOp mem_cons_self ⟨op, same⟩

/-! ## The layers -/

/-- A reader of primaries reads what the plain one does, unless a minus comes first. -/
theorem TakesPrimaries.reads {signs : Bool} {first : PrimaryReader} {inner : Bool → Parse Formula}
    {inside : Bool} {t : Token} {us rest : List Token} {f : Formula} {p : Parse Formula}
    (takes : TakesPrimaries signs first) (plain : t.isMinus = false)
    (same : ∀ relative, primary inner inside ⟨t :: (us ++ rest), relative⟩ = p ⟨us ++ rest, relative⟩)
    (read : Reads p us rest m f) : Reads (first inner inside) (t :: us) rest m f := fun relative =>
  (takes.plain _ _ _ _ _ plain).trans ((same relative).trans (read relative))

section

variable {ι : Type} (g : Grammar ι) (first : PrimaryReader)

/-- The reader of operands, with nested expressions of a given depth. -/
def operandAt (depth : Nat) (inside : Bool) : Parse Formula :=
  operand (expression g first depth) inside (first (expression g first depth) inside)

/-- What it means for the parser to read a part: with enough depth and fuel, before anything that
cannot go on with it. -/
def Part.Read : Part → (inside : Bool) → List Token → (relative : Bool) → Prop
  | .expression f, inside, ts, m => ∀ depth rest, ts.length ≤ depth → Ends closers rest →
      Reads (Formula.expression g first depth inside) ts rest m f
  | .binary f, inside, ts, m => ∀ depth rest, ts.length ≤ depth + 1 →
      Ends (.question :: closers) rest →
        Reads (chain g (operandAt g first depth inside)) ts rest m f
  | .links ls, inside, ts, m => ∀ (links : List Link), (links.map fun l => (l.op, l.operand)) = ls →
      ∀ held, Linked g held links →
      ∀ depth fuel rest, ts.length ≤ depth + 1 → ts.length ≤ fuel →
        Ends (.question :: closers) rest →
        Reads (Formula.links g (operandAt g first depth inside) fuel held) ts rest m links
  | .unary f, inside, ts, m => ∀ depth rest, ts.length ≤ depth + 1 →
      Ends (.binaryOp :: .question :: closers) rest →
      Reads (operandAt g first depth inside) ts rest m f
  | .suffixes s f, inside, ts, m => ∀ depth fuel rest, ts.length ≤ depth + 1 → ts.length ≤ fuel →
      Ends (.binaryOp :: .question :: closers) rest →
      Reads (Formula.suffixes (Formula.expression g first depth) inside fuel s) ts rest m f
  | .primary f, inside, ts, m => ∀ depth rest, ts.length ≤ depth + 1 →
      Parse.startsWith .openParen rest = false →
      Reads (first (Formula.expression g first depth) inside) ts rest m f
  | .items es, inside, ts, m => ∀ depth rest (c : Token) close what, ts.length ≤ depth →
      close ∈ closers → close ≠ .comma → c.Is close →
      Reads (Parse.items (Formula.expression g first depth inside) close what) (ts ++ [c]) rest m es
  | .listed es, inside, ts, m => ∀ depth fuel rest, ts.length ≤ depth → ts.length < fuel →
      Ends closers rest → Parse.startsWith .comma rest = false →
      Reads (commaSeparated (Formula.expression g first depth inside) fuel) ts rest m es
  | .entries ps, inside, ts, m => ∀ depth fuel rest, ts.length ≤ depth → ts.length < fuel →
      Ends closers rest → Parse.startsWith .comma rest = false →
      Reads (commaSeparated (entry (Formula.expression g first depth) inside) fuel) ts rest m ps

end

section

variable {ι : Type} {g : Grammar ι} {first : PrimaryReader} {inside : Bool}
  {ts us rest : List Token} {m m' : Bool}

theorem operandAt_shortens {signs : Bool} (takes : TakesPrimaries signs first) (depth : Nat)
    (inside : Bool) : Shortens (operandAt g first depth inside) :=
  operand_shortens (expression_shortens g takes depth) inside
    (takes.shortens (expression_shortens g takes depth) inside)

/-- Unary operators stack up before an operand. -/
theorem unary_reads {op : String} {o : Token} {depth : Nat} (is : o.lexeme = .symbol .unaryOp op)
    (read : Reads (operandAt g first depth inside) ts rest m e) :
    Reads (operandAt g first depth inside) (o :: ts) rest m (.unary op e) := by
  obtain ⟨lexeme, raw, position⟩ := o
  cases is
  intro relative
  obtain ⟨_, _, got, next⟩ := bind_eq_ok.mp (read relative)
  cases got
  obtain ⟨_, _, dropped, next⟩ := bind_eq_ok.mp next
  obtain ⟨start, c, ran, next⟩ := bind_eq_ok.mp next
  obtain ⟨_, _, got, next⟩ := bind_eq_ok.mp next
  obtain ⟨e', c', ran', next⟩ := bind_eq_ok.mp next
  cases next
  refine bind_eq_ok.mpr ⟨_, _, rfl, bind_eq_ok.mpr ⟨_, _, dropped, ?_⟩⟩
  refine bind_eq_ok.mpr ⟨_, _, ran, bind_eq_ok.mpr ⟨_, _, got, ?_⟩⟩
  exact bind_eq_ok.mpr ⟨_, _, ran', rfl⟩

/-- An operand is a primary with its suffixes. -/
theorem postfix_reads {start e : Formula} {depth : Nat} (bare : unaryOps (ts ++ us ++ rest) = [])
    (primary : Reads (first (expression g first depth) inside) ts (us ++ rest) m start)
    (suffixes : Reads (suffixes (expression g first depth) inside (us ++ rest).length start)
      us rest m' e) :
    Reads (operandAt g first depth inside) (ts ++ us) rest (m || m') e := by
  intro relative
  refine bind_eq_ok.mpr ⟨_, _, rfl, bind_eq_ok.mpr ⟨_, _, rfl, ?_⟩⟩
  rw [bare, ← Bool.or_assoc, append_assoc]
  refine bind_eq_ok.mpr ⟨_, _, primary relative, bind_eq_ok.mpr ⟨_, _, rfl, ?_⟩⟩
  exact bind_eq_ok.mpr ⟨_, _, suffixes _, rfl⟩

/-- A chain is read as a list of links and then given its shape. -/
theorem chain_reads {operand : Parse Formula} (shortens : Shortens operand) {links : List Link}
    (first : Reads operand ts (us ++ rest) m e)
    (others : Reads (Formula.links g operand (us ++ rest).length false) us rest m' links) :
    Reads (chain g operand) (ts ++ us) rest (m || m') (climb e [] links) := by
  rw [chain_eq shortens]
  refine first.bind fun relative => ?_
  exact bind_eq_ok.mpr ⟨_, _, rfl, bind_eq_ok.mpr ⟨_, _, others relative, rfl⟩⟩

theorem binaryOp?_none {c : Cursor} (other : startsWith .binaryOp c.rest = false) :
    binaryOp? g c = .ok (none, c) := by
  unfold binaryOp?
  split
  · next same => simp [same, startsWith] at other
  · rfl

theorem links_read_none {operand : Parse Formula} {fuel : Nat} {held : Bool}
    (other : startsWith .binaryOp rest = false) :
    Reads (links g operand fuel held) [] rest false [] := by
  intro relative
  rw [Bool.or_false]
  exact links_none (binaryOp?_none other) fuel held

/-- A link is an operator that may be taken here, with its operand. -/
theorem links_read_some {operand : Parse Formula} {fuel : Nat} {held : Bool} {o : Token} {l : Link}
    {ls : List Link} (is : o.lexeme = .symbol .binaryOp l.op)
    (joinable : Joinable g held l.op l.precedence)
    (one : Reads operand ts (us ++ rest) m l.operand)
    (others : Reads (links g operand fuel (held || l.precedence.isNaN)) us rest m' ls) :
    Reads (links g operand (fuel + 1) held) (o :: (ts ++ us)) rest (m || m') (l :: ls) := by
  intro relative
  rw [links_take (binaryOp?_some is joinable.1 rfl) joinable.2]
  refine bind_eq_ok.mpr ⟨(), _, rfl, one.bind ?_ relative⟩
  exact Reads.last others Reads.pure

/-- The mark that a filter sets for its contents is not passed on. -/
theorem filterContents_reads {inner : Bool → Parse Formula} (read : Reads (inner true) ts rest m e) :
    Reads (filterContents inner) ts rest false (e, m) := by
  intro relative
  refine bind_eq_ok.mpr ⟨_, _, rfl, bind_eq_ok.mpr ⟨_, _, rfl, ?_⟩⟩
  refine bind_eq_ok.mpr ⟨_, _, read false, bind_eq_ok.mpr ⟨_, _, rfl, ?_⟩⟩
  simp only [Bool.false_or, Bool.or_false]
  rfl

theorem entry_reads {inner : Bool → Parse Formula} {key : String} {k c : Token}
    (isKey : k.IsKey key) (colon : c.Is .colon) (value : Reads (inner inside) ts rest m e) :
    Reads (entry inner inside) (k :: c :: ts) rest m (key, e) := by
  have keyed : Reads objectKey [k] (c :: ts ++ rest) false key := by
    obtain ⟨lexeme, raw, position⟩ := k
    intro relative
    rw [Bool.or_false]
    rcases isKey with is | is
    · cases is
      rfl
    · cases is
      rfl
  refine keyed.bind (Reads.expectSymbol colon ?_)
  exact Reads.last value Reads.pure

/-- An operand ends before an operator or what ends the chain. -/
theorem suffixes_none {depth fuel : Nat} {subject : Formula}
    (ends : Ends (.binaryOp :: .question :: closers) rest) :
    Reads (suffixes (expression g first depth) inside fuel subject) [] rest false subject := by
  cases fuel with
  | zero => exact Reads.pure
  | succ fuel =>
    exact Reads.ifOther (ends.startsWith (by decide)) (Reads.ifOther (ends.startsWith (by decide))
      (Reads.ifOther (ends.startsWith (by decide)) Reads.pure))

end

/-- The reader of a part takes exactly the tokens that the part is derived from. -/
theorem Derives.read {ι : Type} {g : Grammar ι} {first : PrimaryReader} {signs : Bool}
    (takes : TakesPrimaries signs first) {part : Part} {inside : Bool} {ts : List Token}
    (derived : Derives ⟨Climbs g, signs⟩ part inside ts m) : part.Read g first inside ts m := by
  induction derived with
  | plain test ih =>
    intro depth rest enough ends
    obtain ⟨t, us, rfl, _⟩ := test.opens rfl
    cases depth with
    -- Every level takes a token at least, so the depth is not used up before the tokens are.
    | zero => simp at enough
    | succ depth =>
      refine Reads.last (ih depth rest enough (ends.mono (subset_cons_self _ _))) ?_
      exact Reads.ifOther (ends.startsWith (by decide)) Reads.pure
  | conditional test question _ colon _ tested consequent alternate =>
    intro depth rest enough ends
    cases depth with
    | zero => simp at enough
    | succ depth =>
      simp only [length_append, length_cons] at enough
      refine Reads.bind (tested depth _ (by omega) (Ends.cons question mem_cons_self)) ?_
      refine Reads.ifSymbol question (Reads.bind (consequent depth _ (by omega) ?_) ?_)
      · exact Ends.cons colon (by decide)
      · exact Reads.expectSymbol colon
          (Reads.last (alternate depth rest (by omega) ends) Reads.pure)
  | chain _ links joins operand others =>
    intro depth rest enough ends
    -- How the operands are joined is not read but computed from the links.
    obtain ⟨ls, rfl, linked, rfl⟩ := joins
    simp only [length_append] at enough
    exact chain_reads (operandAt_shortens takes depth _)
      (operand depth _ (by omega) (links.links_ends ends))
      (others ls rfl false linked depth _ rest (by omega) (by simp) ends)
  -- The loops over links, suffixes and items count down, and there are fewer of each than tokens.
  | noLink =>
    intro links none _ _ depth fuel rest _ _ ends
    cases map_eq_nil_iff.mp none
    exact links_read_none (ends.startsWith (by decide))
  | link is _ links operand others =>
    intro ls some held linked depth fuel rest enough fueled ends
    cases ls with
    | nil => cases some
    | cons l ls =>
      cases some
      cases fuel with
      | zero => simp at fueled
      | succ fuel =>
        simp only [length_append, length_cons] at enough fueled
        exact links_read_some is linked.1 (operand depth _ (by omega) (links.links_ends ends))
          (others ls rfl _ linked.2 depth fuel rest (by omega) (by omega) ends)
  | prefixed is _ ih =>
    intro depth rest enough ends
    simp only [length_cons] at enough
    exact unary_reads is (ih depth rest (by omega) ends)
  | postfixed primary suffixes start others =>
    intro depth rest enough ends
    simp only [length_append] at enough
    -- No primary starts with a unary operator.
    refine postfix_reads (by simpa using primary.primary_unaryOps) (start depth _ (by omega) ?_)
      (others depth _ rest (by omega) (by simp) ends)
    exact suffixes.suffixes_startsWith (ends.startsWith (by decide))
  | noSuffix =>
    intro depth fuel rest _ _ ends
    exact suffixes_none ends
  | field dot is _ ih =>
    intro depth fuel rest enough fueled ends
    cases fuel with
    | zero => simp at fueled
    | succ fuel =>
      simp only [length_cons] at enough fueled
      exact Reads.ifSymbol dot
        (Reads.expectName is (ih depth fuel rest (by omega) (by omega) ends))
  | filter bracket _ close _ ih others =>
    intro depth fuel rest enough fueled ends
    cases fuel with
    | zero => simp at fueled
    | succ fuel =>
      simp only [length_cons, length_append] at enough fueled
      -- A suffix is told by its first token: a dot, a bracket or a pipe.
      refine Reads.ifOther (startsWith_other bracket (by decide)) (Reads.ifSymbol bracket ?_)
      refine Reads.bind (filterContents_reads (ih depth _ (by omega) ?_))
        (Reads.expectSymbol close ?_)
      · exact Ends.cons close (by decide)
      exact others depth fuel rest (by omega) (by omega) ends
  | transform pipe is suffixes ih =>
    intro depth fuel rest enough fueled ends
    cases fuel with
    | zero => simp at fueled
    | succ fuel =>
      simp only [length_cons] at enough fueled
      refine Reads.ifOther (startsWith_other pipe (by decide))
        (Reads.ifOther (startsWith_other pipe (by decide)) (Reads.ifSymbol pipe ?_))
      refine Reads.expectName is (Reads.ifOther ?_ ?_)
      · exact suffixes.suffixes_startsWith (ends.startsWith (by decide))
      · exact ih depth fuel rest (by omega) (by omega) ends
  | transformArgs pipe is paren _ close _ items others =>
    intro depth fuel rest enough fueled ends
    cases fuel with
    | zero => simp at fueled
    | succ fuel =>
      simp only [length_cons, length_append] at enough fueled
      refine Reads.ifOther (startsWith_other pipe (by decide))
        (Reads.ifOther (startsWith_other pipe (by decide)) (Reads.ifSymbol pipe ?_))
      refine Reads.expectName is (Reads.ifSymbol paren ?_)
      rw [append_cons]
      refine Reads.bind (items depth _ _ _ _ (by omega) (by decide) (by decide) close) ?_
      exact others depth fuel rest (by omega) (by omega) ends
  | literal is =>
    intro depth rest _ _
    -- A reader that joins signs looks for a minus first, and there is none.
    refine takes.reads (by simp [Token.isMinus, is]) (fun _ => primary_literal is) ?_
    exact Reads.pure
  | name is =>
    intro depth rest _ other
    refine takes.reads (by simp [Token.isMinus, is]) (fun _ => primary_identifier is) ?_
    exact Reads.ifOther other Reads.pure
  | call is paren _ close ih =>
    intro depth rest enough _
    simp only [length_cons, length_append] at enough
    refine takes.reads (by simp [Token.isMinus, is]) (fun _ => primary_identifier is) ?_
    refine Reads.ifSymbol paren
      (Reads.last (ih depth rest _ _ _ (by omega) ?_ ?_ close) Reads.pure)
    · decide
    · decide
  | relativeName dot is =>
    intro depth rest _ _
    refine takes.reads (dot.isMinus (by decide)) (fun _ => primary_dot dot) ?_
    exact Reads.expectName is fun relative => by rw [Bool.or_true]; rfl
  | @group _ _ _ m _ _ paren _ close ih =>
    intro depth rest enough _
    simp only [length_cons, length_append] at enough
    refine takes.reads (paren.isMinus (by decide)) (fun _ => primary_openParen paren) ?_
    -- The closing parenthesis adds no mark of its own.
    rw [← Bool.or_false m]
    refine Reads.bind (ih depth _ (by omega) ?_) ?_
    · exact Ends.cons close (by decide)
    · exact Reads.expectSymbol close Reads.pure
  | array bracket _ close ih =>
    intro depth rest enough _
    simp only [length_cons, length_append] at enough
    refine takes.reads (bracket.isMinus (by decide)) (fun _ => primary_openBracket bracket) ?_
    exact Reads.last (ih depth rest _ _ _ (by omega) (by decide) (by decide) close) Reads.pure
  | noEntry curl close =>
    intro depth rest _ _
    refine takes.reads (curl.isMinus (by decide)) (fun _ => primary_openCurl curl) ?_
    exact Reads.last (items_none close _) Reads.pure
  | object curl entries close ih =>
    intro depth rest enough _
    simp only [length_cons, length_append] at enough
    refine takes.reads (curl.isMinus (by decide)) (fun _ => primary_openCurl curl) ?_
    refine Reads.last (items_some close _ ?_ fun fuel fueled => ?_) Reads.pure
    · exact entries.startsWith_closer rfl (by decide)
    · exact ih depth fuel _ (by omega) fueled (Ends.cons close (by decide))
        (startsWith_other close (by decide))
  | negative signed minus number =>
    -- Only a reader that joins signs takes a negative number.
    intro depth rest _ _ relative
    rw [Bool.or_false]
    exact (takes.minus _ _ _ _ _ _ _ minus).mpr ⟨signed, _, _, rfl, number, rfl, rfl⟩
  | noItem =>
    intro depth rest c close what _ _ _ is
    exact items_none is what
  | someItems listed ih =>
    intro depth rest c close what enough among other is
    refine items_some is what ?_ fun fuel fueled => ?_
    · exact listed.startsWith_closer rfl among
    · exact ih depth fuel _ enough fueled (Ends.cons is among) (startsWith_other is other.symm)
  | lastItem _ ih =>
    intro depth fuel rest enough fueled ends last
    cases fuel with
    | zero => simp at fueled
    | succ fuel => exact commaSeparated_last (ih depth rest enough ends) last
  | moreItems _ comma _ ih others =>
    intro depth fuel rest enough fueled ends last
    cases fuel with
    | zero => simp at fueled
    | succ fuel =>
      simp only [length_cons, length_append] at enough fueled
      exact commaSeparated_more comma (ih depth _ (by omega) (Ends.cons comma (by decide)))
        (others depth fuel rest (by omega) (by omega) ends last)
  | lastEntry isKey colon _ ih =>
    intro depth fuel rest enough fueled ends last
    cases fuel with
    | zero => simp at fueled
    | succ fuel =>
      simp only [length_cons] at enough
      exact commaSeparated_last (entry_reads isKey colon (ih depth rest (by omega) ends)) last
  | moreEntries isKey colon _ comma _ ih others =>
    intro depth fuel rest enough fueled ends last
    cases fuel with
    | zero => simp at fueled
    | succ fuel =>
      simp only [length_cons, length_append] at enough fueled
      refine commaSeparated_more comma (entry_reads isKey colon (ih depth _ (by omega) ?_))
        (others depth fuel rest (by omega) (by omega) ends last)
      exact Ends.cons comma (by decide)

end Formula

end JexlScript
