import JexlScript.Proofs.Parsing.Acceptance

/-!
# Joining signs to numbers

A minus can be told to be a sign in two ways: before the tokens are parsed, from
the token that stands before it, or by the parser, where an operand is due.
`parse_eq_ok_iff_parseSigned` says that both give the same formulas.

A derivation knows where an operand is due, and there the joining of tokens
finds a sign due as well (`Derives.folds`). The other way round, each joined
token stands in a derivation as a literal, in whose place the minus and the
number may stand (`Derives.unfolds`).
-/

namespace JexlScript

namespace Formula

open Parse

/-! ## Signs in the parser -/

/-- Reads a minus before a number as its sign. -/
def signedPrimary : PrimaryReader := fun inner inside c =>
  match c.rest with
  | t :: u :: rest =>
    match u.number with
    | some v =>
      if t.isMinus then .ok (.literal (.double v.neg), { c with rest })
      else primary inner inside c
    | none => primary inner inside c
  | _ => primary inner inside c

/-- The formula that a text spells, where the signs of numbers are left to the
parser. -/
def parseSigned {ι : Type} (g : Grammar ι) (text : String) : Except ReadFailure Formula := do
  let tokens ← (Token.scan g text.toList).mapError ReadFailure.ofScan
  (ofTokensWith g signedPrimary tokens).mapError (ReadFailure.ofParse text.toList.length)

/-- It reads primaries, signed numbers among them. -/
theorem signedPrimary_takesPrimaries : TakesPrimaries true signedPrimary where
  empty := by
    intro inner inside relative outcome ran
    cases ran
  plain := by
    intro inner inside t ts relative other
    cases ts with
    | nil => rfl
    | cons u ts => cases number : u.number <;> simp [signedPrimary, number, other]
  minus := by
    intro inner inside t ts relative f c is
    obtain ⟨rest, relative'⟩ := c
    cases ts with
    | nil => simp [signedPrimary, primary_minus is]
    | cons u ts =>
      cases number : u.number with
      | none => simp [signedPrimary, number, primary_minus is]
      | some v =>
        simp only [signedPrimary, number, is, if_true]
        constructor
        · rintro ⟨⟩
          exact ⟨trivial, u, v, rfl, number, rfl, rfl⟩
        · rintro ⟨_, u', v', same, number', rfl, rfl⟩
          cases same
          cases number.symm.trans number'
          rfl

end Formula

/-! ## Folding by parts -/

namespace Token

/-- The symbols behind which a minus is a sign. -/
def signDue (kind : SymbolKind) : Bool :=
  [SymbolKind.binaryOp, .unaryOp, .openParen, .openBracket, .question, .colon, .comma].contains kind

theorem Is.number {t : Token} {kind : SymbolKind} (is : t.Is kind) : t.number = none := by
  obtain ⟨text, lexeme⟩ := is
  simp [Token.number, lexeme]

theorem IsKey.isWord {t : Token} {key : String} (is : t.IsKey key) (kind : SymbolKind) :
    ¬ t.Is kind := by
  rintro ⟨text, lexeme⟩
  rcases is with is | is <;> rw [is] at lexeme <;> cases lexeme

theorem IsKey.number {t : Token} {key : String} (is : t.IsKey key) : t.number = none := by
  rcases is with is | is <;> simp [Token.number, is]

/-- Whether a minus is a sign depends on the kind of symbol before it. -/
theorem signFollows_symbol {t : Token} {kind : SymbolKind} (is : t.Is kind) :
    signFollows (some t) = signDue kind := by
  obtain ⟨text, lexeme⟩ := is
  simp [signFollows, lexeme, signDue]

/-- Behind a word or a literal a minus is an operator. -/
theorem signFollows_word {t : Token} (other : ∀ kind, ¬ t.Is kind) :
    signFollows (some t) = false := by
  obtain ⟨lexeme, raw, position⟩ := t
  cases lexeme with
  | symbol kind text => exact absurd ⟨text, rfl⟩ (other kind)
  | literal _ => rfl
  | identifier _ => rfl

/-- The tokens at the start of a list are folded to others, whatever stands
behind them: `due` says whether a minus at the start is a sign, and `after` the
same of one behind the tokens. A minus that is kept is no sign. -/
inductive Folds (text : List Char) : (due : Bool) → List Token → List Token → (after : Bool) → Prop
  | nil (due : Bool) : Folds text due [] [] due
  | keep {due t ts us after} : due = false ∨ t.isMinus = false →
      Folds text (signFollows (some t)) ts us after → Folds text due (t :: ts) (t :: us) after
  | sign {t u v ts us after} : t.isMinus = true → u.number = some v → Folds text false ts us after →
      Folds text true (t :: u :: ts) (signed text t u v :: us) after

variable {text : List Char} {due due' after : Bool} {ts ts' us us' : List Token}

/-- Tokens are folded one part after the other. -/
theorem Folds.append (first : Folds text due ts us due') (next : Folds text due' ts' us' after) :
    Folds text due (ts ++ ts') (us ++ us') after := by
  induction first with
  | nil => exact next
  | keep kept _ ih => exact .keep kept (ih next)
  | sign minus number _ ih => exact .sign minus number (ih next)

theorem Folds.symbol {t : Token} {kind : SymbolKind} (is : t.Is kind)
    (kept : due = false ∨ kind ≠ .binaryOp) : Folds text due [t] [t] (signDue kind) := by
  rw [← signFollows_symbol is]
  exact .keep (kept.imp_right is.isMinus) (.nil _)

theorem Folds.word {t : Token} (other : ∀ kind, ¬ t.Is kind) : Folds text due [t] [t] false := by
  have plain : t.isMinus = false := by
    cases minus : t.isMinus with
    | false => rfl
    | true => exact absurd ⟨"-", by simpa [isMinus] using minus⟩ (other .binaryOp)
  rw [← signFollows_word other]
  exact .keep (.inr plain) (.nil _)

/-- A token that is no sign is kept. -/
theorem foldSigns_keep {before : Option Token} {t : Token} (ts : List Token)
    (kept : signFollows before = false ∨ t.isMinus = false) :
    foldSigns text before (t :: ts) = t :: foldSigns text (some t) ts := by
  cases ts with
  | nil => rfl
  | cons u ts =>
    cases number : u.number <;> rcases kept with kept | kept <;> simp [foldSigns, number, kept]

/-- What is folded by the rules is what is folded by the program. -/
theorem Folds.foldSigns (before : Option Token)
    (folds : Folds text (signFollows before) ts us after) (rest : List Token) :
    ∃ last, signFollows last = after ∧
      foldSigns text before (ts ++ rest) = us ++ foldSigns text last rest := by
  generalize is : signFollows before = due at folds
  induction folds generalizing before with
  | nil => exact ⟨before, is, rfl⟩
  | @keep due t ts us after kept _ ih =>
    obtain ⟨last, signs, folded⟩ := @ih (some t) rfl
    exact ⟨last, signs, by simp [foldSigns_keep _ (is ▸ kept), folded]⟩
  | @sign t u v ts us after minus number _ ih =>
    obtain ⟨last, signs, folded⟩ := @ih (some (signed text t u v)) rfl
    exact ⟨last, signs, by simp [Token.foldSigns, number, minus, is, folded]⟩

/-- A list is folded to another: each token of the other one is kept, or joins a
minus and a number. -/
inductive Unfolds (text : List Char) : List Token → List Token → Prop
  | nil : Unfolds text [] []
  | keep {t us ts} : Unfolds text us ts → Unfolds text (t :: us) (t :: ts)
  | sign {t u v us ts} : t.isMinus = true → u.number = some v → Unfolds text us ts →
      Unfolds text (signed text t u v :: us) (t :: u :: ts)

/-- Each folded token stands for itself, or for a minus and a number. -/
theorem foldSigns_unfolds (text : List Char) (before : Option Token) (ts : List Token) :
    Unfolds text (foldSigns text before ts) ts := by
  fun_induction foldSigns text before ts with
  | case1 => exact .nil
  | case2 => exact .keep .nil
  | case3 before t u ts v number signs joined ih =>
    exact .sign (Bool.and_eq_true_iff.mp signs).1 number ih
  | case4 before t u ts v number signs ih => exact .keep ih
  | case5 before t u ts number ih => exact .keep ih

/-- The same of the lexemes only: each token stands for one like it, or for a minus
and a number. -/
inductive Spells : List Token → List Token → Prop
  | nil : Spells [] []
  | keep {t t' us ts} : t'.lexeme = t.lexeme → Spells us ts → Spells (t :: us) (t' :: ts)
  | sign {s t u v us ts} : s.lexeme = .literal (.double (Double.neg v)) → t.isMinus = true →
      u.number = some v → Spells us ts → Spells (s :: us) (t :: u :: ts)

theorem Unfolds.spells {ts us us' : List Token} (unfolds : Unfolds text us ts)
    (same : us'.map Token.lexeme = us.map Token.lexeme) : Spells us' ts := by
  induction unfolds generalizing us' with
  | nil =>
    rw [List.map_eq_nil_iff.mp same]
    exact .nil
  | keep _ ih =>
    obtain ⟨s, us', rfl, lexeme, others⟩ := List.map_eq_cons_iff.mp same
    exact .keep lexeme.symm (ih others)
  | sign minus number _ ih =>
    obtain ⟨s, us', rfl, lexeme, others⟩ := List.map_eq_cons_iff.mp same
    exact .sign lexeme minus number (ih others)

/-- What two lists spell together can be cut where the one ends. -/
theorem Spells.append_inv {ts : List Token} (spells : Spells (us ++ us') ts) :
    ∃ vs vs', ts = vs ++ vs' ∧ Spells us vs ∧ Spells us' vs' := by
  induction us generalizing ts with
  | nil => exact ⟨[], ts, rfl, .nil, spells⟩
  | cons t us ih =>
    cases spells with
    | keep same others =>
      obtain ⟨vs, vs', rfl, first, next⟩ := ih others
      exact ⟨_ :: vs, vs', rfl, .keep same first, next⟩
    | sign same minus number others =>
      obtain ⟨vs, vs', rfl, first, next⟩ := ih others
      exact ⟨_ :: _ :: vs, vs', rfl, .sign same minus number first, next⟩

/-- Only a number may be spelled by more than one token. -/
theorem Spells.cons_inv {t : Token} (other : t.number = none) (spells : Spells (t :: us) ts) :
    ∃ t' vs, ts = t' :: vs ∧ t'.lexeme = t.lexeme ∧ Spells us vs := by
  cases spells with
  | keep same others => exact ⟨_, _, rfl, same, others⟩
  | sign same => simp [number, same] at other

theorem Spells.symbol_inv {t : Token} {kind : SymbolKind} (is : t.Is kind)
    (spells : Spells (t :: us) ts) : ∃ t' vs, ts = t' :: vs ∧ t'.Is kind ∧ Spells us vs := by
  obtain ⟨t', vs, rfl, same, others⟩ := spells.cons_inv is.number
  exact ⟨t', vs, rfl, is.imp fun _ => same.trans, others⟩

theorem Spells.name_inv {t : Token} {name : String} (is : t.lexeme = .identifier name)
    (spells : Spells (t :: us) ts) :
    ∃ t' vs, ts = t' :: vs ∧ t'.lexeme = .identifier name ∧ Spells us vs := by
  obtain ⟨t', vs, rfl, same, others⟩ := spells.cons_inv (IsKey.number (.inl is))
  exact ⟨t', vs, rfl, same.trans is, others⟩

theorem Spells.key_inv {t : Token} {key : String} (is : t.IsKey key)
    (spells : Spells (t :: us) ts) : ∃ t' vs, ts = t' :: vs ∧ t'.IsKey key ∧ Spells us vs := by
  obtain ⟨t', vs, rfl, same, others⟩ := spells.cons_inv is.number
  exact ⟨t', vs, rfl, is.imp same.trans same.trans, others⟩

theorem Spells.snoc_inv {t : Token} {kind : SymbolKind} (is : t.Is kind)
    (spells : Spells (us ++ [t]) ts) :
    ∃ vs t', ts = vs ++ [t'] ∧ Spells us vs ∧ t'.Is kind := by
  obtain ⟨vs, vs', rfl, first, next⟩ := spells.append_inv
  obtain ⟨t', ws, rfl, is', nothing⟩ := next.symbol_inv is
  cases nothing
  exact ⟨vs, t', rfl, first, is'⟩

end Token

namespace Formula

/-! ## From the parser's signs to joined tokens -/

/-- What it means that the tokens of a part can be folded, with a sign due where the part may
start with one. -/
def Part.Folds (joins : Formula → List (String × Formula) → Formula → Prop) (text : List Char)
    (part : Part) (inside : Bool) (ts : List Token) (m : Bool) : Prop :=
  match part with
  | .links _ | .suffixes _ _ =>
    ∃ us, Token.Folds text false ts us false ∧ Derives ⟨joins, false⟩ part inside us m
  | .items _ =>
    ∃ us after, Token.Folds text true ts us after ∧ Derives ⟨joins, false⟩ part inside us m
  | .entries _ =>
    ∀ due, ∃ us, Token.Folds text due ts us false ∧ Derives ⟨joins, false⟩ part inside us m
  | _ => ∃ us, Token.Folds text true ts us false ∧ Derives ⟨joins, false⟩ part inside us m

/-- Where a derivation takes a minus as a sign, folding finds a sign due. -/
theorem Derives.folds {joins : Formula → List (String × Formula) → Formula → Prop}
    {signs : Bool} (text : List Char) {part : Part} {inside : Bool} {ts : List Token} {m : Bool}
    (derived : Derives ⟨joins, signs⟩ part inside ts m) : part.Folds joins text inside ts m := by
  have symbol {t : Token} {kind : SymbolKind} {due : Bool} (is : t.Is kind)
      (other : kind ≠ .binaryOp) : Token.Folds text due [t] [t] (Token.signDue kind) :=
    .symbol is (.inr other)
  have name {t : Token} {name : String} {due : Bool} (is : t.lexeme = .identifier name) :
      Token.Folds text due [t] [t] false :=
    .word (Token.IsKey.isWord (.inl is))
  induction derived with
  | plain _ ih =>
    obtain ⟨us, folds, derived⟩ := ih
    exact ⟨us, folds, .plain derived⟩
  | conditional _ question _ colon _ test consequent alternate =>
    obtain ⟨us, folds, test⟩ := test
    obtain ⟨us', folds', consequent⟩ := consequent
    obtain ⟨us'', folds'', alternate⟩ := alternate
    refine ⟨_, ?_, .conditional test question consequent colon alternate⟩
    exact folds.append ((symbol question (by decide)).append
      (folds'.append ((symbol colon (by decide)).append folds'')))
  | chain _ _ joins operand links =>
    obtain ⟨us, folds, operand⟩ := operand
    obtain ⟨us', folds', links⟩ := links
    exact ⟨_, folds.append folds', .chain operand links joins⟩
  | noLink => exact ⟨[], .nil _, .noLink⟩
  | link is _ _ operand links =>
    obtain ⟨us, folds, operand⟩ := operand
    obtain ⟨us', folds', links⟩ := links
    refine ⟨_, ?_, .link is operand links⟩
    exact (Token.Folds.symbol ⟨_, is⟩ (.inl rfl)).append (folds.append folds')
  | prefixed is _ ih =>
    obtain ⟨us, folds, operand⟩ := ih
    refine ⟨_, ?_, .prefixed is operand⟩
    exact (symbol ⟨_, is⟩ (by decide)).append folds
  | postfixed _ _ primary suffixes =>
    obtain ⟨us, folds, primary⟩ := primary
    obtain ⟨us', folds', suffixes⟩ := suffixes
    exact ⟨_, folds.append folds', .postfixed primary suffixes⟩
  | noSuffix => exact ⟨[], .nil _, .noSuffix⟩
  | field dot is _ ih =>
    obtain ⟨us, folds, others⟩ := ih
    refine ⟨_, ?_, .field dot is others⟩
    exact (symbol dot (by decide)).append ((name is).append folds)
  | filter bracket _ close _ ih others =>
    obtain ⟨us, folds, inner⟩ := ih
    obtain ⟨us', folds', others⟩ := others
    refine ⟨_, ?_, .filter bracket inner close others⟩
    exact (symbol bracket (by decide)).append
      (folds.append ((symbol close (by decide)).append folds'))
  | transform pipe is _ ih =>
    obtain ⟨us, folds, others⟩ := ih
    refine ⟨_, ?_, .transform pipe is others⟩
    exact (symbol pipe (by decide)).append ((name is).append folds)
  | transformArgs pipe is paren _ close _ items others =>
    obtain ⟨us, after, folds, items⟩ := items
    obtain ⟨us', folds', others⟩ := others
    refine ⟨_, ?_, .transformArgs pipe is paren items close others⟩
    exact (symbol pipe (by decide)).append ((name is).append ((symbol paren (by decide)).append
      (folds.append ((symbol close (by decide)).append folds'))))
  | @literal v inside t is =>
    refine ⟨[t], .word ?_, .literal is⟩
    rintro kind ⟨text, lexeme⟩
    rw [is] at lexeme
    cases lexeme
  | name is => exact ⟨_, name is, .name is⟩
  | call is paren _ close ih =>
    obtain ⟨us, after, folds, items⟩ := ih
    refine ⟨_, ?_, .call is paren items close⟩
    exact (name is).append ((symbol paren (by decide)).append
      (folds.append (symbol close (by decide))))
  | relativeName dot is =>
    exact ⟨_, (symbol dot (by decide)).append (name is), .relativeName dot is⟩
  | group paren _ close ih =>
    obtain ⟨us, folds, inner⟩ := ih
    refine ⟨_, ?_, .group paren inner close⟩
    exact (symbol paren (by decide)).append (folds.append (symbol close (by decide)))
  | array bracket _ close ih =>
    obtain ⟨us, after, folds, items⟩ := ih
    refine ⟨_, ?_, .array bracket items close⟩
    exact (symbol bracket (by decide)).append (folds.append (symbol close (by decide)))
  | noEntry curl close =>
    exact ⟨_, (symbol curl (by decide)).append (symbol close (by decide)), .noEntry curl close⟩
  | object curl _ close ih =>
    obtain ⟨us, folds, entries⟩ := ih false
    refine ⟨_, ?_, .object curl entries close⟩
    exact (symbol curl (by decide)).append (folds.append (symbol close (by decide)))
  | negative _ minus number =>
    -- the joined token is a literal with the value that the parser would read
    exact ⟨_, .sign minus number (.nil _), .literal rfl⟩
  | noItem => exact ⟨[], true, .nil _, .noItem⟩
  | someItems _ ih =>
    obtain ⟨us, folds, listed⟩ := ih
    exact ⟨us, false, folds, .someItems listed⟩
  | lastItem _ ih =>
    obtain ⟨us, folds, derived⟩ := ih
    exact ⟨us, folds, .lastItem derived⟩
  | moreItems _ comma _ ih others =>
    obtain ⟨us, folds, derived⟩ := ih
    obtain ⟨us', folds', others⟩ := others
    refine ⟨_, ?_, .moreItems derived comma others⟩
    exact folds.append ((symbol comma (by decide)).append folds')
  | lastEntry isKey colon _ ih =>
    intro due
    obtain ⟨us, folds, derived⟩ := ih
    refine ⟨_, ?_, .lastEntry isKey colon derived⟩
    exact (Token.Folds.word isKey.isWord).append ((symbol colon (by decide)).append folds)
  | moreEntries isKey colon _ comma _ ih others =>
    intro due
    obtain ⟨us, folds, derived⟩ := ih
    obtain ⟨us', folds', others⟩ := others true
    refine ⟨_, ?_, .moreEntries isKey colon derived comma others⟩
    exact (Token.Folds.word isKey.isWord).append ((symbol colon (by decide)).append
      (folds.append ((symbol comma (by decide)).append folds')))

/-! ## From joined tokens to the parser's signs -/

/-- In a derivation a minus and a number may stand for a negative one. -/
theorem Derives.unfolds {joins : Formula → List (String × Formula) → Formula → Prop}
    {part : Part} {inside : Bool} {us ts : List Token} {m : Bool}
    (derived : Derives ⟨joins, false⟩ part inside us m) (spells : Token.Spells us ts) :
    Derives ⟨joins, true⟩ part inside ts m := by
  induction derived generalizing ts with
  | plain _ ih => exact .plain (ih spells)
  -- Only numbers are spelled by two tokens, so the other tokens are found again one by one.
  | conditional _ question _ colon _ test consequent alternate =>
    obtain ⟨vs, _, rfl, tested, rest⟩ := spells.append_inv
    obtain ⟨_, _, rfl, question, rest'⟩ := rest.symbol_inv question
    obtain ⟨vs', _, rfl, first, rest''⟩ := rest'.append_inv
    obtain ⟨_, _, rfl, colon, rest'''⟩ := rest''.symbol_inv colon
    exact .conditional (test tested) question (consequent first) colon (alternate rest''')
  | chain _ _ joins operand links =>
    obtain ⟨vs, _, rfl, first, rest⟩ := spells.append_inv
    exact .chain (operand first) (links rest) joins
  | noLink =>
    cases spells
    exact .noLink
  | link is _ _ operand links =>
    obtain ⟨_, _, rfl, same, rest⟩ := spells.cons_inv (Token.Is.number ⟨_, is⟩)
    obtain ⟨vs, _, rfl, first, rest'⟩ := rest.append_inv
    exact .link (same.trans is) (operand first) (links rest')
  | prefixed is _ ih =>
    obtain ⟨_, _, rfl, same, rest⟩ := spells.cons_inv (Token.Is.number ⟨_, is⟩)
    exact .prefixed (same.trans is) (ih rest)
  | postfixed _ _ primary suffixes =>
    obtain ⟨vs, _, rfl, first, rest⟩ := spells.append_inv
    exact .postfixed (primary first) (suffixes rest)
  | noSuffix =>
    cases spells
    exact .noSuffix
  | field dot is _ ih =>
    obtain ⟨_, _, rfl, dot, rest⟩ := spells.symbol_inv dot
    obtain ⟨_, _, rfl, is, rest'⟩ := rest.name_inv is
    exact .field dot is (ih rest')
  | filter bracket _ close _ ih others =>
    obtain ⟨_, _, rfl, bracket, rest⟩ := spells.symbol_inv bracket
    obtain ⟨vs, _, rfl, inner, rest'⟩ := rest.append_inv
    obtain ⟨_, _, rfl, close, rest''⟩ := rest'.symbol_inv close
    exact .filter bracket (ih inner) close (others rest'')
  | transform pipe is _ ih =>
    obtain ⟨_, _, rfl, pipe, rest⟩ := spells.symbol_inv pipe
    obtain ⟨_, _, rfl, is, rest'⟩ := rest.name_inv is
    exact .transform pipe is (ih rest')
  | transformArgs pipe is paren _ close _ items others =>
    obtain ⟨_, _, rfl, pipe, rest⟩ := spells.symbol_inv pipe
    obtain ⟨_, _, rfl, is, rest'⟩ := rest.name_inv is
    obtain ⟨_, _, rfl, paren, rest''⟩ := rest'.symbol_inv paren
    obtain ⟨vs, _, rfl, inner, rest'''⟩ := rest''.append_inv
    obtain ⟨_, _, rfl, close, rest''''⟩ := rest'''.symbol_inv close
    exact .transformArgs pipe is paren (items inner) close (others rest'''')
  | literal is =>
    -- A number stands for itself, or for a minus and a number.
    cases spells with
    | keep same nothing =>
      cases nothing
      exact .literal (same.trans is)
    | sign same minus number nothing =>
      cases nothing
      cases same.symm.trans is
      exact .negative rfl minus number
  | name is =>
    obtain ⟨_, _, rfl, is, nothing⟩ := spells.name_inv is
    cases nothing
    exact .name is
  | call is paren _ close ih =>
    obtain ⟨_, _, rfl, is, rest⟩ := spells.name_inv is
    obtain ⟨_, _, rfl, paren, rest'⟩ := rest.symbol_inv paren
    obtain ⟨vs, _, rfl, inner, close⟩ := rest'.snoc_inv close
    exact .call is paren (ih inner) close
  | relativeName dot is =>
    obtain ⟨_, _, rfl, dot, rest⟩ := spells.symbol_inv dot
    obtain ⟨_, _, rfl, is, nothing⟩ := rest.name_inv is
    cases nothing
    exact .relativeName dot is
  | group paren _ close ih =>
    obtain ⟨_, _, rfl, paren, rest⟩ := spells.symbol_inv paren
    obtain ⟨vs, _, rfl, inner, close⟩ := rest.snoc_inv close
    exact .group paren (ih inner) close
  | array bracket _ close ih =>
    obtain ⟨_, _, rfl, bracket, rest⟩ := spells.symbol_inv bracket
    obtain ⟨vs, _, rfl, inner, close⟩ := rest.snoc_inv close
    exact .array bracket (ih inner) close
  | noEntry curl close =>
    obtain ⟨_, _, rfl, curl, rest⟩ := spells.symbol_inv curl
    obtain ⟨_, _, rfl, close, nothing⟩ := rest.symbol_inv close
    cases nothing
    exact .noEntry curl close
  | object curl _ close ih =>
    obtain ⟨_, _, rfl, curl, rest⟩ := spells.symbol_inv curl
    obtain ⟨vs, _, rfl, inner, close⟩ := rest.snoc_inv close
    exact .object curl (ih inner) close
  | negative signs => cases signs
  | noItem =>
    cases spells
    exact .noItem
  | someItems _ ih => exact .someItems (ih spells)
  | lastItem _ ih => exact .lastItem (ih spells)
  | moreItems _ comma _ ih others =>
    obtain ⟨vs, _, rfl, first, rest⟩ := spells.append_inv
    obtain ⟨_, _, rfl, comma, rest'⟩ := rest.symbol_inv comma
    exact .moreItems (ih first) comma (others rest')
  | lastEntry isKey colon _ ih =>
    obtain ⟨_, _, rfl, isKey, rest⟩ := spells.key_inv isKey
    obtain ⟨_, _, rfl, colon, rest'⟩ := rest.symbol_inv colon
    exact .lastEntry isKey colon (ih rest')
  | moreEntries isKey colon _ comma _ ih others =>
    obtain ⟨_, _, rfl, isKey, rest⟩ := spells.key_inv isKey
    obtain ⟨_, _, rfl, colon, rest'⟩ := rest.symbol_inv colon
    obtain ⟨vs, _, rfl, first, rest''⟩ := rest'.append_inv
    obtain ⟨_, _, rfl, comma, rest'''⟩ := rest''.symbol_inv comma
    exact .moreEntries isKey colon (ih first) comma (others rest''')

/-! ## Both readers -/

theorem ofTokens_spells {ι : Type} {g : Grammar ι} {us tokens : List Token} {f : Formula}
    (spells : Token.Spells us tokens) (read : ofTokens g us = .ok f) :
    ofTokensWith g signedPrimary tokens = .ok f := by
  rw [ofTokens, ofTokensWith_eq_ok_iff primary_takesPrimaries] at read
  rw [ofTokensWith_eq_ok_iff signedPrimary_takesPrimaries]
  exact read.imp fun _ derived => derived.unfolds spells

/-- Folding signs first and reading signs as they come give the same formulas. -/
theorem ofTokens_foldSigns {ι : Type} (g : Grammar ι) (text : List Char) (tokens : List Token)
    (f : Formula) : ofTokens g (Token.foldSigns text none tokens) = .ok f ↔
      ofTokensWith g signedPrimary tokens = .ok f := by
  refine ⟨ofTokens_spells ((Token.foldSigns_unfolds text none tokens).spells rfl), ?_⟩
  rw [ofTokens, ofTokensWith_eq_ok_iff primary_takesPrimaries,
    ofTokensWith_eq_ok_iff signedPrimary_takesPrimaries]
  rintro ⟨m, derived⟩
  obtain ⟨us, folds, derived⟩ := derived.folds text
  obtain ⟨last, _, folded⟩ := Token.Folds.foldSigns none folds []
  have whole : Token.foldSigns text none tokens = us := by
    simpa [Token.foldSigns] using folded
  exact ⟨m, whole ▸ derived⟩

/-- A text spells the same formula, whether the signs of its numbers are told
by the tokens before them or by the parser. -/
theorem parse_eq_ok_iff_parseSigned {ι : Type} (g : Grammar ι) (text : String) (f : Formula) :
    parse g text = .ok f ↔ parseSigned g text = .ok f := by
  have mapped {ε ε' α : Type} (k : ε → ε') (x : Except ε α) (a : α) :
      x.mapError k = .ok a ↔ x = .ok a := by
    cases x <;> simp [Except.mapError]
  cases scanned : Token.scan g text.toList with
  | error why =>
    simp [parse, parseSigned, tokenize, Token.tokenize, scanned, Except.mapError, bind,
      Except.bind]
  | ok tokens =>
    have folded : tokenize g text = .ok (Token.foldSigns text.toList none tokens) := by
      simp [tokenize, Token.tokenize, scanned, Except.mapError, bind, Except.bind]
    calc parse g text = .ok f
        ↔ ofTokens g (Token.foldSigns text.toList none tokens) = .ok f := by
          simp only [parse, folded]
          exact mapped _ _ _
      _ ↔ ofTokensWith g signedPrimary tokens = .ok f := ofTokens_foldSigns g text.toList tokens f
      _ ↔ parseSigned g text = .ok f := by
          simp only [parseSigned, scanned]
          exact (mapped _ _ _).symm

end Formula

end JexlScript
