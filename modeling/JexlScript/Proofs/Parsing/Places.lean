import JexlScript.Proofs.Parsing.Steps

/-!
# Places between tokens

Going over tokens from left to right, a `Place` keeps whether an operand is due
next, and the brackets that are open. A bracket is that of a filter if it follows
an operand, and that of an array if it stands for one. So a place tells, without
any reading, whether a dot would be a relative name, and whether a filter is open
around it. `Derives.leads` says where the parts of the grammar lead, and that all
their relative names stand in filters.
-/

namespace JexlScript.Formula

/-- Where a list of tokens has come to. -/
structure Place where
  due : Bool
  /-- For each open bracket, innermost first, whether it is that of a filter. -/
  brackets : List Bool

namespace Place

/-- The place behind a symbol. -/
def behind (s : Place) : SymbolKind → Place
  | .openBracket => ⟨true, (!s.due) :: s.brackets⟩
  | .closeBracket => ⟨false, s.brackets.tail⟩
  | .closeParen | .closeCurl => ⟨false, s.brackets⟩
  | .dot | .pipe | .openCurl | .colon | .comma | .openParen | .question | .binaryOp | .unaryOp =>
    ⟨true, s.brackets⟩

/-- The place behind a token. -/
def next (s : Place) (t : Token) : Place :=
  match t.lexeme with
  | .literal _ | .identifier _ => ⟨false, s.brackets⟩
  | .symbol kind _ => s.behind kind

/-- The place behind some tokens. -/
def after (s : Place) (ts : List Token) : Place := ts.foldl next s

/-- Whether a filter is open. -/
def inFilter (s : Place) : Bool := s.brackets.any id

/-- No dot stands for an operand outside of all filters. -/
def Clear (s : Place) : List Token → Prop
  | [] => True
  | t :: ts => (t.Is .dot → s.due = true → s.inFilter = true) ∧ (s.next t).Clear ts

/-- The place before all tokens. -/
def start : Place := ⟨true, []⟩

variable {s : Place} {t : Token}

theorem after_append (ts us : List Token) : s.after (ts ++ us) = (s.after ts).after us :=
  List.foldl_append

theorem after_cons (t : Token) (ts : List Token) : s.after (t :: ts) = (s.next t).after ts := rfl

theorem next_symbol {kind : SymbolKind} (is : t.Is kind) : s.next t = s.behind kind := by
  obtain ⟨text, is⟩ := is
  rw [next, is]

/-- Behind a word or a literal an operator is due. -/
theorem next_word (other : ∀ kind text, t.lexeme ≠ .symbol kind text) :
    s.next t = ⟨false, s.brackets⟩ := by
  cases is : t.lexeme with
  | symbol kind text => exact absurd is (other kind text)
  | _ => rw [next, is]

theorem next_identifier {name : String} (is : t.lexeme = .identifier name) :
    s.next t = ⟨false, s.brackets⟩ :=
  next_word (by simp [is])

theorem next_key {key : String} (is : t.IsKey key) : s.next t = ⟨false, s.brackets⟩ := by
  rcases is with is | is
  · exact next_word (by simp [is])
  · exact next_word (by simp [is])

/-- Tokens are clear if each part of them is, from where it starts. -/
theorem clear_append {ts us : List Token} :
    s.Clear (ts ++ us) ↔ s.Clear ts ∧ (s.after ts).Clear us := by
  induction ts generalizing s with
  | nil => simp [Clear, after]
  | cons t ts ih => simp [Clear, after_cons, ih, and_assoc]

/-- Clear tokens lead from one place to another. -/
def Leads (s : Place) (ts : List Token) (s' : Place) : Prop := s.Clear ts ∧ s.after ts = s'

section

variable {s' s'' : Place} {ts us : List Token}

theorem Leads.nil : s.Leads [] s := ⟨trivial, rfl⟩

theorem Leads.append (first : s.Leads ts s') (next : s'.Leads us s'') :
    s.Leads (ts ++ us) s'' := by
  obtain ⟨clear, rfl⟩ := first
  exact ⟨clear_append.mpr ⟨clear, next.1⟩, (after_append ts us).trans next.2⟩

theorem Leads.symbol {kind : SymbolKind} (is : t.Is kind) (other : kind ≠ .dot)
    (next : (s.behind kind).Leads ts s') : s.Leads (t :: ts) s' := by
  rw [← next_symbol is] at next
  exact ⟨⟨fun dot => absurd (is.unique dot) other, next.1⟩, next.2⟩

/-- A dot behind an operand is always fine; any other has to stand in a filter. -/
theorem Leads.dot (is : t.Is .dot) (clear : s.due = true → s.inFilter = true)
    (next : (s.behind .dot).Leads ts s') : s.Leads (t :: ts) s' := by
  rw [← next_symbol is] at next
  exact ⟨⟨fun _ => clear, next.1⟩, next.2⟩

theorem Leads.word (other : ∀ kind text, t.lexeme ≠ .symbol kind text)
    (next : (⟨false, s.brackets⟩ : Place).Leads ts s') : s.Leads (t :: ts) s' := by
  rw [← next_word other] at next
  refine ⟨⟨?_, next.1⟩, next.2⟩
  rintro ⟨text, dot⟩
  exact absurd dot (other _ text)

theorem Leads.key {key : String} (is : t.IsKey key)
    (next : (⟨false, s.brackets⟩ : Place).Leads ts s') : s.Leads (t :: ts) s' := by
  rcases is with is | is
  · exact .word (by simp [is]) next
  · exact .word (by simp [is]) next

end

end Place

open Place

/-- Whether a part starts where an operand is due. -/
def Part.due : Part → Bool
  | .links _ | .suffixes _ _ => false
  | .expression _ | .binary _ | .unary _ | .primary _ | .items _ | .listed _ | .entries _ => true

/-- Where the tokens of a part lead. A list of items may be empty. -/
def Part.Leads (ts : List Token) (bs : List Bool) : Part → Prop
  | .items _ => ∃ due, (⟨true, bs⟩ : Place).Leads ts ⟨due, bs⟩
  | part => (⟨part.due, bs⟩ : Place).Leads ts ⟨false, bs⟩

/-- Derived tokens are clear, and lead to where an operator is due. -/
theorem Derives.leads {r : Rules} {part : Part} {inside : Bool} {ts : List Token} {m : Bool}
    (derived : Derives r part inside ts m) {bs : List Bool} (place : bs.any id = inside) :
    part.Leads ts bs := by
  induction derived generalizing bs with
  | plain _ ih => exact ih place
  | conditional _ question _ colon _ test yes no =>
    refine (test place).append (.symbol question (by decide) ((yes place).append ?_))
    exact .symbol colon (by decide) (no place)
  | chain _ _ _ operand others => exact (operand place).append (others place)
  | noLink => exact .nil
  | link is _ _ operand others =>
    exact .symbol ⟨_, is⟩ (by decide) ((operand place).append (others place))
  | prefixed is _ ih => exact .symbol ⟨_, is⟩ (by decide) (ih place)
  | postfixed _ _ primary suffixes => exact (primary place).append (suffixes place)
  | noSuffix => exact .nil
  | field dot is _ ih => exact .dot dot (by simp [Part.due]) (.word (by simp [is]) (ih place))
  | filter bracket _ close _ contents others =>
    -- In brackets behind an expression relative names are allowed, and in those of an array they
    -- are if they were.
    have inner : (true :: bs).any id = true := rfl
    refine .symbol bracket (by decide) ((contents inner).append ?_)
    exact .symbol close (by decide) (others place)
  | transform pipe is _ ih => exact .symbol pipe (by decide) (.word (by simp [is]) (ih place))
  | transformArgs pipe is paren _ close _ items others =>
    obtain ⟨due, items⟩ := items place
    refine .symbol pipe (by decide) (.word (by simp [is]) (.symbol paren (by decide) ?_))
    exact items.append (.symbol close (by decide) (others place))
  | literal is => exact .word (by simp [is]) .nil
  | name is => exact .word (by simp [is]) .nil
  | call is paren _ close items =>
    obtain ⟨due, items⟩ := items place
    refine .word (by simp [is]) (.symbol paren (by decide) (items.append ?_))
    exact .symbol close (by decide) .nil
  | relativeName dot is => exact .dot dot (fun _ => place) (.word (by simp [is]) .nil)
  | group paren _ close ih =>
    exact .symbol paren (by decide) ((ih place).append (.symbol close (by decide) .nil))
  | array bracket _ close items =>
    have inner : (false :: bs).any id = _ := place
    obtain ⟨due, items⟩ := items inner
    exact .symbol bracket (by decide) (items.append (.symbol close (by decide) .nil))
  | noEntry curl close => exact .symbol curl (by decide) (.symbol close (by decide) .nil)
  | object curl _ close ih =>
    exact .symbol curl (by decide) ((ih place).append (.symbol close (by decide) .nil))
  -- The minus of a number is spelled as the operator.
  | @negative v _ t u _ minus number =>
    have isMinus : t.Is .binaryOp := ⟨"-", by simpa [Token.isMinus] using minus⟩
    refine .symbol isMinus (by decide) (.word (fun kind text is => ?_) .nil)
    simp [Token.number, is] at number
  | noItem => exact ⟨true, .nil⟩
  | someItems _ ih => exact ⟨false, ih place⟩
  | lastItem _ ih => exact ih place
  | moreItems _ comma _ item others =>
    exact (item place).append (.symbol comma (by decide) (others place))
  | lastEntry isKey colon _ ih => exact .key isKey (.symbol colon (by decide) (ih place))
  | moreEntries isKey colon _ comma _ value others =>
    refine .key isKey (.symbol colon (by decide) ((value place).append ?_))
    exact .symbol comma (by decide) (others place)

end JexlScript.Formula
