import JexlScript.Proofs.Parsing.Derivation

/-!
# Single steps of the parser

What a reader does with the next token, as equations and inversions: the
readers of symbols, of the operator of a chain, and of a primary by its first
token.
-/

namespace JexlScript

/-- A symbol is of one kind. -/
theorem Token.Is.unique {t : Token} {kind kind' : SymbolKind} (is : t.Is kind)
    (is' : t.Is kind') : kind = kind' := by
  obtain ⟨text, lexeme⟩ := is
  obtain ⟨text', lexeme'⟩ := is'
  rw [lexeme] at lexeme'
  cases lexeme'
  rfl

theorem Token.Is.isMinus {t : Token} {kind : SymbolKind} (is : t.Is kind)
    (other : kind ≠ .binaryOp) : t.isMinus = false := by
  obtain ⟨text, lexeme⟩ := is
  simp [Token.isMinus, lexeme, other]

namespace Parse

/-- Whether a symbol of a kind comes next. -/
def startsWith (kind : SymbolKind) : List Token → Bool
  | ⟨.symbol k _, _, _⟩ :: _ => k = kind
  | _ => false

theorem startsWith_eq_true {kind : SymbolKind} {ts : List Token} :
    startsWith kind ts = true ↔ ∃ t us, ts = t :: us ∧ t.Is kind := by
  unfold startsWith
  split
  · next k text raw position us =>
      constructor
      · intro same
        exact ⟨_, us, rfl, text, by simpa using same⟩
      · rintro ⟨t, us', is, text', lexeme⟩
        cases is
        cases lexeme
        simp
  · next other =>
      simp only [Bool.false_eq_true, false_iff, not_exists, not_and]
      rintro ⟨lexeme, raw, position⟩ us rfl ⟨text, is⟩
      exact other kind text raw position us (by simpa using is)

theorem startsWith_other {kind kind' : SymbolKind} {t : Token} {ts : List Token} (is : t.Is kind)
    (differs : kind' ≠ kind) : startsWith kind' (t :: ts) = false := by
  cases starts : startsWith kind' (t :: ts) with
  | false => rfl
  | true =>
    obtain ⟨_, _, same, is'⟩ := startsWith_eq_true.mp starts
    cases same
    exact absurd (is'.unique is) differs

/-- Looking at the next symbol takes nothing. -/
theorem atSymbol_eq (kind : SymbolKind) (c : Cursor) :
    atSymbol kind c = .ok (startsWith kind c.rest, c) := by
  obtain ⟨rest, relative⟩ := c
  rcases rest with _ | ⟨⟨lexeme, raw, position⟩, us⟩
  · rfl
  · cases lexeme <;> rfl

end Parse

namespace Formula

open Parse

/-- A known binary operator is found with its precedence. -/
theorem binaryOp?_some {ι : Type} {g : Grammar ι} {c : Cursor} {o : Token} {op : String}
    {precedence : Double} {us : List Token} (is : o.lexeme = .symbol .binaryOp op)
    (known : (g.lookup? op .binaryOp).map (·.precedence) = some precedence)
    (starts : c.rest = o :: us) : binaryOp? g c = .ok (some (op, precedence), c) := by
  obtain ⟨lexeme, raw, position⟩ := o
  obtain ⟨rest, relative⟩ := c
  obtain ⟨element, found, rfl⟩ := Option.map_eq_some_iff.mp known
  cases is
  cases starts
  simp [binaryOp?, found]

theorem unaryOps_cons {t : Token} {op : String} (is : t.lexeme = .symbol .unaryOp op)
    (ts : List Token) : unaryOps (t :: ts) = op :: unaryOps ts := by
  obtain ⟨lexeme, raw, position⟩ := t
  cases is
  rfl

theorem unaryOps_eq_nil {t : Token} {ts : List Token}
    (other : ∀ op, t.lexeme ≠ .symbol .unaryOp op) : unaryOps (t :: ts) = [] := by
  obtain ⟨lexeme, raw, position⟩ := t
  cases lexeme with
  | literal _ => rfl
  | identifier _ => rfl
  | symbol kind text =>
    cases kind with
    | unaryOp => exact absurd rfl (other text)
    | _ => rfl

/-- Takes the unary operators that come next. -/
def takeUnaryOps : Parse (List String) := fun c =>
  .ok (unaryOps c.rest, { c with rest := c.rest.drop (unaryOps c.rest).length })

/-- An operand step by step: unary operators, a primary, suffixes. -/
theorem operand_eq (inner : Bool → Parse Formula) (inside : Bool) (first : Parse Formula) :
    operand inner inside first = (do
      let ops ← takeUnaryOps
      let start ← first
      let c ← get
      let e ← suffixes inner inside c.rest.length start
      pure (ops.foldr .unary e)) := rfl

/-! ## The first token of a primary -/

section

variable {inner : Bool → Parse Formula} {inside : Bool} {t : Token} {rest : List Token}
  {relative : Bool} {name : String}

theorem primary_literal {v : Scalar} (is : t.lexeme = .literal v) :
    primary inner inside ⟨t :: rest, relative⟩ =
      (pure (.literal v) : Parse Formula) ⟨rest, relative⟩ := by
  obtain ⟨lexeme, raw, position⟩ := t
  cases is
  rfl

/-- A name is a call if a parenthesis follows. -/
theorem primary_identifier (is : t.lexeme = .identifier name) :
    primary inner inside ⟨t :: rest, relative⟩ =
      (do
        if ← atSymbol .openParen then do
          advance
          let es ← args inner inside
          pure (.call functionsPool name es)
        else pure (.root name false) : Parse Formula) ⟨rest, relative⟩ := by
  obtain ⟨lexeme, raw, position⟩ := t
  cases is
  rfl

theorem primary_dot (is : t.Is .dot) :
    primary inner inside ⟨t :: rest, relative⟩ = relativeName inside t ⟨rest, relative⟩ := by
  obtain ⟨lexeme, raw, position⟩ := t
  obtain ⟨text, is⟩ := is
  cases is
  rfl

theorem primary_openParen (is : t.Is .openParen) :
    primary inner inside ⟨t :: rest, relative⟩ =
      (do
        let e ← inner inside
        expectSymbol .closeParen .groupEnd
        pure e : Parse Formula) ⟨rest, relative⟩ := by
  obtain ⟨lexeme, raw, position⟩ := t
  obtain ⟨text, is⟩ := is
  cases is
  rfl

theorem primary_openBracket (is : t.Is .openBracket) :
    primary inner inside ⟨t :: rest, relative⟩ =
      (do
        let es ← items (inner inside) .closeBracket .arrayEnd
        pure (.array es) : Parse Formula) ⟨rest, relative⟩ := by
  obtain ⟨lexeme, raw, position⟩ := t
  obtain ⟨text, is⟩ := is
  cases is
  rfl

theorem primary_openCurl (is : t.Is .openCurl) :
    primary inner inside ⟨t :: rest, relative⟩ =
      (do
        let ps ← items (entry inner inside) .closeCurl .objectEnd
        pure (ofEntries ps) : Parse Formula) ⟨rest, relative⟩ := by
  obtain ⟨lexeme, raw, position⟩ := t
  obtain ⟨text, is⟩ := is
  cases is
  rfl

/-- Whether a reader takes the primaries of the grammar, where `signs` says
whether a minus before a number is one. -/
structure TakesPrimaries (signs : Bool) (first : PrimaryReader) : Prop where
  empty : ∀ inner inside relative outcome, first inner inside ⟨[], relative⟩ ≠ .ok outcome
  /-- Whatever does not start with a minus is read as always. -/
  plain : ∀ inner inside (t : Token) ts relative, t.isMinus = false →
    first inner inside ⟨t :: ts, relative⟩ = primary inner inside ⟨t :: ts, relative⟩
  /-- A minus is taken with the number after it, where it is a sign. -/
  minus : ∀ inner inside (t : Token) ts relative f c, t.isMinus = true →
    (first inner inside ⟨t :: ts, relative⟩ = .ok (f, c) ↔
      signs = true ∧ ∃ u v, ts = u :: c.rest ∧ u.number = some v ∧
        f = .literal (.double v.neg) ∧ c.relative = relative)

/-- No primary starts with a minus. -/
theorem primary_minus (is : t.isMinus = true) :
    primary inner inside ⟨t :: rest, relative⟩ = .error ⟨.unexpectedToken, some t⟩ := by
  obtain ⟨lexeme, raw, position⟩ := t
  have is : lexeme = .symbol .binaryOp "-" := by simpa [Token.isMinus] using is
  cases is
  rfl

/-- The plain reader takes primaries without signs. -/
theorem primary_takesPrimaries : TakesPrimaries false primary where
  empty := by
    intro inner inside relative outcome ran
    cases ran
  plain := by
    intro inner inside t ts relative _
    rfl
  minus := by
    intro inner inside t ts relative f c is
    simp [primary_minus is]

end

/-! ## Readers add no tokens -/

theorem relativeName_shortens (inside : Bool) (dot : Token) :
    Shortens (relativeName inside dot) := by
  refine (Shortens.expectName _).bind fun name => ?_
  intro c a c' ran
  cases inside with
  | true =>
    cases ran
    exact Nat.le_refl _
  | false => cases ran

section

variable {inner : Bool → Parse Formula} (each : ∀ inside, Shortens (inner inside))

include each

theorem args_shortens (inside : Bool) : Shortens (args inner inside) :=
  (each inside).items .closeParen .argsEnd

theorem entry_shortens (inside : Bool) : Shortens (entry inner inside) := by
  have key : Shortens objectKey := by
    intro c a c' ran
    unfold objectKey at ran
    split at ran
    · next tokens => cases ran; simp [tokens]
    · next tokens => cases ran; simp [tokens]
    · cases ran
  exact key.bind fun _ => (Shortens.expectSymbol _ _).bind fun _ => (each inside).bind fun _ =>
    .pure _

theorem filterContents_shortens : Shortens (filterContents inner) := by
  intro c a c' ran
  obtain ⟨_, _, got, ran⟩ := bind_eq_ok.mp ran
  cases got
  obtain ⟨_, _, kept, ran⟩ := bind_eq_ok.mp ran
  cases kept
  obtain ⟨e, c₁, read, ran⟩ := bind_eq_ok.mp ran
  cases ran
  exact each true ⟨c.rest, false⟩ e c₁ read

/-- Suffixes leave no more tokens, by induction on the fuel. -/
theorem suffixes_shortens (inside : Bool) (fuel : Nat) (subject : Formula) :
    Shortens (suffixes inner inside fuel subject) := by
  induction fuel generalizing subject with
  | zero => exact .pure subject
  | succ fuel ih =>
    refine (Shortens.atSymbol _).bind fun dot => .ite dot ?_ ((Shortens.atSymbol _).bind
      fun bracket => .ite bracket ?_ ((Shortens.atSymbol _).bind fun pipe => .ite pipe ?_
        (.pure subject)))
    · exact Shortens.advance.bind fun _ => (Shortens.expectName _).bind fun _ => ih _
    · exact Shortens.advance.bind fun _ => (filterContents_shortens each).bind fun _ =>
        (Shortens.expectSymbol _ _).bind fun _ => ih _
    · refine Shortens.advance.bind fun _ => (Shortens.expectName _).bind fun _ =>
        (Shortens.atSymbol _).bind fun paren => .ite paren ?_ (ih _)
      exact Shortens.advance.bind fun _ => (args_shortens each inside).bind fun _ => ih _

theorem operand_shortens (inside : Bool) {first : Parse Formula} (start : Shortens first) :
    Shortens (operand inner inside first) := by
  have ops : Shortens takeUnaryOps := by
    rintro c _ _ ⟨⟩
    simp
  rw [operand_eq]
  exact ops.bind fun _ => start.bind fun _ => Shortens.get.bind fun _ =>
    (suffixes_shortens each inside _ _).bind fun _ => .pure _

theorem choice_shortens (inside : Bool) {test : Parse Formula} (tested : Shortens test) :
    Shortens (choice inner inside test) := by
  refine tested.bind fun _ => (Shortens.atSymbol _).bind fun question =>
    .ite question ?_ (.pure _)
  exact Shortens.advance.bind fun _ => (each inside).bind fun _ =>
    (Shortens.expectSymbol _ _).bind fun _ => (each inside).bind fun _ => .pure _

theorem primary_shortens (inside : Bool) : Shortens (primary inner inside) := by
  rintro ⟨rest, relative⟩ f c' ran
  cases rest with
  | nil => cases ran
  | cons t rest =>
    -- The first token is always taken, and what reads the rest does not lengthen it.
    have after {p : Parse Formula} (shortens : Shortens p)
        (same : primary inner inside ⟨t :: rest, relative⟩ = p ⟨rest, relative⟩) :
        c'.rest.length ≤ (t :: rest).length := by
      rw [same] at ran
      exact Nat.le_succ_of_le (shortens _ _ _ ran)
    cases is : t.lexeme with
    | literal v => exact after (.pure _) (primary_literal is)
    | identifier name =>
      refine after (Shortens.bind (.atSymbol _) fun paren => .ite paren ?_ (.pure _))
        (primary_identifier is)
      exact Shortens.advance.bind fun _ => (args_shortens each inside).bind fun _ => .pure _
    | symbol kind text =>
      cases kind with
      | dot => exact after (relativeName_shortens inside t) (primary_dot ⟨text, is⟩)
      | openParen =>
        exact after ((each inside).bind fun _ => (Shortens.expectSymbol _ _).bind fun _ => .pure _)
          (primary_openParen ⟨text, is⟩)
      | openBracket =>
        exact after (((each inside).items _ _).bind fun _ => .pure _)
          (primary_openBracket ⟨text, is⟩)
      | openCurl =>
        exact after (((entry_shortens each inside).items _ _).bind fun _ => .pure _)
          (primary_openCurl ⟨text, is⟩)
      | _ =>
        obtain ⟨lexeme, raw, position⟩ := t
        cases is
        cases ran

theorem TakesPrimaries.shortens {signs : Bool} {first : PrimaryReader}
    (takes : TakesPrimaries signs first) (inside : Bool) : Shortens (first inner inside) := by
  rintro ⟨rest, relative⟩ f c ran
  cases rest with
  | nil => exact absurd ran (takes.empty inner inside relative (f, c))
  | cons t ts =>
    cases minus : t.isMinus with
    | false =>
      rw [takes.plain inner inside t ts relative minus] at ran
      exact primary_shortens each inside _ _ _ ran
    | true =>
      obtain ⟨_, u, _, rfl, _⟩ := (takes.minus inner inside t ts relative f c minus).mp ran
      simp only [List.length_cons]
      omega

end

/-- Expressions leave no more tokens, by induction on the depth. -/
theorem expression_shortens {ι : Type} (g : Grammar ι) {signs : Bool} {first : PrimaryReader}
    (takes : TakesPrimaries signs first) (depth : Nat) (inside : Bool) :
    Shortens (expression g first depth inside) := by
  induction depth generalizing inside with
  | zero => exact .fail _
  | succ depth ih =>
    have operands := operand_shortens ih inside (takes.shortens ih inside)
    exact choice_shortens ih inside (operands.bind fun _ => Shortens.get.bind fun _ =>
      joined_shortens operands _ _ _)

end Formula

end JexlScript
