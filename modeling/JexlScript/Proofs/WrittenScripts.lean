import JexlScript.Proofs.NameOrigins
import JexlScript.Proofs.Scanning.Tiling

/-!
# Scripts that can be written

A script can be written if its literals can, and only an integer can be too large
for that. The literals of a text are texts, truth values and doubles, so what is
lowered from a text without inlining anything can be written:
`lower_isWritable`.
-/

namespace JexlScript

open List Script

/-! ## Formulas that texts spell -/

namespace Formula

open Parse

/-- Whether a formula itself is an expression, and no call out of a pool that
there is not. -/
def isProper : Formula → Bool
  | .stray _ => false
  | .call pool _ _ => (Kind.ofText? pool).isSome
  | _ => true

/-- A literal can be written. -/
def hasWritableLiteral : Formula → Bool
  | .literal v => v.isWritable
  | _ => true

/-- A root is named by a word. -/
def hasWordName : Formula → Bool
  | .root name _ => Token.isWord name.toList
  | _ => true

/-- A part is as the parser makes it. -/
def Spelled (f : Formula) : Prop :=
  f.isProper = true ∧ f.hasWritableLiteral = true ∧ f.hasWordName = true

/-- All parts are as the parser makes them. -/
def AllSpelled (f : Formula) : Prop := ∀ p ∈ f.parts, p.Spelled

theorem spelled_of_list {m : Bool} {fs ws : List Formula}
    (each : Each (fun _ f _ => f.AllSpelled) m fs ws) : ∀ p ∈ listParts fs, p.Spelled :=
  forall_mem_listParts.mpr (forall_of_each (p := AllSpelled) (fun _ _ _ spelled => spelled) each)

theorem spelled_of_entries {m : Bool} {ps qs : List (String × Formula)}
    (each : Each (EntryRelated fun _ f _ => f.AllSpelled) m ps qs) :
    (ofEntries ps).AllSpelled := by
  refine forall_mem_cons.mpr ⟨⟨rfl, rfl, rfl⟩, fun p member => ?_⟩
  obtain ⟨kept, inside, part⟩ := mem_entryParts.mp member
  obtain ⟨q, listed, same⟩ := value_of_mem_ofEntries inside
  exact forall_of_each (fun _ _ _ related => related.2) each q listed p (same ▸ part)

/-- A lexeme is as the scan makes it. -/
def isSpelled : Lexeme → Bool
  | .literal v => v.isWritable
  | .identifier name => Token.isWord name.toList
  | .symbol _ _ => true

/-- The parser makes spelled formulas of spelled lexemes. -/
theorem spelled_congruence :
    Congruence (fun t => isSpelled t.lexeme = true) fun _ f _ => f.AllSpelled where
  literal writable is := by
    rw [is] at writable
    exact forall_mem_singleton.mpr ⟨rfl, writable, rfl⟩
  root _ := by
    rintro ⟨t, spelled, is⟩
    rw [is] at spelled
    exact forall_mem_singleton.mpr ⟨rfl, rfl, spelled⟩
  field _ parent := forall_mem_cons.mpr ⟨⟨rfl, rfl, rfl⟩, parent⟩
  unary _ operand := forall_mem_cons.mpr ⟨⟨rfl, rfl, rfl⟩, operand⟩
  binary _ left right :=
    forall_mem_cons.mpr ⟨⟨rfl, rfl, rfl⟩, forall_mem_append.mpr ⟨left, right⟩⟩
  conditional test yes no := forall_mem_cons.mpr ⟨⟨rfl, rfl, rfl⟩,
    forall_mem_append.mpr ⟨forall_mem_append.mpr ⟨test, yes⟩, no⟩⟩
  filter subject contents :=
    forall_mem_cons.mpr ⟨⟨rfl, rfl, rfl⟩, forall_mem_append.mpr ⟨subject, contents⟩⟩
  array each := forall_mem_cons.mpr ⟨⟨rfl, rfl, rfl⟩, spelled_of_list each⟩
  call _ pool each := by
    refine forall_mem_cons.mpr ⟨⟨?_, rfl, rfl⟩, spelled_of_list each⟩
    rcases mem_pair.mp pool with rfl | rfl <;> rfl

theorem isSpelled_of_piece {ι : Type} {g : Grammar ι} {raw rest : List Char} {lexeme : Lexeme}
    (piece : Token.Piece g raw rest lexeme) : isSpelled lexeme = true := by
  cases piece with
  | string | number | symbol => rfl
  | word spelled =>
    unfold Token.word
    split_ifs
    · rfl
    · rfl
    · split
      · rfl
      · simpa [isSpelled] using spelled

/-- The scan makes spelled lexemes. -/
theorem isSpelled_of_tokenize {ι : Type} {g : Grammar ι} {text : String} {tokens : List Token}
    (read : tokenize g text = .ok tokens) : ∀ t ∈ tokens, isSpelled t.lexeme = true := by
  intro t member
  rcases (Token.tokenize_placed (tokenize_eq_ok_iff.mp read)).pieces t member with piece | ⟨_, is⟩
  · exact isSpelled_of_piece piece
  · rw [is]
    rfl

theorem parse_spelled {ι : Type} {g : Grammar ι} {text : String} {f : Formula}
    (parsed : parse g text = .ok f) : ∀ p ∈ f.parts, p.Spelled := by
  obtain ⟨tokens, cut, read⟩ := parse_eq_ok_iff.mp parsed
  exact ofTokens_keeps spelled_congruence (fun _ _ _ => spelled_of_entries)
    (isSpelled_of_tokenize cut) read

end Formula

/-! ## Lowering without a reader -/

/-- The script of an operator can be written if its operands can. -/
theorem OperatorScript.isWritable {op : String} {l r e : Expr}
    (script : OperatorScript l r op e) (left : l.isWritable = true)
    (right : r.isWritable = true) : e.isWritable = true := by
  cases script <;>
    simp [floorOfQuotient, Expr.invoke, Expr.dot, Expr.isWritable, exprsWritable, left, right]

namespace Context

variable {ctx : Context} (reader : ctx.reader = none)

include reader

theorem inlined_gives_none (f : Callable) (args : List Expr) :
    (ctx.inlined f args).Gives fun result => result = none := by
  unfold inlined Inline.inlineCallable
  simp only [reader]
  exact Lower.Gives.after fun _ => Lower.Gives.pure rfl

theorem customOperator_gives_none (arity : Arity) (op : String) (operands : List Expr)
    (P : Expr → Prop) : (ctx.customOperator arity op operands).Gives P := by
  unfold customOperator
  split
  · exact Lower.Gives.throw _
  · next f strategy found =>
      refine (inlined_gives_none reader f operands).bind ?_
      rintro _ rfl
      exact Lower.Gives.throw _

theorem unary_gives_unary (op : String) (e : Expr) :
    (ctx.unary op e).Gives fun e' => e' = .unary op e := by
  unfold Context.unary
  split
  · next script => exact Lower.Gives.pure (eq_of_unaryScript? script)
  · exact customOperator_gives_none reader _ _ _ _

theorem binary_gives_script (op : String) (l r : Expr) :
    (ctx.binary op l r).Gives (OperatorScript l r op) := by
  refine Lower.Gives.after fun _ => ?_
  split
  · next script => exact Lower.Gives.pure (binaryScript?_eq_some_iff.mp script)
  · exact customOperator_gives_none reader _ _ _ _

theorem call_gives_call (pool name : String) (args : List Expr) :
    (ctx.call pool name args).Gives fun e => e = .call (.ident name) args := by
  unfold Context.call
  split
  · exact Lower.Gives.throw _
  · split
    · exact Lower.Gives.after fun _ => Lower.Gives.pure rfl
    · next f strategy found =>
        refine (inlined_gives_none reader f args).bind ?_
        rintro _ rfl
        exact Lower.Gives.after fun _ => Lower.Gives.pure rfl

omit reader in
theorem lowerList_isWritable {fs : List Formula}
    (each : ∀ f ∈ fs, (∀ p ∈ f.parts, p.hasWritableLiteral = true) →
      (ctx.lower f).Gives fun e => e.isWritable = true)
    (literals : ∀ p ∈ Formula.listParts fs, p.hasWritableLiteral = true) :
    (ctx.lowerList fs).Gives fun es => exprsWritable es = true := by
  refine (lowerList_gives (P := fun _ e => e.isWritable = true) fun f inside => ?_).mono
    fun es writable => (exprsWritable_eq_all es).trans (all_eq_true.mpr fun e member => ?_)
  · exact each f inside (Formula.forall_mem_listParts.mp literals f inside)
  · obtain ⟨_, _, writable⟩ := writable e member
    exact writable

theorem lower_isWritable {ι : Type} {g : Grammar ι} {f : Formula} (built : f.Built g)
    (literals : ∀ p ∈ f.parts, p.hasWritableLiteral = true) :
    (ctx.lower f).Gives fun e => e.isWritable = true := by
  induction built with
  | literal => exact Lower.Gives.pure (literals _ (Formula.self_mem_parts _))
  | root => exact Lower.Gives.pure rfl
  | field _ _ ih =>
    refine (ih (forall_mem_cons.mp literals).2).bind fun e writable => Lower.Gives.pure ?_
    simp [Expr.dot, Expr.isWritable, writable]
  | unary _ _ ih =>
    refine (ih (forall_mem_cons.mp literals).2).bind fun e writable =>
      (unary_gives_unary reader _ e).mono ?_
    rintro _ rfl
    exact writable
  | binary _ _ _ left right =>
    simp only [Formula.parts, forall_mem_cons, forall_mem_append] at literals
    exact (left literals.2.1).bind fun l left => (right literals.2.2).bind fun r right =>
      (binary_gives_script reader _ l r).mono fun _ script => script.isWritable left right
  | conditional _ _ _ test consequent alternate =>
    simp only [Formula.parts, forall_mem_cons, forall_mem_append] at literals
    refine (test literals.2.1.1).bind fun _ test => (consequent literals.2.1.2).bind
      fun _ consequent => (alternate literals.2.2).bind fun _ alternate => Lower.Gives.pure ?_
    simp [Expr.isWritable, test, consequent, alternate]
  | array _ ih =>
    exact (lowerList_isWritable ih (forall_mem_cons.mp literals).2).bind fun _ writable =>
      Lower.Gives.pure writable
  | object _ ih =>
    -- Keys can always be written, so only the values count.
    have inner := Formula.forall_mem_entryParts.mp (forall_mem_cons.mp literals).2
    refine (lowerEntries_gives (P := fun _ e => e.isWritable = true) fun p inside => ?_).bind
      fun ps writable => Lower.Gives.pure ((propsWritable_eq_all ps).trans
        (all_eq_true.mpr fun q member => ?_))
    · exact ih p inside (inner p inside)
    · obtain ⟨_, _, writable⟩ := writable q member
      exact writable
  | filter relative _ _ subject predicate =>
    simp only [Formula.parts, forall_mem_cons, forall_mem_append] at literals
    refine (subject literals.2.1).bind fun s' subject => ?_
    have inner := predicate literals.2.2
    cases relative with
    | false =>
      refine inner.bind fun e' predicate => Lower.Gives.pure ?_
      simp [Expr.index, Expr.isWritable, subject, predicate]
    | true =>
      refine Lower.Gives.after fun names => inner.bind fun e' predicate => Lower.Gives.pure ?_
      simp [Expr.invoke, Expr.dot, Expr.isWritable, exprsWritable, subject, predicate]
  | call pool name _ ih =>
    refine (lowerList_isWritable ih (forall_mem_cons.mp literals).2).bind fun es writable =>
      (call_gives_call reader pool name es).mono ?_
    rintro _ rfl
    exact writable

end Context

end JexlScript
