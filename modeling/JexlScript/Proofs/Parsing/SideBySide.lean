import JexlScript.Proofs.Parsing.Steps
import Mathlib.Data.List.Basic

/-!
# Two readers side by side

Two readers are parallel when they end with the same fault, or at the same place
with related results and one mark for both. The layers of the parser are, over
tokens with some property `P`, one lemma for each, and for every relation of
formulas that is a `Congruence`. The two readers may differ in the binary
operators that other tokens spell, and in what they make of the entries of an
object; `Formula.ofTokensWith_parallel` is the statement about a whole list of
tokens.
-/

namespace JexlScript

open List

variable {P : Token → Prop}

namespace Parse

variable {α β γ δ : Type}

/-- How two readers end alike: with one fault, or at one place with related results. -/
def Matched (P : Token → Prop) (inside : Bool) (R : Bool → α → β → Prop) (relative : Bool)
    (x : Except ParseFault (α × Cursor)) (y : Except ParseFault (β × Cursor)) : Prop :=
  (∃ fault, x = .error fault ∧ y = .error fault ∧ ∀ t ∈ fault.found, P t) ∨
    ∃ a b m rest, x = .ok (a, ⟨rest, relative || m⟩) ∧ y = .ok (b, ⟨rest, relative || m⟩) ∧
      (∀ t ∈ rest, P t) ∧ (m = true → inside = true) ∧ R m a b

/-- Two readers that end alike wherever they start. -/
def Parallel (P : Token → Prop) (inside : Bool) (R : Bool → α → β → Prop) (p : Parse α)
    (q : Parse β) : Prop :=
  ∀ c, (∀ t ∈ c.rest, P t) → Matched P inside R c.relative (p c) (q c)

/-- A reader that leaves the mark as it is. -/
def KeepsMark (p : Parse α) : Prop :=
  ∀ c, (∃ fault, p c = .error fault ∧ ∀ t ∈ fault.found, t ∈ c.rest) ∨
    ∃ a rest, p c = .ok (a, ⟨rest, c.relative⟩) ∧ rest ⊆ c.rest

section

variable {inside : Bool} {R : Bool → α → β → Prop} {S : Bool → γ → δ → Prop}

theorem Parallel.pure {a : α} {b : β} (related : R false a b) :
    Parallel P inside R (Pure.pure a) (Pure.pure b) := by
  intro c all
  refine .inr ⟨a, b, false, c.rest, ?_, ?_, all, by simp, related⟩
  all_goals
    rw [Bool.or_false]
    rfl

/-- Parallel readers one after the other are parallel. -/
theorem Parallel.bind {p : Parse α} {q : Parse β} {k : α → Parse γ} {k' : β → Parse δ}
    (first : Parallel P inside R p q)
    (next : ∀ m a b, R m a b → Parallel P inside (fun m' => S (m || m')) (k a) (k' b)) :
    Parallel P inside S (p >>= k) (q >>= k') := by
  intro c all
  simp only [Bind.bind, StateT.bind]
  obtain ⟨fault, ran, ran', told⟩ | ⟨a, b, m, rest, ran, ran', left, outer, related⟩ := first c all
  · exact .inl ⟨fault, by simp [ran, Except.bind], by simp [ran', Except.bind], told⟩
  · simp only [ran, ran', Except.bind]
    obtain failed | ⟨a', b', m', rest', ran, ran', left', outer', related'⟩ :=
      next m a b related ⟨rest, c.relative || m⟩ left
    · exact .inl failed
    · rw [Bool.or_assoc] at ran ran'
      refine .inr ⟨a', b', m || m', rest', ran, ran', left', fun met => ?_, related'⟩
      exact (Bool.or_eq_true_iff.mp met).elim outer outer'

/-- A step that both readers share may come first. -/
theorem Parallel.after {p : Parse α} {k : α → Parse γ} {k' : α → Parse δ} (keeps : KeepsMark p)
    (next : ∀ a, Parallel P inside S (k a) (k' a)) :
    Parallel P inside S (p >>= k) (p >>= k') := by
  intro c all
  simp only [Bind.bind, StateT.bind]
  obtain ⟨fault, ran, told⟩ | ⟨a, rest, ran, left⟩ := keeps c
  · exact .inl ⟨fault, by simp [ran, Except.bind], by simp [ran, Except.bind],
      fun t found => all t (told t found)⟩
  · simp only [ran, Except.bind]
    exact next a ⟨rest, c.relative⟩ fun t member => all t (left member)

theorem Parallel.ite {p p' : Parse α} {q q' : Parse β} (b : Bool)
    (yes : Parallel P inside R p q) (no : Parallel P inside R p' q') :
    Parallel P inside R (if b then p else p') (if b then q else q') := by
  cases b with
  | true => exact yes
  | false => exact no

theorem Parallel.fail (cause : SyntaxCause) :
    Parallel P inside R (Parse.fail cause) (Parse.fail cause) :=
  fun _ all => .inl ⟨_, rfl, rfl, fun t found => all t (mem_of_mem_head? found)⟩

end

theorem KeepsMark.atSymbol (kind : SymbolKind) : KeepsMark (atSymbol kind) :=
  fun c => .inr ⟨_, _, atSymbol_eq kind c, List.Subset.refl _⟩

theorem KeepsMark.advance : KeepsMark advance :=
  fun _ => .inr ⟨(), _, rfl, fun _ => mem_of_mem_tail⟩

theorem KeepsMark.get : KeepsMark (get : Parse Cursor) :=
  fun c => .inr ⟨c, c.rest, rfl, List.Subset.refl _⟩

theorem KeepsMark.fail (cause : SyntaxCause) : KeepsMark (Parse.fail cause : Parse α) :=
  fun _ => .inl ⟨_, rfl, fun _ found => mem_of_mem_head? found⟩

theorem KeepsMark.expectSymbol (kind : SymbolKind) (what : Expected) :
    KeepsMark (expectSymbol kind what) := by
  intro c
  unfold Parse.expectSymbol
  simp only [Bind.bind, StateT.bind, atSymbol_eq, Except.bind]
  split
  · exact KeepsMark.advance c
  · exact KeepsMark.fail _ c

theorem KeepsMark.expectName (what : Expected) : KeepsMark (expectName what) := by
  intro c
  unfold Parse.expectName
  split
  · next tokens => exact .inr ⟨_, _, rfl, tokens ▸ subset_cons_self ..⟩
  · exact KeepsMark.fail _ c

/-- Lists of related items, with the marks of all of them. -/
inductive Each (R : Bool → α → β → Prop) : Bool → List α → List β → Prop
  | nil : Each R false [] []
  | cons {m m' a b as bs} : R m a b → Each R m' as bs → Each R (m || m') (a :: as) (b :: bs)

variable {inside : Bool} {R : Bool → α → β → Prop} {item : Parse α} {item' : Parse β}

theorem Parallel.commaSeparated (each : Parallel P inside R item item') (fuel : Nat) :
    Parallel P inside (Each R) (commaSeparated item fuel) (commaSeparated item' fuel) := by
  induction fuel with
  | zero => exact Parallel.pure .nil
  | succ fuel ih =>
    refine each.bind fun m a b related => Parallel.after (.atSymbol _) fun comma =>
      Parallel.ite comma ?_ (Parallel.pure ?_)
    · refine Parallel.after .advance fun _ => ih.bind fun m' as bs others => Parallel.pure ?_
      rw [Bool.or_false]
      exact .cons related others
    · exact .cons related .nil

/-- Lists in brackets of parallel items. -/
theorem Parallel.items (each : Parallel P inside R item item') (close : SymbolKind)
    (what : Expected) :
    Parallel P inside (Each R) (items item close what) (items item' close what) := by
  have closed {m : Bool} {as : List α} {bs : List β} (related : Each R m as bs) :
      Parallel P inside (fun m' => Each R (m || m'))
        (do Parse.expectSymbol close what; Pure.pure as)
        (do Parse.expectSymbol close what; Pure.pure bs) :=
    Parallel.after (.expectSymbol close what) fun _ =>
      Parallel.pure (by rw [Bool.or_false]; exact related)
  refine Parallel.after (.atSymbol close) fun b => Parallel.ite b (closed .nil) ?_
  exact Parallel.after .get fun c => (each.commaSeparated _).bind fun m as bs => closed

end Parse

namespace Formula

open Parse

/-! ## Relations of formulas -/

/-- A symbol is spelled by a token with the property. -/
def IsAmong (P : Token → Prop) (kind : SymbolKind) (symbol : String) : Prop :=
  ∃ t, P t ∧ t.lexeme = .symbol kind symbol

/-- A relation of formulas and marks that the readers keep: the mark of a formula
is that of its parts, and a filter takes the mark of its contents. -/
structure Congruence (P : Token → Prop) (R : Bool → Formula → Formula → Prop) : Prop where
  literal {t : Token} {v : Scalar} : P t → t.lexeme = .literal v →
    R false (.literal v) (.literal v)
  root {name : String} (relative : Bool) : (∃ t, P t ∧ t.lexeme = .identifier name) →
    R relative (.root name relative) (.root name relative)
  field {m f w} (name : String) : R m f w → R m (.field f name false) (.field w name false)
  unary {m f w op} : IsAmong P .unaryOp op → R m f w → R m (.unary op f) (.unary op w)
  binary {m m' f f' w w' op} : IsAmong P .binaryOp op → R m f w → R m' f' w' →
    R (m || m') (.binary op f f') (.binary op w w')
  conditional {m m' m'' f f' f'' w w' w''} : R m f w → R m' f' w' → R m'' f'' w'' →
    R (m || (m' || m'')) (.conditional f f' f'') (.conditional w w' w'')
  filter {m m' f f' w w'} : R m f w → R m' f' w' → R m (.filter f f' m') (.filter w w' m')
  array {m fs ws} : Each R m fs ws → R m (.array fs) (.array ws)
  call {m fs ws pool} (name : String) : pool ∈ [functionsPool, transformsPool] →
    Each R m fs ws → R m (.call pool name fs) (.call pool name ws)

/-- Entries with the same key and related values. -/
def EntryRelated (R : Bool → Formula → Formula → Prop) (m : Bool) (p q : String × Formula) :
    Prop := p.1 = q.1 ∧ R m p.2 q.2

namespace Congruence

variable {R : Bool → Formula → Formula → Prop} (keeps : Congruence P R)
  {m : Bool} {e w : Formula}

include keeps

/-- Unary operators before related operands. -/
theorem unaries {ops : List String} (among : ∀ op ∈ ops, IsAmong P .unaryOp op)
    (related : R m e w) : R m (ops.foldr .unary e) (ops.foldr .unary w) := by
  induction ops with
  | nil => exact related
  | cons op ops ih =>
    exact keeps.unary (among op (.head _)) (ih fun o member => among o (.tail _ member))

end Congruence

/-! ## Primaries -/

/-- The reader of primaries, with a choice of what is made of the entries of an object. -/
def primaryWith (build : List (String × Formula) → Formula) : PrimaryReader :=
  fun inner inside => do
    if ← atSymbol .openCurl then
      advance
      let entries ← items (entry inner inside) .closeCurl .objectEnd
      pure (build entries)
    else primary inner inside

section

variable {build : List (String × Formula) → Formula} {inner : Bool → Parse Formula}
  {inside : Bool} {t : Token} {rest : List Token} {relative : Bool}

theorem primaryWith_openCurl (is : t.Is .openCurl) :
    primaryWith build inner inside ⟨t :: rest, relative⟩ =
      (do
        let ps ← items (entry inner inside) .closeCurl .objectEnd
        pure (build ps) : Parse Formula) ⟨rest, relative⟩ := by
  obtain ⟨lexeme, raw, position⟩ := t
  obtain ⟨text, is⟩ := is
  cases is
  rfl

theorem primaryWith_other (other : ¬ t.Is .openCurl) :
    primaryWith build inner inside ⟨t :: rest, relative⟩ =
      primary inner inside ⟨t :: rest, relative⟩ := by
  have starts : startsWith .openCurl (t :: rest) = false := by
    rw [← Bool.not_eq_true, startsWith_eq_true]
    rintro ⟨_, _, same, is⟩
    cases same
    exact other is
  simp only [primaryWith, Bind.bind, StateT.bind, atSymbol_eq, starts, Except.bind,
    Bool.false_eq_true, if_false]

/-- The plain reader keeps the last value of each key. -/
theorem primaryWith_ofEntries : primaryWith ofEntries = primary := by
  funext inner inside c
  obtain ⟨_ | ⟨t, rest⟩, relative⟩ := c
  · rfl
  · by_cases curl : t.Is .openCurl
    · rw [primaryWith_openCurl curl, primary_openCurl curl]
    · exact primaryWith_other curl

end

/-! ## The layers -/

section

variable {R : Bool → Formula → Formula → Prop} (keeps : Congruence P R)
  {inner inner' : Bool → Parse Formula}
  (each : ∀ inside, Parallel P inside R (inner inside) (inner' inside)) (inside : Bool)

include each

theorem entry_parallel :
    Parallel P inside (EntryRelated R) (entry inner inside) (entry inner' inside) := by
  have key : KeepsMark objectKey := by
    intro c
    unfold objectKey
    split
    · next tokens => exact .inr ⟨_, _, rfl, tokens ▸ subset_cons_self ..⟩
    · next tokens => exact .inr ⟨_, _, rfl, tokens ▸ subset_cons_self ..⟩
    · exact KeepsMark.fail _ c
  refine Parallel.after key fun key => Parallel.after (.expectSymbol _ _) fun _ => ?_
  refine (each inside).bind fun m f w related => Parallel.pure ?_
  rw [Bool.or_false]
  exact ⟨rfl, related⟩

include keeps

omit each in
/-- A relative name sets the mark of both. -/
theorem relativeName_parallel {dot : Token} (holds : P dot) :
    Parallel P inside R (relativeName inside dot) (relativeName inside dot) := by
  rintro ⟨_ | ⟨⟨lexeme, raw, position⟩, rest⟩, relative⟩ all
  · exact .inl ⟨_, rfl, rfl, by simp⟩
  obtain ⟨named, others⟩ := forall_mem_cons.mp all
  cases lexeme with
  | identifier name =>
    cases inside with
    | false =>
      refine .inl ⟨_, rfl, rfl, fun t found => ?_⟩
      cases found
      exact holds
    | true =>
      refine .inr ⟨_, _, true, rest, ?_, ?_, others, fun _ => rfl, keeps.root true ⟨_, named, rfl⟩⟩
      all_goals
        rw [Bool.or_true]
        rfl
  | _ =>
    refine .inl ⟨_, rfl, rfl, fun t found => ?_⟩
    cases found
    exact named

/-- Primaries are parallel if objects are made of related entries in related ways. -/
theorem primary_parallel {build build' : List (String × Formula) → Formula}
    (objects : ∀ m ps qs, Each (EntryRelated R) m ps qs → R m (build ps) (build' qs)) :
    Parallel P inside R (primaryWith build inner inside) (primaryWith build' inner' inside) := by
  rintro ⟨_ | ⟨t, rest⟩, relative⟩ all
  · exact .inl ⟨_, rfl, rfl, by simp⟩
  obtain ⟨holds, others⟩ := forall_mem_cons.mp all
  -- Objects are built differently on the two sides, and everything else alike.
  by_cases curl : t.Is .openCurl
  · rw [primaryWith_openCurl curl, primaryWith_openCurl curl]
    refine Parallel.bind ((entry_parallel each inside).items _ _) ?_ ⟨rest, relative⟩ others
    intro m ps qs entries
    exact Parallel.pure (by rw [Bool.or_false]; exact objects m ps qs entries)
  rw [primaryWith_other curl, primaryWith_other curl]
  obtain ⟨lexeme, raw, position⟩ := t
  cases lexeme with
  | literal v => exact Parallel.pure (keeps.literal holds rfl) ⟨rest, relative⟩ others
  | identifier name =>
    rw [primary_identifier rfl, primary_identifier rfl]
    refine Parallel.after (.atSymbol _) (fun paren => Parallel.ite paren ?_ ?_)
      ⟨rest, relative⟩ others
    · refine Parallel.after .advance fun _ => ((each inside).items _ _).bind ?_
      intro m es ws args
      exact Parallel.pure (by rw [Bool.or_false]; exact keeps.call _ (by simp) args)
    · exact Parallel.pure (keeps.root false ⟨_, holds, rfl⟩)
  | symbol kind text =>
    cases kind with
    | dot => exact relativeName_parallel keeps inside holds ⟨rest, relative⟩ others
    | openParen =>
      rw [primary_openParen ⟨text, rfl⟩, primary_openParen ⟨text, rfl⟩]
      refine Parallel.bind (each inside) ?_ ⟨rest, relative⟩ others
      intro m f w related
      exact Parallel.after (.expectSymbol _ _) fun _ =>
        Parallel.pure (by rw [Bool.or_false]; exact related)
    | openBracket =>
      rw [primary_openBracket ⟨text, rfl⟩, primary_openBracket ⟨text, rfl⟩]
      refine Parallel.bind ((each inside).items _ _) ?_ ⟨rest, relative⟩ others
      intro m es ws elements
      exact Parallel.pure (by rw [Bool.or_false]; exact keeps.array elements)
    | openCurl => exact absurd ⟨text, rfl⟩ curl
    -- Both sides refuse the token, which is one of those given.
    | _ =>
      refine .inl ⟨_, rfl, rfl, fun t found => ?_⟩
      cases found
      exact holds

omit keeps in
/-- The mark of the contents becomes that of the filter. -/
theorem filterContents_parallel :
    Parallel P inside (fun m x y => m = false ∧ x.2 = y.2 ∧ R x.2 x.1 y.1)
      (filterContents inner) (filterContents inner') := by
  intro c all
  have ran (reader : Bool → Parse Formula) : filterContents reader c =
      (reader true ⟨c.rest, false⟩).map fun (e, c') =>
        ((e, c'.relative), ⟨c'.rest, c.relative⟩) := by
    change (reader true ⟨c.rest, false⟩).bind (fun x =>
      .ok ((x.1, x.2.relative), (⟨x.2.rest, c.relative⟩ : Cursor))) = _
    cases reader true ⟨c.rest, false⟩ <;> rfl
  rw [ran, ran]
  obtain ⟨fault, ran, ran', told⟩ | ⟨f, w, m, rest, ran, ran', left, _, related⟩ :=
    each true ⟨c.rest, false⟩ all
  · exact .inl ⟨fault, by rw [ran]; rfl, by rw [ran']; rfl, told⟩
  · refine .inr ⟨(f, m), (w, m), false, rest, ?_, ?_, left, by simp, rfl, rfl, related⟩
    all_goals
      first | rw [ran] | rw [ran']
      rw [Bool.or_false]
      rfl

/-- Suffixes of related operands. -/
theorem suffixes_parallel (fuel : Nat) {m : Bool} {s s' : Formula} (subject : R m s s') :
    Parallel P inside (fun m' => R (m || m')) (suffixes inner inside fuel s)
      (suffixes inner' inside fuel s') := by
  induction fuel generalizing m s s' with
  | zero => exact Parallel.pure (by rwa [Bool.or_false])
  | succ fuel ih =>
    refine Parallel.after (.atSymbol _) fun dot => Parallel.ite dot ?_ ?_
    · refine Parallel.after .advance fun _ => Parallel.after (.expectName _) fun name => ?_
      exact ih (keeps.field name subject)
    refine Parallel.after (.atSymbol _) fun bracket => Parallel.ite bracket ?_ ?_
    · refine Parallel.after .advance fun _ => (filterContents_parallel each inside).bind ?_
      rintro _ ⟨e, relative⟩ ⟨e', _⟩ ⟨rfl, rfl, contents⟩
      exact Parallel.after (.expectSymbol _ _) fun _ => ih (keeps.filter subject contents)
    refine Parallel.after (.atSymbol _) fun pipe => Parallel.ite pipe ?_ ?_
    · refine Parallel.after .advance fun _ => Parallel.after (.expectName _) fun name => ?_
      refine Parallel.after (.atSymbol _) fun paren => Parallel.ite paren ?_ ?_
      · refine Parallel.after .advance fun _ => ((each inside).items _ _).bind ?_
        intro m' es ws args
        simp only [← Bool.or_assoc]
        exact ih (keeps.call _ (by simp) (.cons subject args))
      · have among : transformsPool ∈ [functionsPool, transformsPool] := by simp
        simpa using ih (keeps.call name among (.cons subject .nil))
    · exact Parallel.pure (by rwa [Bool.or_false])

omit keeps each in
theorem isAmong_of_mem_unaryOps {ts : List Token} (all : ∀ t ∈ ts, P t) :
    ∀ op ∈ unaryOps ts, IsAmong P .unaryOp op := by
  fun_induction unaryOps ts with
  | case1 symbol raw position ts ih =>
    obtain ⟨holds, others⟩ := forall_mem_cons.mp all
    exact forall_mem_cons.mpr ⟨⟨_, holds, rfl⟩, ih others⟩
  | case2 => simp

/-- Operands, in which unary operators are taken from tokens with the property. -/
theorem operand_parallel {first first' : Parse Formula}
    (start : Parallel P inside R first first') :
    Parallel P inside R (operand inner inside first) (operand inner' inside first') := by
  intro c all
  have ran (reader : Bool → Parse Formula) (start : Parse Formula) :
      operand reader inside start c = (do
        let e ← start
        let c' ← get
        let e ← suffixes reader inside c'.rest.length e
        pure ((unaryOps c.rest).foldr .unary e) : Parse Formula)
          ⟨c.rest.drop (unaryOps c.rest).length, c.relative⟩ := rfl
  rw [ran, ran]
  refine Parallel.bind start (fun m f w related => ?_) ⟨_, c.relative⟩
    fun t member => all t (mem_of_mem_drop member)
  refine Parallel.after .get fun c' => (suffixes_parallel keeps each inside _ related).bind ?_
  intro m' e e' related
  refine Parallel.pure ?_
  rw [Bool.or_false]
  exact keeps.unaries (isAmong_of_mem_unaryOps all) related

theorem choice_parallel {test test' : Parse Formula} (tested : Parallel P inside R test test') :
    Parallel P inside R (choice inner inside test) (choice inner' inside test') := by
  refine tested.bind fun m f w related => Parallel.after (.atSymbol _) fun question =>
    Parallel.ite question ?_ (Parallel.pure (by rwa [Bool.or_false]))
  refine Parallel.after .advance fun _ => (each inside).bind fun m' y y' consequent => ?_
  refine Parallel.after (.expectSymbol _ _) fun _ =>
    (each inside).bind fun m'' n n' alternate => Parallel.pure ?_
  rw [Bool.or_false]
  exact keeps.conditional related consequent alternate

end

section

variable {ι : Type} {g g' : Grammar ι}
  (agree : ∀ t, P t → ∀ op, t.lexeme = .symbol .binaryOp op →
    g.lookup? op .binaryOp = g'.lookup? op .binaryOp)

include agree

/-- The two grammars agree on the operators of these tokens. -/
theorem binaryOp?_parallel (inside : Bool) :
    Parallel P inside (fun m found found' => m = false ∧ found = found' ∧
        ∀ link ∈ found, IsAmong P .binaryOp link.1) (binaryOp? g) (binaryOp? g') := by
  intro c all
  have ends {found : Option (String × Double)}
      (among : ∀ link ∈ found, IsAmong P .binaryOp link.1) :
      Matched P inside (fun m found found' => m = false ∧ found = found' ∧
          ∀ link ∈ found, IsAmong P .binaryOp link.1) c.relative
        (.ok (found, c)) (.ok (found, c)) := by
    refine .inr ⟨found, found, false, c.rest, ?_, ?_, all, by simp, rfl, rfl, among⟩
    all_goals rw [Bool.or_false]
  unfold binaryOp?
  split
  · next op raw position rest tokens =>
      have holds := all ⟨.symbol .binaryOp op, raw, position⟩ (tokens ▸ .head _)
      rw [← agree _ holds op rfl]
      refine ends fun link same => ?_
      obtain ⟨element, _, rfl⟩ := Option.map_eq_some_iff.mp same
      exact ⟨_, holds, rfl⟩
  · exact ends (by simp)

variable {R : Bool → Formula → Formula → Prop} (keeps : Congruence P R)

include keeps

/-- Chains are climbed in parallel, since precedences are the same. -/
theorem joined_parallel {operand operand' : Parse Formula} {inside : Bool}
    (each : Parallel P inside R operand operand') (fuel : Nat) (bound : Double) {m : Bool}
    {e w : Formula} (related : R m e w) :
    Parallel P inside (fun m' => R (m || m')) (joined g operand fuel bound e)
      (joined g' operand' fuel bound w) := by
  induction fuel generalizing bound m e w with
  | zero => exact Parallel.pure (by rwa [Bool.or_false])
  | succ fuel ih =>
    have stays : Parallel P inside (fun m' => R (m || m')) (pure e) (pure w) :=
      Parallel.pure (by rwa [Bool.or_false])
    refine (binaryOp?_parallel agree inside).bind ?_
    rintro _ found _ ⟨rfl, rfl, among⟩
    cases found with
    | none => exact stays
    | some link =>
      refine Parallel.ite (link.2.atMost bound) stays (Parallel.after .advance fun _ => ?_)
      refine each.bind fun m₁ f f' first => (ih link.2 first).bind fun m₂ right right' others => ?_
      have whole := ih bound (keeps.binary (among link rfl) related others)
      simpa only [Bool.false_or, Bool.or_assoc] using whole

theorem chain_parallel {operand operand' : Parse Formula} {inside : Bool}
    (each : Parallel P inside R operand operand') :
    Parallel P inside R (chain g operand) (chain g' operand') :=
  each.bind fun _ _ _ related => Parallel.after .get fun _ =>
    joined_parallel agree keeps each _ _ related

variable {build build' : List (String × Formula) → Formula}
  (objects : ∀ m ps qs, Each (EntryRelated R) m ps qs → R m (build ps) (build' qs))

include objects

/-- Expressions, by induction on the depth. -/
theorem expression_parallel (depth : Nat) (inside : Bool) :
    Parallel P inside R (expression g (primaryWith build) depth inside)
      (expression g' (primaryWith build') depth inside) := by
  induction depth generalizing inside with
  | zero => exact Parallel.fail _
  | succ depth ih =>
    exact choice_parallel keeps ih inside (chain_parallel agree keeps
      (operand_parallel keeps ih inside (primary_parallel keeps ih inside objects)))

/-- Whole lists of tokens are refused with one fault or read to related formulas. -/
theorem ofTokensWith_parallel {tokens : List Token} (all : ∀ t ∈ tokens, P t) :
    (∃ fault, ofTokensWith g (primaryWith build) tokens = .error fault ∧
        ofTokensWith g' (primaryWith build') tokens = .error fault ∧ ∀ t ∈ fault.found, P t) ∨
      ∃ f w, ofTokensWith g (primaryWith build) tokens = .ok f ∧
        ofTokensWith g' (primaryWith build') tokens = .ok w ∧ R false f w := by
  unfold ofTokensWith
  by_cases empty : tokens.isEmpty
  · exact .inl ⟨_, if_pos empty, if_pos empty, by simp⟩
  simp only [empty, Bool.false_eq_true, if_false]
  obtain ⟨fault, ran, ran', told⟩ | ⟨f, w, m, rest, ran, ran', left, outer, related⟩ :=
    expression_parallel agree keeps objects tokens.length false ⟨tokens, false⟩ all
  · exact .inl ⟨fault, by rw [ran], by rw [ran'], told⟩
  rw [ran, ran']
  cases m with
  | true => cases outer rfl
  | false =>
    cases rest with
    | nil => exact .inr ⟨f, w, rfl, rfl, related⟩
    | cons t ts =>
      -- the readers stop before the end
      refine .inl ⟨_, rfl, rfl, fun u found => ?_⟩
      cases found
      exact left t (.head _)

end

/-- What every step keeps holds of a formula that is read. -/
theorem ofTokens_keeps {ι : Type} {g : Grammar ι} {R : Bool → Formula → Formula → Prop}
    (keeps : Congruence P R)
    (objects : ∀ m ps qs, Each (EntryRelated R) m ps qs → R m (ofEntries ps) (ofEntries qs))
    {tokens : List Token} (all : ∀ t ∈ tokens, P t) {f : Formula}
    (read : ofTokens g tokens = .ok f) : R false f f := by
  rw [ofTokens, ← primaryWith_ofEntries] at read
  obtain ⟨fault, failed, _⟩ | ⟨e, w, read', read'', related⟩ :=
    ofTokensWith_parallel (g := g) (fun _ _ _ _ => rfl) keeps objects all
  · cases read.symm.trans failed
  · cases read.symm.trans read'
    cases read.symm.trans read''
    exact related

/-- A text is read if its tokens are. -/
theorem parse_eq_ok_iff {ι : Type} {g : Grammar ι} {text : String} {f : Formula} :
    parse g text = .ok f ↔ ∃ tokens, tokenize g text = .ok tokens ∧ ofTokens g tokens = .ok f := by
  unfold parse
  cases tokenize g text with
  | error why => simp [bind, Except.bind]
  | ok tokens =>
    cases result : ofTokens g tokens <;> simp [bind, Except.bind, Except.mapError, result]

/-! ## Special relations -/

theorem forall_of_each {α β : Type} {R : Bool → α → β → Prop} {p : α → Prop}
    (holds : ∀ m a b, R m a b → p a) {m : Bool} {as : List α} {bs : List β}
    (each : Each R m as bs) : ∀ a ∈ as, p a := by
  induction each with
  | nil => simp
  | cons first _ ih => exact forall_mem_cons.mpr ⟨holds _ _ _ first, ih⟩

theorem eq_of_each {α : Type} {R : Bool → α → α → Prop} (same : ∀ m a b, R m a b → a = b)
    {m : Bool} {as bs : List α} (each : Each R m as bs) : as = bs := by
  induction each with
  | nil => rfl
  | cons first _ ih => rw [same _ _ _ first, ih]

/-- Equality is kept by every step. -/
theorem eq_congruence : Congruence P fun _ f w => f = w where
  literal _ _ := rfl
  root _ _ := rfl
  field _ same := same ▸ rfl
  unary _ same := same ▸ rfl
  binary _ left right := left ▸ right ▸ rfl
  conditional test yes no := test ▸ yes ▸ no ▸ rfl
  filter subject contents := subject ▸ contents ▸ rfl
  array each := eq_of_each (fun _ _ _ same => same) each ▸ rfl
  call _ _ each := eq_of_each (fun _ _ _ same => same) each ▸ rfl

/-- Grammars that agree on the operators of a list of tokens read it alike, and the fault is told
at one of its tokens. -/
theorem ofTokens_alike {ι : Type} {g g' : Grammar ι}
    (agree : ∀ t, P t → ∀ op, t.lexeme = .symbol .binaryOp op →
      g.lookup? op .binaryOp = g'.lookup? op .binaryOp)
    {tokens : List Token} (all : ∀ t ∈ tokens, P t) :
    ofTokens g tokens = ofTokens g' tokens ∧
      ∀ fault, ofTokens g tokens = .error fault → ∀ t ∈ fault.found, P t := by
  unfold ofTokens
  rw [← primaryWith_ofEntries]
  obtain ⟨fault, failed, failed', told⟩ | ⟨f, _, read, read', rfl⟩ :=
    ofTokensWith_parallel agree eq_congruence
      (fun _ _ _ each => congrArg ofEntries (eq_of_each (fun _ _ _ => Prod.ext_iff.mpr) each)) all
  · refine ⟨failed.trans failed'.symm, fun other is => ?_⟩
    cases failed.symm.trans is
    exact told
  · refine ⟨read.trans read'.symm, fun fault is => ?_⟩
    cases read.symm.trans is

end Formula

end JexlScript
