import JexlScript.Proofs.Scoping.Arguments
import JexlScript.Proofs.Statements.Declarations

/-!
# Scripts account for their mentions

`Expr.lower_accounts` compares the references of a script with the mentions of the
expression that it stands for. A reference is to a name that a function of the script binds
around it, or it is what a mention is turned into. Conversely each mention is turned into
the reference that `Mention.reference?` says, under the binders that the expression has
around it, unless it is the index that a quantifier leaves out. And a name that stays what
it is but is bound by nothing is neither that of a builtin nor that of a module.

The induction is on expressions at any position. At the position of the argument of a
quantifier that is not hidden, only what the quantifier keeps of the script counts.
-/

namespace JexlScript.Routine

open List

open Script (Reference exprsReferences propsReferences)

variable {b : List String} {r : Reference}

/-- Whether a name is that of a builtin or of a module. -/
def isReserved (x : String) : Bool := (builtins.get? x).isSome || isModule x

/-- A name that stays what it is has a binder, or is not reserved. -/
def Mention.Admitted (b : List String) (m : Mention) : Prop :=
  m.rendering b = .itself → ∀ x ∈ m.site.name?, m.isBound b = true ∨ isReserved x = false

/-- Whether references account for mentions, where some names are bound. -/
structure Accounts (b : List String) (ms : List Mention) (rs : List Reference) : Prop where
  sound : ∀ r ∈ rs, r.name ∈ r.scope ∨ ∃ m ∈ ms, m.reference? b = some r
  complete : ∀ m ∈ ms, ∀ r, m.reference? b = some r → ¬ m.Lost b → r ∈ rs
  admitted : ∀ m ∈ ms, m.Admitted b

namespace Accounts

variable {b : List String} {ms ms' : List Mention} {rs rs' : List Reference}

theorem nil : Accounts b [] [] := ⟨by simp, by simp, by simp⟩

theorem append (left : Accounts b ms rs) (right : Accounts b ms' rs') :
    Accounts b (ms ++ ms') (rs ++ rs') := by
  refine ⟨fun r member => ?_, fun m member r is other => ?_,
    forall_mem_append.mpr ⟨left.admitted, right.admitted⟩⟩
  · rcases mem_append.mp member with member | member
    · refine (left.sound r member).imp_right ?_
      rintro ⟨m, inside, is⟩
      exact ⟨m, mem_append_left _ inside, is⟩
    · refine (right.sound r member).imp_right ?_
      rintro ⟨m, inside, is⟩
      exact ⟨m, mem_append_right _ inside, is⟩
  · rcases mem_append.mp member with member | member
    · exact mem_append_left _ (left.complete m member r is other)
    · exact mem_append_right _ (right.complete m member r is other)

theorem congr (accounts : Accounts b ms rs) (same : ∀ r, r ∈ rs' ↔ r ∈ rs) : Accounts b ms rs' :=
  ⟨fun r member => accounts.sound r ((same r).mp member),
    fun m member r is other => (same r).mpr (accounts.complete m member r is other),
    accounts.admitted⟩

theorem single {m : Mention} (is : m.reference? b = some r) (admitted : m.Admitted b) :
    Accounts b [m] [r] := by
  refine ⟨fun r' member => ?_, fun m' member r' is' _ => ?_, ?_⟩
  · cases mem_singleton.mp member
    exact .inr ⟨m, mem_singleton_self m, is⟩
  · cases mem_singleton.mp member
    exact mem_singleton.mpr (Option.some.inj (is'.symm.trans is))
  · simpa using admitted

theorem lost {m : Mention} (lost : m.Lost b) (admitted : m.Admitted b) : Accounts b [m] [] := by
  refine ⟨by simp, fun m' member r is other => ?_, by simpa using admitted⟩
  cases mem_singleton.mp member
  exact absurd lost other

theorem global {site : Site} {manner : Script.Manner} {g : String}
    (is : (⟨site, []⟩ : Mention).rendering b = .global manner g) :
    Accounts b [⟨site, []⟩] [⟨manner, g, []⟩] := by
  refine .single ?_ fun itself => ?_
  · rw [Mention.reference?, is]
  · rw [is] at itself
    cases itself

/-- Below binders a mention and its reference get the same names added. -/
theorem within (names : List String) (accounts : Accounts (names ++ b) ms rs) :
    Accounts b (ms.map (Mention.within names)) (rs.map (Reference.within names)) := by
  refine ⟨fun r member => ?_, fun m member r is other => ?_, fun m member => ?_⟩
  · obtain ⟨r, inside, rfl⟩ := mem_map.mp member
    rcases accounts.sound r inside with bound | ⟨m, mentioned, is⟩
    · exact .inl (mem_append_left _ bound)
    · refine .inr ⟨m.within names, mem_map_of_mem mentioned, ?_⟩
      rw [Mention.reference?_within, is, Option.map_some]
  · obtain ⟨m, mentioned, rfl⟩ := mem_map.mp member
    rw [Mention.reference?_within] at is
    obtain ⟨r, turned, rfl⟩ := Option.map_eq_some_iff.mp is
    rw [Mention.lost_within] at other
    exact mem_map_of_mem (accounts.complete m mentioned r turned other)
  · obtain ⟨m, mentioned, rfl⟩ := mem_map.mp member
    intro itself x named
    rw [Mention.rendering_within] at itself
    refine (accounts.admitted m mentioned itself x named).imp_left fun bound => ?_
    simpa [Mention.isBound, Mention.within] using bound

end Accounts

/-- Of a stable script all is accounted for in every position. -/
theorem Accounts.kept {ms : List Mention} {s : Script.Expr}
    (accounts : Accounts b ms s.references) (stable : isStable s = true) (p : Position) :
    Accounts b ms (p.kept s) := by
  rwa [kept_of_isStable stable]

/-- The script of an outcome accounts for some mentions. -/
abbrev Accounted (b : List String) (ms : List Mention) (o : Outcome) : Prop :=
  Gives (fun e => Accounts b ms e.references) o

/-! ## Positions -/

namespace Position

/-- The quantifier that a position is inside of. -/
def quantifier? : Position → Option String
  | .plain => none
  | .argument f | .callee f | .index f => some f

/-- The position that counts: where the quantifier is hidden it keeps everything. -/
def seen (b : List String) (p : Position) : Position :=
  if p.quantifier?.any b.contains then .plain else p

@[simp]
theorem seen_plain (b : List String) : plain.seen b = plain := rfl

theorem seen_alone {α : Type} (b : List String) (p : Position) (xs : List α) :
    (p.alone xs).seen b = (p.seen b).alone xs := by
  match xs with
  | [_] => rfl
  | [] | _ :: _ :: _ => rfl

theorem seen_toCallee (b : List String) (p : Position) :
    p.toCallee.seen b = (p.seen b).toCallee := by
  cases p with
  | plain => rfl
  | argument f | callee f | index f =>
    by_cases hidden : f ∈ b <;> simp [seen, toCallee, quantifier?, hidden]

theorem seen_toIndex (b : List String) (p : Position) : p.toIndex.seen b = (p.seen b).toIndex := by
  cases p with
  | plain => rfl
  | argument f | callee f | index f =>
    by_cases hidden : f ∈ b <;> simp [seen, toIndex, quantifier?, hidden]

theorem alone_congr {α β : Type} (p : Position) {xs : List α} {ys : List β}
    (same : xs.length = ys.length) : p.alone xs = p.alone ys := by
  match xs, ys with
  | [], [] | [_], [_] | _ :: _ :: _, _ :: _ :: _ => rfl

theorem ofArgument_seen_of_mem {f : String} (bound : f ∈ b) : (ofArgument f).seen b = plain := by
  rw [ofArgument]
  split
  · exact if_pos (contains_iff_mem.mpr bound)
  · rfl

theorem ofArgument_seen_of_unknown {f : String} (b : List String)
    (unknown : builtins.get? f = none) : (ofArgument f).seen b = plain := by
  simp [ofArgument, isQuantifier, unknown]

theorem ofArgument_kept {f : String} {builtin : Builtin} (found : builtins.get? f = some builtin)
    (unbound : f ∉ b) : ((ofArgument f).seen b).kept = builtin.kept := by
  have seen : (argument f).seen b = argument f := if_neg (by simpa [quantifier?] using unbound)
  cases builtin <;> simp [ofArgument, isQuantifier, found, seen, kept, Builtin.kept]

end Position

/-- Whether what is kept of an outcome at a position accounts for the mentions there. -/
def Expr.AccountedAt (b : List String) (p : Position) (e : Expr) : Prop :=
  Gives (fun s => Accounts b (e.mentions p) ((p.seen b).kept s)) (e.lower b)

/-! ## Pieces of scripts -/

theorem references_joinedBy (op : String) (es : List Script.Expr) :
    (joinedBy op es).references = exprsReferences es := by
  cases es with
  | nil => rfl
  | cons e es =>
    have fold (es : List Script.Expr) (e : Script.Expr) :
        (es.foldl (fun left right => .logical left op right) e).references =
          e.references ++ exprsReferences es := by
      induction es generalizing e with
      | nil => simp
      | cons f es ih => simp [ih, Script.Expr.references]
    exact fold es e

theorem isStable_joinedBy (op : String) (e e' : Script.Expr) (es : List Script.Expr) :
    isStable (joinedBy op (e :: e' :: es)) = true := by
  have fold (es : List Script.Expr) : ∀ l r : Script.Expr,
      isStable (es.foldl (fun left right => .logical left op right) (.logical l op r)) = true := by
    induction es with
    | nil => exact fun _ _ => rfl
    | cons f es ih => exact fun l r => ih _ f
  exact fold es e e'

theorem isStable_compared (left : Operand) (op : CmpOp) (right : Operand) :
    isStable (compared left op right) = true := by
  cases op with
  | is | isNot =>
    rw [compared]
    split <;> rfl
  | _ => rfl

theorem isStable_comparedAll (left : Operand) (operands : List (CmpOp × Operand)) :
    isStable (joinedBy "&&" (comparedAll left operands)) = true := by
  match operands with
  | [] => rfl
  | [(op, right)] => exact isStable_compared left op right
  | (_, _) :: (_, _) :: _ => exact isStable_joinedBy ..

/-- An operand that is `None` refers to nothing, so it may be left out of a comparison. -/
def NoneSilent (o : Operand) : Prop := o.2 = true → o.1.references = []

theorem none_silent {e : Expr} {e' : Script.Expr} (lowered : e.lower b = .ok e') :
    NoneSilent (e', e.isNone) := by
  intro is
  unfold Expr.isNone at is
  split at is
  · cases lowered
    rfl
  · cases is

/-- A comparison refers to what its operands refer to. -/
theorem mem_compared {left right : Operand} (op : CmpOp) (silent : NoneSilent left)
    (silent' : NoneSilent right) :
    r ∈ (compared left op right).references ↔ r ∈ left.1.references ∨ r ∈ right.1.references := by
  obtain ⟨l, isNone⟩ := left
  obtain ⟨e, isNone'⟩ := right
  cases op with
  | is | isNot =>
    cases isNone with
    | true => simp [compared, Script.Expr.references, show l.references = [] from silent rfl]
    | false =>
      cases isNone' with
      | true => simp [compared, Script.Expr.references, show e.references = [] from silent' rfl]
      | false => simp [compared, Script.Expr.references]
  | «in» | notIn => simp [compared, Script.Expr.references, or_comm]
  | eq | notEq | lt | ltE | gt | gtE => simp [compared, Script.Expr.references]

/-- A chain of comparisons refers to what its operands refer to. -/
theorem mem_comparedAll {left : Operand} {operands : List (CmpOp × Operand)}
    (silent : NoneSilent left) (silents : ∀ o ∈ operands, NoneSilent o.2) (some : operands ≠ []) :
    r ∈ exprsReferences (comparedAll left operands) ↔
      r ∈ left.1.references ++ operands.flatMap fun o => o.2.1.references := by
  induction operands generalizing left with
  | nil => exact absurd rfl some
  | cons o operands ih =>
    obtain ⟨op, right⟩ := o
    obtain ⟨silentRight, silents⟩ := forall_mem_cons.mp silents
    have first := mem_compared (r := r) op silent silentRight
    cases operands with
    | nil => simp [comparedAll, first]
    | cons o operands =>
      have rest := ih silentRight silents (cons_ne_nil _ _)
      rw [comparedAll, Script.exprsReferences_cons, mem_append, first, rest]
      simp only [flatMap_cons, mem_append]
      tauto

theorem references_filtered (target : String) (items : Script.Expr) (conditions : List Script.Expr) :
    (filtered target items conditions).references =
      items.references ++ (exprsReferences conditions).map (Reference.within [target]) := by
  rw [filtered]
  cases conditions with
  | nil => simp
  | cons c cs =>
    simp [Script.Expr.references, references_joinedBy, Script.paramNames, Script.Param.names]

theorem isStable_looped_cons (element : Script.Expr) (l : Loop) (ls : List Loop) :
    isStable (looped element (l :: ls)) = true := by
  cases ls <;> rfl

theorem references_looped_cons (element : Script.Expr) (l : Loop) (ls : List Loop) :
    (looped element (l :: ls)).references =
      l.items.references ++ (looped element ls).references.map (Reference.within [l.target]) := by
  cases ls <;> simp [looped, Script.Expr.references, Script.paramNames, Script.Param.names]

/-! ## Names -/

/-- A name that stays what it is is accounted for. -/
theorem nameOutcome_accounts {site : Site} {x : String} (named : site.name? = some x)
    (itself : (⟨site, []⟩ : Mention).rendering b = .itself) :
    Accounted b [⟨site, []⟩] (nameOutcome b x) := by
  have turned : (⟨site, []⟩ : Mention).reference? b = some ⟨.value, x, []⟩ := by
    simp [Mention.reference?, itself, named]
  rw [nameOutcome]
  split
  · next bound =>
      refine .ok (.single turned fun _ y is => .inl ?_)
      exact (Mention.isBound_iff named).mpr (contains_iff_mem.mp bound)
  · split
    · exact .error _
    · next builtin =>
        split
        · exact .error _
        · next module =>
            refine .ok (.single turned fun _ y is => .inr ?_)
            cases named.symm.trans is
            rw [isReserved, Bool.or_eq_false_iff]
            exact ⟨by simpa using builtin, by simpa using module⟩

theorem eq_of_nameOutcome {x : String} {s : Script.Expr} (is : nameOutcome b x = .ok s) :
    s = .ident x := by
  unfold nameOutcome at is
  split_ifs at is <;> cases is <;> rfl

theorem nameOutcome_accountedAt (b : List String) (p : Position) (x : String) :
    Gives (fun s => Accounts b [⟨p.site x, []⟩] ((p.seen b).kept s)) (nameOutcome b x) := by
  intro s is
  have named : (p.site x).name? = some x := by
    cases p with
    | index f =>
      by_cases same : x = "map" <;> simp [Position.site, Site.name?, same]
    | _ => rfl
  have itself : (⟨p.site x, []⟩ : Mention).rendering b = .itself := by
    have own : (p.site x).rendering = .itself := by
      cases p with
      | index f => by_cases same : x = "map" <;> simp [Position.site, Site.rendering, same]
      | _ => rfl
    rw [Mention.rendering, own, ite_self]
  have accounts := nameOutcome_accounts named itself s is
  obtain rfl := eq_of_nameOutcome is
  -- only the index of a mapping may be left out, and only if the quantifier is not hidden
  cases p with
  | index f =>
    by_cases hidden : f ∈ b
    · simpa [Position.seen, Position.quantifier?, hidden, Position.kept] using accounts
    · have seen : (Position.index f).seen b = .index f := by
        simp [Position.seen, Position.quantifier?, hidden]
      rw [seen, Position.kept, keptIndex]
      split
      · next same =>
          have lost : Mention.Lost b ⟨(Position.index f).site x, []⟩ :=
            ⟨f, by simp [Position.site, same], by simpa using hidden⟩
          exact .lost lost (accounts.admitted _ (mem_singleton_self _))
      · exact accounts
  | plain => exact accounts
  | argument f | callee f =>
    rw [Position.seen]
    split <;> exact accounts

/-- A module is a name that is not bound. -/
theorem module?_eq_some {value : Expr} {module : String} (is : value.module? b = some module) :
    value = .name module ∧ isModule module = true ∧ module ∉ b := by
  unfold Expr.module? at is
  split at is
  · split at is
    · next found =>
        cases is
        simpa using found
    · cases is
  · cases is

theorem module?_eq_none {owner : String} (is : (Expr.name owner).module? b = none) :
    owner ∈ b ∨ isModule owner = false := by
  simp only [Expr.module?] at is
  split at is
  · cases is
  · next other =>
      by_cases bound : owner ∈ b
      · exact .inl bound
      · exact .inr (by simpa [bound] using other)

theorem names?_eq_ok {α : Type} {params : Params α} {names : List String}
    (is : params.names? = .ok names) : names = params.positional ++ params.ordinary := by
  unfold Params.names? at is
  split at is
  · cases is
  · split at is
    · cases is
    · cases is
      rfl

theorem noKeywords_eq_ok {keywords : List (Option String × Expr)} {callee : String} {u : Unit}
    (is : noKeywords keywords callee = .ok u) : keywords = [] := by
  unfold noKeywords at is
  split at is
  · next empty => exact List.isEmpty_iff.mp empty
  · cases is

/-- The mentions of what an attribute is asked of: one of a site of its own if this is a name. -/
def ownerMentions (site : String → Site) (value : Expr) : List Mention :=
  match value.name? with
  | some owner => [⟨site owner, []⟩]
  | none => value.mentions .plain

theorem mentions_attribute (value : Expr) (attr : String) (p : Position) :
    (Expr.attribute value attr).mentions p = ownerMentions (.field · attr) value := by
  cases value <;> simp [Expr.mentions, ownerMentions, Expr.name?]

theorem mentions_call_attribute (value : Expr) (attr : String) (args : List Expr)
    (keywords : List (Option String × Expr)) (p : Position) :
    (Expr.call (.attribute value attr) args keywords).mentions p =
      ownerMentions (.method · attr) value ++
        (exprsMentions args .plain ++ keywordsMentions keywords .plain) := by
  cases value <;> simp [Expr.mentions, ownerMentions, Expr.name?]

/-- An owner that is no module is accounted for as any expression. -/
theorem owner_accounts {value : Expr} {site : String → Site} (none : value.module? b = none)
    (whole : value.AccountedAt b .plain)
    (named : ∀ owner, (site owner).name? = some owner)
    (itself : ∀ owner, isModule owner = false → (site owner).rendering = .itself) :
    Accounted b (ownerMentions site value) (value.lower b) := by
  cases value with
  | name owner =>
    rw [Expr.lower]
    refine nameOutcome_accounts (named owner) ?_
    rcases module?_eq_none none with bound | other
    · exact Mention.rendering_of_mem (named owner) bound
    · rw [Mention.rendering, itself owner other, ite_self]
  | _ => exact whole

/-! ## Calls -/

/-- Expressions in a plain position account for their mentions one by one. -/
theorem allOk_accounts {p : Position} (plain : p.seen b = .plain) : ∀ {es : List Expr},
    (∀ e ∈ es, e.AccountedAt b p) →
    Gives (fun es' => Accounts b (exprsMentions es p) (exprsReferences es')) (allOk (outcomes b es))
  | [], _ => .ok .nil
  | e :: es, h => by
    obtain ⟨he, hes⟩ := forall_mem_cons.mp h
    rw [Expr.AccountedAt, plain] at he
    rw [outcomes, allOk]
    exact he.bind fun _ first => (allOk_accounts plain hes).bind fun _ rest =>
      .ok (first.append rest)

theorem mem_outcomes {es : List Expr} {o : Outcome} :
    o ∈ outcomes b es ↔ ∃ e ∈ es, e.lower b = o := by
  induction es with
  | nil => simp [outcomes]
  | cons e es ih => simp [outcomes, ih, eq_comm]

theorem length_outcomes (b : List String) (es : List Expr) :
    (outcomes b es).length = es.length := by
  induction es with
  | nil => rfl
  | cons e es ih => simp [outcomes, ih]

theorem lookup_keywordOutcomes (b : List String) (keywords : List (Option String × Expr))
    (name : String) :
    (keywordOutcomes b keywords).reverse.lookup name =
      (keywords.reverse.lookup (some name)).map (Expr.lower b) := by
  induction keywords with
  | nil => rfl
  | cons p keywords ih =>
    obtain ⟨_ | key, e⟩ := p
    · have unnamed : List.lookup (some name) [(none, e)] = none := rfl
      rw [keywordOutcomes, ih, reverse_cons, lookup_append, unnamed, Option.or_none]
    · rw [keywordOutcomes, reverse_cons, reverse_cons, lookup_append,
        lookup_append, ih]
      by_cases same : name = key
      · subst same
        cases keywords.reverse.lookup (some name) <;> simp
      · have other : (name == key) = false := beq_eq_false_iff_ne.mpr same
        simp [lookup_cons, other]

/-- An argument that arrives: one by position, or the last that is given by some name. -/
def Counts (args : List Expr) (keywords : List (Option String × Expr)) (e : Expr) : Prop :=
  e ∈ args ∨ ∃ name, keywords.reverse.lookup (some name) = some e

section

variable {args : List Expr} {keywords : List (Option String × Expr)} {p : Position}
  (named : ∀ p ∈ keywords, p.1.isSome = true)

include named

/-- The mentions of a call are those of the arguments that arrive. -/
theorem mem_argumentMentions {m : Mention} :
    m ∈ exprsMentions args p ++ keywordsMentions keywords p ↔
      ∃ e, Counts args keywords e ∧ m ∈ e.mentions p := by
  have unnamed : keywords.reverse.lookup none = none := by
    rw [lookup_eq_none_iff]
    intro p member
    have := named p (mem_reverse.mp member)
    cases is : p.1 with
    | none => simp [is] at this
    | some name => rfl
  rw [mem_append, mem_exprsMentions, mem_keywordsMentions]
  constructor
  · rintro (⟨e, member, mentioned⟩ | ⟨_ | name, e, found, mentioned⟩)
    · exact ⟨e, .inl member, mentioned⟩
    · rw [unnamed] at found
      cases found
    · exact ⟨e, .inr ⟨name, found⟩, mentioned⟩
  · rintro ⟨e, member | ⟨name, found⟩, mentioned⟩
    · exact .inl ⟨e, member, mentioned⟩
    · exact .inr ⟨some name, e, found, mentioned⟩

omit named in
/-- And so are the outcomes that its builtin is given. -/
theorem mem_argumentOutcomes {o : Outcome} :
    (o ∈ outcomes b args ∨ ∃ key, (keywordOutcomes b keywords).reverse.lookup key = some o) ↔
      ∃ e, Counts args keywords e ∧ e.lower b = o := by
  simp only [mem_outcomes, lookup_keywordOutcomes, Option.map_eq_some_iff, Counts, or_and_right,
    exists_or]
  refine or_congr Iff.rfl ⟨?_, ?_⟩
  · rintro ⟨name, e, found, is⟩
    exact ⟨e, ⟨name, found⟩, is⟩
  · rintro ⟨e, ⟨name, found⟩, is⟩
    exact ⟨name, e, found, is⟩

omit named in
theorem givesDigits_eq (b : List String) :
    givesDigits args keywords = (1 < (outcomes b args).length ||
      ((keywordOutcomes b keywords).reverse.lookup "ndigits").isSome) := by
  rw [givesDigits, length_outcomes, lookup_keywordOutcomes, Option.isSome_map]
  congr 1
  rw [Bool.eq_iff_iff, any_eq_true, lookup_isSome_iff]
  simp [@eq_comm _ (some "ndigits")]

omit named in
/-- A call of an unknown function keeps its callee. -/
theorem plainCall_accounts {f : String} {digits : Bool} (q : Position)
    (itself : (⟨.callee f digits, []⟩ : Mention).rendering b = .itself) (plain : p.seen b = .plain)
    (hargs : ∀ e ∈ args, e.AccountedAt b p) :
    Gives (fun s => Accounts b
      (⟨.callee f digits, []⟩ :: (exprsMentions args p ++ keywordsMentions keywords p)) (q.kept s)) (do
      noKeywords keywords f
      let callee ← nameOutcome b f
      let es ← allOk (outcomes b args)
      .ok (.call callee es)) := by
  refine Gives.outcome fun _ none => ?_
  cases noKeywords_eq_ok none
  refine Gives.outcome fun callee is => (allOk_accounts plain hargs).bind fun es others => .ok ?_
  have first := nameOutcome_accounts rfl itself callee is
  obtain rfl := eq_of_nameOutcome is
  refine Accounts.kept ?_ rfl q
  simpa [keywordsMentions, Script.Expr.references] using first.append others

/-- A call of a builtin accounts for its global and for the arguments that arrive. -/
theorem Builtin.lower_accounts {site : Site} (f : Builtin) (name : String)
    (rendered : (⟨site, []⟩ : Mention).rendering b = .ofGlobal? (f.global? (givesDigits args keywords)))
    (keeps : (p.seen b).kept = f.kept) (hargs : ∀ e ∈ args, e.AccountedAt b p)
    (hkeys : ∀ entry ∈ keywords, entry.2.AccountedAt b p) :
    Accounted b (⟨site, []⟩ :: (exprsMentions args p ++ keywordsMentions keywords p))
      (f.lower name (outcomes b args) (keywordOutcomes b keywords)) := by
  -- What holds of all arguments holds of those that arrive.
  have accounted {e : Expr} (counts : Counts args keywords e) :
      Gives (fun s => Accounts b (e.mentions p) (f.kept s)) (e.lower b) := by
    rw [← keeps]
    rcases counts with member | ⟨name, found⟩
    · exact hargs e member
    · obtain ⟨before, after, split, _⟩ := lookup_eq_some_iff.mp found
      have member : (some name, e) ∈ keywords := by
        rw [← mem_reverse, split]
        simp
      exact hkeys _ member
  intro s is
  obtain ⟨es, values, joins⟩ := f.lower_joins name _ _ s is
  rw [← givesDigits_eq] at joins
  have arrives {m : Mention} (member : m ∈ exprsMentions args p ++ keywordsMentions keywords p) :
      ∃ e' ∈ es, ∃ ms, m ∈ ms ∧ Accounts b ms (f.kept e') := by
    obtain ⟨e, counts, mentioned⟩ := (mem_argumentMentions named).mp member
    obtain ⟨e', inside, lowered⟩ :=
      (values (e.lower b)).mpr (mem_argumentOutcomes.mpr ⟨e, counts, rfl⟩)
    exact ⟨e', inside, _, mentioned, accounted counts e' lowered⟩
  -- References come from the global or from an argument, and so do mentions.
  refine ⟨fun r member => ?_, fun m member r turned other => ?_, fun m member => ?_⟩
  · rcases joins.sound r member with bound | ⟨g, isGlobal, rfl⟩ | ⟨e', inside, referred⟩
    · exact .inl bound
    · refine .inr ⟨_, mem_cons_self, ?_⟩
      rw [Mention.reference?, rendered, Option.mem_def.mp isGlobal]
      rfl
    · obtain ⟨e, counts, lowered⟩ := mem_argumentOutcomes.mp ((values _).mp ⟨e', inside, rfl⟩)
      refine ((accounted counts e' lowered).sound r referred).imp_right ?_
      rintro ⟨m, mentioned, turned⟩
      exact ⟨m, .tail _ ((mem_argumentMentions named).mpr ⟨e, counts, mentioned⟩), turned⟩
  · rcases mem_cons.mp member with rfl | member
    · rw [Mention.reference?, rendered] at turned
      cases isGlobal : f.global? (givesDigits args keywords) with
      | none =>
        rw [isGlobal] at turned
        cases turned
      | some g =>
        rw [isGlobal] at turned
        cases turned
        exact joins.named g isGlobal
    · obtain ⟨e', inside, ms, mentioned, accounts⟩ := arrives member
      exact joins.brings e' inside r (accounts.complete m mentioned r turned other)
  · rcases mem_cons.mp member with rfl | member
    · intro itself
      rw [rendered] at itself
      exact absurd itself (Rendering.ofGlobal?_ne_itself _)
    · obtain ⟨e', _, ms, mentioned, accounts⟩ := arrives member
      exact accounts.admitted m mentioned

end

/-! ## Modules -/

theorem moduleConstant?_references {module name : String} {e : Script.Expr}
    (is : moduleConstant? module name = some e) :
    ∃ g, root? e = some g ∧ ∀ p : Position, p.kept e = [⟨.value, g, []⟩] := by
  have infinity (p : Position) : p.kept (.ident "Infinity") = [⟨.value, "Infinity", []⟩] := by
    cases p <;> rfl
  refine Table.get?_bind_forall
    (P := fun e => ∃ g, root? e = some g ∧ ∀ p : Position, p.kept e = [⟨.value, g, []⟩]) ?_ is
  simp only [moduleConstants, forall_mem_cons]
  exact ⟨⟨⟨_, rfl, kept_of_isStable rfl⟩, ⟨_, rfl, kept_of_isStable rfl⟩, ⟨_, rfl, infinity⟩,
    by simp⟩, by simp⟩

theorem moduleFunction?_global {module name : String} {f : Builtin}
    (is : moduleFunction? module name = some f) (digits : Bool) :
    f.global? digits = f.global? false := by
  refine Table.get?_bind_forall (P := fun f => f.global? digits = f.global? false) ?_ is
  cases digits <;> decide

theorem moduleFunction?_kept {module name : String} {f : Builtin}
    (is : moduleFunction? module name = some f) : f.kept = Script.Expr.references := by
  refine Table.get?_bind_forall (P := fun f => f.kept = Script.Expr.references) ?_ is
  simp only [moduleFunctions, forall_mem_cons]
  exact ⟨⟨rfl, rfl, rfl, rfl, by simp⟩, ⟨rfl, rfl, by simp⟩, by simp⟩

/-! ## Expressions -/

theorem Constant.outcome_accounts (b : List String) (p : Position) (c : Constant) :
    Gives (fun s => Accounts b [] (p.kept s)) c.outcome := by
  cases c with
  | imaginary _ | bytes _ | ellipsis => exact .error _
  | _ => exact .ok (Accounts.nil.kept rfl p)

/-- An operator accounts for its operands, and `//` also for `Math`. -/
theorem binaryOutcome_accounts {ms : List Mention} {left right : Script.Expr} (op : BinOp)
    (p : Position) (both : Accounts b ms (left.references ++ right.references)) :
    Gives (fun s => Accounts b ((if op = .floorDiv then [⟨.floorDivision, []⟩] else []) ++ ms)
      (p.kept s)) (binaryOutcome left op right) := by
  by_cases is : op = .floorDiv
  · subst is
    refine .ok (Accounts.kept ?_ rfl p)
    have floor : Accounts b [⟨.floorDivision, []⟩] [⟨.value, "Math", []⟩] := .global rfl
    simpa [Builtin.mathCall, Script.Expr.references] using floor.append both
  · rw [if_neg is, binaryOutcome.eq_def]
    split
    · exact absurd rfl is
    · split
      · exact .ok (Accounts.kept both rfl p)
      · exact .error _

theorem joined_accounts (op : String) {p : Position} {values : List Expr}
    (each : ∀ e ∈ values, e.AccountedAt b (p.alone values)) :
    Gives (fun s => Accounts b (exprsMentions values (p.alone values)) ((p.seen b).kept s)) (do
      let es ← allOk (outcomes b values)
      .ok (joinedBy op es)) := by
  refine Gives.outcome fun es given => .ok ?_
  match values, es, allOk_forall₂ _ _ given with
  | [], [], _ => exact Accounts.nil.kept rfl _
  | [e], [s], .cons is _ =>
    rw [exprsMentions, exprsMentions, append_nil]
    exact each e (mem_singleton_self e) s is
  | _ :: _ :: _, _ :: _ :: _, _ =>
    refine Accounts.kept ?_ (isStable_joinedBy ..) _
    rw [references_joinedBy]
    exact allOk_accounts rfl each _ given

theorem length_outcomes_eq {es : List Expr} {ss : List Script.Expr}
    (given : allOk (outcomes b es) = .ok ss) : es.length = ss.length := by
  rw [← length_outcomes b es]
  exact (allOk_forall₂ _ _ given).length_eq

theorem sliceArgs_accounts {lower upper : Option Expr}
    (hl : ∀ e ∈ lower, e.AccountedAt b .plain) (hu : ∀ e ∈ upper, e.AccountedAt b .plain) :
    Gives (fun es => Accounts b (optionMentions lower ++ optionMentions upper) (exprsReferences es))
      (sliceArgs (optionOutcome b lower) (optionOutcome b upper)) := by
  cases lower with
  | none =>
    cases upper with
    | none => exact .ok .nil
    | some u =>
      refine (hu u rfl).bind fun e accounts => .ok ?_
      simpa [optionMentions, Script.Expr.references] using accounts
  | some l =>
    cases upper with
    | none =>
      refine (hl l rfl).bind fun e accounts => .ok ?_
      simpa [optionMentions] using accounts
    | some u =>
      refine (hl l rfl).bind fun e accounts => (hu u rfl).bind fun e' accounts' => .ok ?_
      simpa [optionMentions] using accounts.append accounts'

theorem allOperands_accounts : ∀ {rest : List (CmpOp × Expr)},
    (∀ o ∈ rest, o.2.AccountedAt b .plain) →
    Gives (fun operands => Accounts b (operandsMentions rest)
        (operands.flatMap fun o => o.2.1.references) ∧ (∀ o ∈ operands, NoneSilent o.2) ∧
        (operands = [] → rest = [])) (allOperands (operandOutcomes b rest))
  | [], _ => .ok ⟨.nil, by simp, fun _ => rfl⟩
  | (op, e) :: rest, h => by
    obtain ⟨he, hrest⟩ := forall_mem_cons.mp h
    rw [operandOutcomes, allOperands]
    refine Gives.outcome fun e' lowered => (allOperands_accounts hrest).bind ?_
    rintro operands ⟨accounts, silents, _⟩
    refine .ok ⟨(he e' lowered).append accounts, forall_mem_cons.mpr ⟨?_, silents⟩, by simp⟩
    exact none_silent lowered

/-- Where arguments are not spread, each that is given by name has one. -/
theorem names_of_unspread {keywords : List (Option String × Expr)}
    (unspread : ¬ (keywords.any fun (name, _) => name.isNone) = true) :
    ∀ entry ∈ keywords, entry.1.isSome = true := by
  intro entry member
  rw [← Option.not_isNone, Bool.not_eq_true']
  exact Bool.eq_false_iff.mpr fun is => unspread (any_eq_true.mpr ⟨entry, member, is⟩)

section

variable {args : List Expr} {keywords : List (Option String × Expr)} {p : Position}

/-- A call by a name accounts for what the tables have for the name, unless it is bound. The
position of the arguments depends on the name, so they are accounted for at all positions. -/
theorem nameCall_accounts (f : String) (hargs : ∀ q, ∀ e ∈ args, e.AccountedAt b q)
    (hkeys : ∀ q, ∀ entry ∈ keywords, entry.2.AccountedAt b q) :
    (Expr.call (.name f) args keywords).AccountedAt b p := by
  rw [Expr.AccountedAt, Expr.lower, Expr.mentions]
  dsimp only
  refine .ite (.error _) ?_
  split
  · exact .error _
  next unspread =>
  split
  · next bound =>
      have bound := contains_iff_mem.mp bound
      exact plainCall_accounts _ (Mention.rendering_of_mem rfl bound)
        (Position.ofArgument_seen_of_mem bound) (hargs _)
  next unbound =>
  have unbound : f ∉ b := fun bound => unbound (contains_iff_mem.mpr bound)
  have free (digits : Bool) : (⟨.callee f digits, []⟩ : Mention).rendering b =
      (Site.callee f digits).rendering :=
    Mention.rendering_of_not_mem rfl unbound
  -- The table of builtins is asked first, and then that of constructors.
  split
  · next builtin found =>
      intro s is
      refine Accounts.kept ?_ (builtin.lower_stable _ _ _ s is) _
      refine builtin.lower_accounts (names_of_unspread unspread) f ?_
        (Position.ofArgument_kept found unbound) (hargs _) (hkeys _) s is
      rw [free, Site.rendering, found]
  next unknown =>
  have plain := Position.ofArgument_seen_of_unknown b unknown
  split
  · next constructs =>
      refine Gives.outcome fun _ none => ?_
      cases noKeywords_eq_ok none
      refine (allOk_accounts plain (hargs _)).bind fun _ others => .ok (Accounts.kept ?_ rfl _)
      have first : Accounts b [⟨.callee f (givesDigits args []), []⟩]
          [⟨.constructor, f, []⟩] := by
        refine .global ?_
        rw [free, Site.rendering, unknown]
        exact if_pos constructs
      simpa [keywordsMentions, Script.Expr.references] using first.append others
  · next other =>
      refine plainCall_accounts _ ?_ plain (hargs _)
      rw [free, Site.rendering, unknown]
      exact if_neg other

/-- A call of an attribute accounts for a function of a module, or for the owner of a method. -/
theorem methodCall_accounts {value : Expr} (attr : String) (hvalue : value.AccountedAt b .plain)
    (hargs : ∀ e ∈ args, e.AccountedAt b .plain)
    (hkeys : ∀ entry ∈ keywords, entry.2.AccountedAt b .plain) :
    (Expr.call (.attribute value attr) args keywords).AccountedAt b p := by
  rw [Expr.AccountedAt, Expr.lower, mentions_call_attribute]
  dsimp only
  refine .ite (.error _) ?_
  split
  · exact .error _
  next unspread =>
  split
  · next module is =>
      obtain ⟨rfl, isModule, unbound⟩ := module?_eq_some is
      split
      · next builtin found =>
          intro s lowered
          refine Accounts.kept ?_ (builtin.lower_stable _ _ _ s lowered) _
          refine builtin.lower_accounts (p := .plain) (names_of_unspread unspread) _ ?_
            (moduleFunction?_kept found).symm hargs hkeys s lowered
          rw [moduleFunction?_global found, Mention.rendering_of_not_mem rfl unbound]
          simp [Site.rendering, isModule, found]
      · exact .error _
  · next none =>
      refine Gives.outcome fun _ unnamed => ?_
      cases noKeywords_eq_ok unnamed
      have owner : Accounted b (ownerMentions (.method · attr) value) (value.lower b) := by
        refine owner_accounts none hvalue (fun _ => rfl) fun owner other => ?_
        simp [Site.rendering, other]
      refine owner.bind fun _ first => (allOk_accounts rfl hargs).bind fun _ others =>
        .ok (Accounts.kept ?_ rfl _)
      simpa [keywordsMentions] using first.append others

/-- Any other call accounts for its callee, of which a quantifier around it may leave out an
index. -/
theorem otherCall_accounts {func : Expr} (noName : ∀ f, func ≠ .name f)
    (noAttribute : ∀ value attr, func ≠ .attribute value attr)
    (hfunc : func.AccountedAt b (p.alone args).toCallee)
    (hargs : ∀ e ∈ args, e.AccountedAt b .plain) :
    (Expr.call func args keywords).AccountedAt b p := by
  rw [Expr.AccountedAt, Expr.lower, Expr.mentions]
  · refine .ite (.error _) (.ite (.error _) ?_)
    split
    · next f => exact absurd rfl (noName f)
    · next value attr => exact absurd rfl (noAttribute value attr)
    · refine Gives.bind' fun _ => Gives.outcome fun _ unnamed => ?_
      cases noKeywords_eq_ok unnamed
      refine hfunc.bind fun callee first => Gives.outcome fun es given => .ok ?_
      have others := allOk_accounts rfl hargs es given
      rw [Position.kept_call, ← Position.alone_congr _ (length_outcomes_eq given),
        ← Position.seen_alone, ← Position.seen_toCallee]
      simpa [keywordsMentions] using first.append others
  -- A callee that is a name or an attribute has an equation of its own.
  · exact noName
  · exact fun owner attr => noAttribute (.name owner) attr

end

mutual

/-- The induction over expressions, one case for each form. -/
theorem Expr.lower_accounts : ∀ (b : List String) (p : Position) (e : Expr), e.AccountedAt b p
  | b, p, .const value => by
    rw [Expr.AccountedAt, Expr.lower, Expr.mentions]
    · exact value.outcome_accounts b _
    all_goals nofun
  | b, p, .name x => by
    rw [Expr.AccountedAt, Expr.lower, Expr.mentions]
    exact nameOutcome_accountedAt b p x
  | b, p, .list es | b, p, .tuple es => by
    rw [Expr.AccountedAt, Expr.lower, Expr.mentions]
    exact (allOk_accounts rfl (exprs_accounted b .plain es)).bind fun _ accounts =>
      .ok (Accounts.kept accounts rfl _)
  | b, p, .set es => by
    rw [Expr.AccountedAt, Expr.lower, Expr.mentions]
    refine (allOk_accounts rfl (exprs_accounted b .plain es)).bind fun _ accounts =>
      .ok (Accounts.kept ?_ rfl _)
    have set : Accounts b [⟨.setDisplay, []⟩] [⟨.constructor, "Set", []⟩] := .global rfl
    simpa [Script.Expr.references] using set.append accounts
  | b, p, .dict entries => by
    rw [Expr.AccountedAt, Expr.lower, Expr.mentions]
    exact (entries_accounted b entries).bind fun _ accounts => .ok (Accounts.kept accounts rfl _)
  | b, p, .binary left op right => by
    rw [Expr.AccountedAt, Expr.lower, Expr.mentions]
    exact (left.lower_accounts b .plain).bind fun _ l => (right.lower_accounts b .plain).bind
      fun _ r => binaryOutcome_accounts op _ (l.append r)
  | b, p, .unary _ operand => by
    rw [Expr.AccountedAt, Expr.lower, Expr.mentions]
    exact (operand.lower_accounts b .plain).bind fun e accounts =>
      .ok (Accounts.kept (s := .unary _ e) accounts rfl _)
  | b, p, .bool _ values => by
    rw [Expr.AccountedAt, Expr.lower.eq_def, Expr.mentions]
    exact joined_accounts _ (exprs_accounted b _ values)
  | b, p, .compare left [] => by
    rw [Expr.AccountedAt, Expr.lower, Expr.mentions, operandOutcomes, allOperands]
    exact Gives.bind' fun _ => .ok (Accounts.nil.kept rfl _)
  | b, p, .compare left (o :: rest) => by
    have hleft := left.lower_accounts b .plain
    have hrest := operands_accounted b (o :: rest)
    rw [Expr.AccountedAt, Expr.lower, Expr.mentions]
    refine Gives.outcome fun l lowered => (allOperands_accounts hrest).bind ?_
    rintro operands ⟨accounts, silents, empty⟩
    refine .ok (Accounts.kept ?_ (isStable_comparedAll _ _) _)
    rw [references_joinedBy]
    refine (Accounts.append (hleft l lowered) accounts).congr fun r => ?_
    exact mem_comparedAll (none_silent lowered) silents fun none => nomatch empty none
  | b, p, .ifExp test yes no => by
    rw [Expr.AccountedAt, Expr.lower, Expr.mentions]
    exact (test.lower_accounts b .plain).bind fun _ c => (yes.lower_accounts b .plain).bind fun _ y =>
      (no.lower_accounts b .plain).bind fun _ n =>
        .ok (Accounts.kept ((Accounts.append c y).append n) rfl _)
  | b, p, .call func args keywords => by
    have hargs := fun q => exprs_accounted b q args
    have hkeys := fun q => keywords_accounted b q keywords
    have hfunc := func.lower_accounts b (p.alone args).toCallee
    by_cases named : ∃ f, func = .name f
    · obtain ⟨f, rfl⟩ := named
      exact nameCall_accounts f hargs hkeys
    by_cases owned : ∃ value attr, func = .attribute value attr
    · obtain ⟨value, attr, rfl⟩ := owned
      exact methodCall_accounts attr (value.lower_accounts b .plain) (hargs .plain) (hkeys .plain)
    exact otherCall_accounts (not_exists.mp named) (fun value attr is => owned ⟨value, attr, is⟩)
      hfunc (hargs .plain)
  | b, p, .attribute value attr => by
    have hvalue := value.lower_accounts b .plain
    rw [Expr.AccountedAt, Expr.lower, mentions_attribute]
    split
    · next module is =>
        obtain ⟨rfl, isModule, unbound⟩ := module?_eq_some is
        split
        · next e found =>
            obtain ⟨g, root, kept⟩ := moduleConstant?_references found
            refine .ok (kept _ ▸ Accounts.global ?_)
            rw [Mention.rendering_of_not_mem rfl unbound]
            simp [Site.rendering, isModule, found, root, Rendering.ofGlobal?]
        · exact .error _
    · next none =>
        have owner : Accounted b (ownerMentions (.field · attr) value) (value.lower b) := by
          refine owner_accounts none hvalue (fun _ => rfl) fun owner other => ?_
          simp [Site.rendering, other]
        exact owner.bind fun _ accounts => .ok (Accounts.kept (by simpa using accounts) rfl _)
  | b, p, .subscript value index => by
    -- The index of what a quantifier goes over may be the name `map`, which gets lost.
    have hindex := index.lower_accounts b p.toIndex
    rw [Expr.AccountedAt, Expr.lower, Expr.mentions]
    refine (value.lower_accounts b .plain).bind fun _ obj => ?_
    split
    · next lower upper step =>
        refine .ite (.error _) ?_
        refine (sliceArgs_accounts (option_accounted b lower) (option_accounted b upper)).bind
          fun _ bounds => .ok (Accounts.kept ?_ rfl _)
        simpa [Expr.mentions] using Accounts.append obj bounds
    · next operand =>
        refine (operand.lower_accounts b .plain).bind fun _ accounts =>
          .ok (Accounts.kept ?_ rfl _)
        simpa [Expr.mentions, Script.Expr.references] using Accounts.append obj accounts
    · exact .error _
    · refine hindex.bind fun key accounts => .ok ?_
      rw [Position.kept_index, ← Position.seen_toIndex]
      exact Accounts.append obj accounts
  | b, p, .slice .. | b, p, .dictComp .. | b, p, .starred _ | b, p, .named .. | b, p, .await _
  | b, p, .yield _ | b, p, .yieldFrom _ | b, p, .joined _ => by
    rw [Expr.AccountedAt, Expr.lower]
    exact .error _
  | b, p, .lambda params body _ => by
    -- The parameters are bound in the body.
    have hbody := fun names => body.lower_accounts (names ++ b) .plain
    rw [Expr.AccountedAt, Expr.lower, Expr.mentions]
    refine Gives.outcome fun names is => (hbody names).bind fun e accounts =>
      .ok (Accounts.kept ?_ rfl _)
    rw [Script.Expr.references, paramNames_map_name, ← names?_eq_ok is]
    exact Accounts.within names accounts
  | b, p, .comprehension built element [] => by
    have helement := element.lower_accounts b p
    rw [Expr.AccountedAt, Expr.lower, Expr.mentions]
    exact .ite (.error _) (helement.bind fun _ accounts => .ok accounts)
  | b, p, .comprehension built element (g :: gs) => by
    have helement := fun inner => element.lower_accounts inner .plain
    rw [Expr.AccountedAt, Expr.lower, Expr.mentions]
    refine .ite (.error _) ((loops_accounted b (g :: gs)).bind ?_)
    rintro ⟨_ | ⟨l, ls⟩, inner⟩ ⟨wrap, same⟩
    · cases same
    exact (helement inner).bind fun _ accounts =>
      .ok (Accounts.kept (wrap _ _ accounts) (isStable_looped_cons _ l ls) _)
termination_by _ _ e => sizeOf e
decreasing_by all_goals subst_vars; simp <;> omega

theorem exprs_accounted : ∀ (b : List String) (p : Position) (es : List Expr),
    ∀ e ∈ es, e.AccountedAt b p
  | _, _, [] => by simp
  | b, p, e :: es => forall_mem_cons.mpr ⟨e.lower_accounts b p, exprs_accounted b p es⟩
termination_by _ _ e => sizeOf e
decreasing_by all_goals simp +arith

theorem option_accounted : ∀ (b : List String) (e : Option Expr),
    ∀ e' ∈ e, e'.AccountedAt b .plain
  | _, none => by simp
  | b, some e => by
    rintro _ ⟨⟩
    exact e.lower_accounts b .plain
termination_by _ e => sizeOf e

theorem keywords_accounted : ∀ (b : List String) (p : Position)
    (keywords : List (Option String × Expr)), ∀ entry ∈ keywords, entry.2.AccountedAt b p
  | _, _, [] => by simp
  | b, p, (_, e) :: rest =>
    forall_mem_cons.mpr ⟨e.lower_accounts b p, keywords_accounted b p rest⟩
termination_by _ _ e => sizeOf e
decreasing_by all_goals simp +arith

theorem operands_accounted : ∀ (b : List String) (rest : List (CmpOp × Expr)),
    ∀ o ∈ rest, o.2.AccountedAt b .plain
  | _, [] => by simp
  | b, (_, e) :: rest => forall_mem_cons.mpr ⟨e.lower_accounts b .plain, operands_accounted b rest⟩
termination_by _ e => sizeOf e
decreasing_by all_goals simp +arith

theorem entries_accounted : ∀ (b : List String) (entries : List Entry),
    Gives (fun ps => Accounts b (entriesMentions entries) (propsReferences ps)) (entryProps b entries)
  | _, [] => by
    rw [entryProps]
    exact .ok .nil
  | _, .spread _ :: _ => by
    rw [entryProps.eq_def]
    exact .error _
  | b, .pair _ value :: rest => by
    have hvalue := value.lower_accounts b .plain
    have hrest := entries_accounted b rest
    rw [entryProps.eq_def]
    split
    · next none => cases none
    · next same =>
        obtain ⟨⟨rfl, rfl⟩, rfl⟩ := by simpa using same
        exact hvalue.bind fun _ first => hrest.bind fun _ others =>
          .ok (Accounts.append first others)
    · exact .error _
termination_by _ e => sizeOf e
decreasing_by all_goals simp +arith

/-- Each loop binds its target in what is inside of it. -/
theorem loops_accounted : ∀ (b : List String) (generators : List Generator),
    Gives (fun r => (∀ ms e, Accounts r.2 ms e.references →
      Accounts b (loopsMentions ms generators) (looped e r.1).references) ∧
      r.1.length = generators.length) (lowerLoops b generators)
  | _, [] => by
    rw [lowerLoops]
    exact .ok ⟨fun _ _ accounts => accounts, rfl⟩
  | b, .mk target iterable conditions isAsync :: rest => by
    have hitems := iterable.lower_accounts b .plain
    have hconds := fun x => exprs_accounted (x :: b) .plain conditions
    have hrest := fun x => loops_accounted (x :: b) rest
    rw [lowerLoops.eq_def]
    refine .ite (.error _) ?_
    split
    · next x =>
        refine hitems.bind fun items first => (allOk_accounts rfl (hconds x)).bind
          fun conds second => (hrest x).bind ?_
        rintro ⟨loops, inner⟩ ⟨wrap, same⟩
        refine .ok ⟨fun ms e accounts => ?_, congrArg (· + 1) same⟩
        rw [loopsMentions, references_looped_cons, references_filtered, append_assoc,
          ← map_append]
        have inside := second.append (wrap ms e accounts)
        exact first.append (inside.within [x])
    · exact .error _
termination_by _ e => sizeOf e
decreasing_by all_goals simp +arith

end

end JexlScript.Routine
