import JexlScript.Proofs.NameLists
import JexlScript.Proofs.UnknownOperators

/-!
# Which loose equalities are reported

Lowering takes the operators of a formula in the order of `Formula.operators` and
keeps those that are loose equalities, each once. A step that fails has taken some
first part of its operators, and what it kept stays. Nothing else is kept, whatever
implementations are inlined.
-/

namespace JexlScript

open List Script

/-- The loose equality that an operator of a formula is, if it is one. A unary operator is none,
however it is written. -/
def looseEquality? : Arity × String → Option String
  | (.binary, op) => if (strictEquality? op).isSome then some op else none
  | (.unary, _) => none

/-- There are two loose equalities. -/
theorem mem_of_looseEquality? {p : Arity × String} {op : String}
    (loose : looseEquality? p = some op) : op ∈ ["==", "!="] := by
  unfold looseEquality? strictEquality? at loose
  grind

/-- The two are reported by different warnings. -/
theorem equalityWarning_injOn : ∀ m ∈ ["==", "!="], ∀ n ∈ ["==", "!="],
    equalityWarning m = equalityWarning n → m = n := by
  decide

/-! ## Steps and the operators that they take -/

namespace Lower

variable {α β : Type}

/-- A step takes operators in the given order, all of them unless it fails, and keeps
the loose equalities among them. -/
def Takes (step : Lower α) (ops : List (Arity × String)) : Prop :=
  ∀ journal, ∃ taken, taken <+: ops ∧
    (step.run journal).2.looseEqualities =
      (taken.filterMap looseEquality?).foldl Names.add journal.looseEqualities ∧
    ((step.run journal).1.isOk = true → taken = ops)

theorem Takes.pure (a : α) : Takes (Pure.pure a) [] := fun _ =>
  ⟨[], prefix_refl _, rfl, fun _ => rfl⟩

/-- A step that fails may have taken none of its operators. -/
theorem Takes.throw (why : LoweringError) (ops : List (Arity × String)) :
    Takes (MonadExcept.throw why : Lower α) ops := fun _ =>
  ⟨[], nil_prefix, rfl, fun ok => by cases ok⟩

theorem Takes.note (event : Event) : Takes (Lower.note event) [] := fun _ =>
  ⟨[], prefix_refl _, rfl, fun _ => rfl⟩

/-- Noting an equality takes it. -/
theorem Takes.noteEquality (op : String) : Takes (Lower.noteEquality op) [(.binary, op)] := by
  intro journal
  refine ⟨[(.binary, op)], prefix_refl _, ?_, fun _ => rfl⟩
  cases loose : (strictEquality? op).isSome <;> simp only [Lower.noteEquality, loose] <;>
    simp [looseEquality?, loose] <;> rfl

/-- Steps take their operators one after the other. If the first fails, it has taken a first part
of both lists. -/
theorem Takes.bind {step : Lower α} {next : α → Lower β} {ops ops' : List (Arity × String)}
    (first : step.Takes ops) (second : ∀ a, (next a).Takes ops') :
    (step >>= next).Takes (ops ++ ops') := by
  intro journal
  obtain ⟨taken, start, kept, all⟩ := first journal
  simp only [ExceptT.run, Bind.bind, ExceptT.bind, ExceptT.mk, StateT.bind] at kept all ⊢
  match outcome : step journal with
  | (.error why, middle) =>
    rw [outcome] at kept
    exact ⟨taken, start.trans (prefix_append _ _), kept, fun ok => by cases ok⟩
  | (.ok a, middle) =>
    rw [outcome] at kept all
    obtain ⟨taken', start', kept', all'⟩ := second a middle
    cases all rfl
    refine ⟨ops ++ taken', (prefix_append_right_inj ops).mpr start', ?_, fun ok => ?_⟩
    · rw [filterMap_append, foldl_append, ← kept]
      exact kept'
    · rw [all' ok]

/-- A step that takes nothing changes nothing in what was taken. -/
theorem Takes.last {step : Lower α} {next : α → Lower β} {ops : List (Arity × String)}
    (first : step.Takes ops) (second : ∀ a, (next a).Takes []) : (step >>= next).Takes ops := by
  simpa using first.bind second

end Lower

/-! ## Formulas -/

namespace Context

variable (ctx : Context)

/-- Inlining keeps no equality, whatever is inlined. -/
theorem inlined_takes (f : Callable) (args : List Expr) : (ctx.inlined f args).Takes [] := by
  unfold inlined
  split
  · exact .throw _ _
  · exact .pure _
  · exact (Lower.Takes.note _).last fun _ => .pure _

theorem customOperator_takes (arity : Arity) (op : String) (operands : List Expr) :
    (ctx.customOperator arity op operands).Takes [] := by
  unfold customOperator
  split
  · exact .throw _ _
  · refine (ctx.inlined_takes _ _).last fun result => ?_
    cases result with
    | none => exact .throw _ _
    | some e => exact .pure e

/-- A unary operator is taken but never kept. -/
theorem unary_takes (op : String) (e : Expr) : (ctx.unary op e).Takes [(.unary, op)] := by
  have silent : (ctx.unary op e).Takes [] := by
    unfold unary
    split
    · exact .pure _
    · exact ctx.customOperator_takes _ _ _
  intro journal
  obtain ⟨taken, start, kept, _⟩ := silent journal
  cases prefix_nil.mp start
  exact ⟨[(.unary, op)], prefix_refl _, kept, fun _ => rfl⟩

/-- A binary operator is taken, and kept if it is a loose equality. -/
theorem binary_takes (op : String) (l r : Expr) : (ctx.binary op l r).Takes [(.binary, op)] := by
  refine (Lower.Takes.noteEquality op).last fun _ => ?_
  split
  · exact .pure _
  · exact ctx.customOperator_takes _ _ _

theorem call_takes (pool name : String) (args : List Expr) :
    (ctx.call pool name args).Takes [] := by
  unfold call
  split
  · exact .throw _ _
  · split
    · exact (Lower.Takes.note _).last fun _ => .pure _
    · refine (ctx.inlined_takes _ _).last fun result => ?_
      cases result with
      | none => exact (Lower.Takes.note _).last fun _ => .pure _
      | some e => exact .pure e

theorem filterNames_takes (e : Formula) : (filterNames e).Takes [] := by
  unfold filterNames
  split
  · exact (Lower.Takes.note _).last fun _ => .pure _
  · exact .throw _ _

mutual

/-- Lowering takes the operators of a formula in their order. The three cases go along its
recursion. -/
theorem lower_takes : ∀ f : Formula, (ctx.lower f).Takes f.operators
  | .literal _ | .root _ _ => .pure _
  | .stray _ => .throw _ _
  | .field parent _ _ => (lower_takes parent).last fun _ => .pure _
  | .unary op e => (lower_takes e).bind fun e => ctx.unary_takes op e
  | .binary op l r => (lower_takes l).bind fun l => (lower_takes r).bind fun r =>
      ctx.binary_takes op l r
  | .conditional t c a => (lower_takes t).bind fun _ => (lower_takes c).bind fun _ =>
      (lower_takes a).last fun _ => .pure _
  | .array es => (lowerList_takes es).last fun _ => .pure _
  | .object ps => (lowerEntries_takes ps).last fun _ => .pure _
  | .filter s e relative => (lower_takes s).bind fun _ => by
      have inner := lower_takes e
      cases relative with
      | false => exact inner.last fun _ => .pure _
      | true => exact (filterNames_takes e).bind fun _ => inner.last fun _ => .pure _
  | .call pool name args => (lowerList_takes args).last fun es => ctx.call_takes pool name es

theorem lowerList_takes : ∀ fs : List Formula,
    (ctx.lowerList fs).Takes (Formula.listOperators fs)
  | [] => .pure _
  | f :: fs => (lower_takes f).bind fun _ => (lowerList_takes fs).last fun _ => .pure _

theorem lowerEntries_takes : ∀ ps : List (String × Formula),
    (ctx.lowerEntries ps).Takes (Formula.entryOperators ps)
  | [] => .pure _
  | (_, f) :: ps => (lower_takes f).bind fun _ => (lowerEntries_takes ps).last fun _ => .pure _

end

/-! ## Runs -/

/-- The formulas of a run share a journal. -/
theorem lowerEach_cons (journal : Journal) (f : Formula) (fs : List Formula) :
    ctx.lowerEach journal (f :: fs) =
      (((ctx.lower f).run journal).1, ((ctx.lower f).run journal).2.looseEqualities) ::
        ctx.lowerEach ((ctx.lower f).run journal).2 fs := rfl

/-- What is reported only grows along a run. -/
theorem lowerEach_grows (fs : List Formula) (journal : Journal) :
    (journal.looseEqualities :: (ctx.lowerEach journal fs).map Prod.snd).Pairwise (· <+: ·) := by
  induction fs generalizing journal with
  | nil => exact pairwise_singleton _ _
  | cons f fs ih =>
    rw [lowerEach_cons, map_cons]
    obtain ⟨taken, _, kept, _⟩ := ctx.lower_takes f journal
    have grows : journal.looseEqualities <+: ((ctx.lower f).run journal).2.looseEqualities :=
      kept ▸ Names.prefix_foldl_add _ _
    have later := ih ((ctx.lower f).run journal).2
    refine pairwise_cons.mpr ⟨fun noted member => ?_, later⟩
    rcases mem_cons.mp member with rfl | member
    · exact grows
    · exact grows.trans ((pairwise_cons.mp later).1 noted member)

/-- Nothing is reported twice. -/
theorem lowerEach_nodup {fs : List Formula} {journal : Journal}
    (nodup : journal.looseEqualities.Nodup) : ∀ s ∈ ctx.lowerEach journal fs, s.2.Nodup := by
  induction fs generalizing journal with
  | nil => exact fun _ member => by cases member
  | cons f fs ih =>
    obtain ⟨taken, _, kept, _⟩ := ctx.lower_takes f journal
    have nodup := kept ▸ Names.nodup_foldl_add nodup (taken.filterMap looseEquality?)
    exact forall_mem_cons.mpr ⟨nodup, ih nodup⟩

/-- As long as nothing fails, exactly the loose equalities met so far are reported. -/
theorem lowerEach_exact {fs : List Formula} {journal : Journal} {i : Nat}
    {outcome : Except LoweringError Expr} {noted : List String}
    (step : (ctx.lowerEach journal fs)[i]? = some (outcome, noted))
    (succeeded : ∀ s ∈ (ctx.lowerEach journal fs).take (i + 1), s.1.isOk = true) :
    noted = (((fs.take (i + 1)).flatMap Formula.operators).filterMap looseEquality?).foldl
      Names.add journal.looseEqualities := by
  induction fs generalizing journal i with
  | nil => cases step
  | cons f fs ih =>
    rw [lowerEach_cons] at step succeeded
    obtain ⟨taken, _, kept, all⟩ := ctx.lower_takes f journal
    obtain ⟨first, later⟩ := forall_mem_cons.mp succeeded
    cases all first
    rw [take_succ_cons, flatMap_cons, filterMap_append, foldl_append, ← kept]
    cases i with
    | zero =>
      cases step
      rfl
    | succ i => exact ih step later

end Context

/-- One after the other, formulas are lowered with one list of loose equalities. The
list grows only at its end and holds nothing twice. As long as all succeed it holds the
loose equalities of the formulas so far, in the order in which they first occur when
every operator comes after its operands. So the warnings of a script are one for each
loose equality of its formula, whatever is inlined. -/
theorem looseEqualities_reported (ctx : Context) (fs : List Formula) :
    (ctx.lowerEach Journal.empty fs).length = fs.length ∧
      ((ctx.lowerEach Journal.empty fs).map Prod.snd).Pairwise (· <+: ·) ∧
      (∀ i outcome noted, (ctx.lowerEach Journal.empty fs)[i]? = some (outcome, noted) →
        noted.Nodup ∧
          ((∀ s ∈ (ctx.lowerEach Journal.empty fs).take (i + 1), s.1.isOk = true) →
            Names.Firsts noted
              (((fs.take (i + 1)).flatMap Formula.operators).filterMap looseEquality?))) ∧
      ∀ (g : Grammar Callable) (o : Options) (f : Formula) (l : Lowered), f.toScript g o = .ok l →
        l.warnings.Nodup ∧ ∃ noted, l.warnings = noted.map equalityWarning ∧
          Names.Firsts noted (f.operators.filterMap looseEquality?) := by
  refine ⟨?_, (pairwise_cons.mp (ctx.lowerEach_grows fs Journal.empty)).2, ?_, ?_⟩
  · generalize Journal.empty = journal
    induction fs generalizing journal with
    | nil => rfl
    | cons f fs ih => exact congrArg Nat.succ (ih _)
  · intro i outcome noted step
    refine ⟨ctx.lowerEach_nodup nodup_nil _ (mem_of_getElem? step), fun succeeded => ?_⟩
    rw [ctx.lowerEach_exact step succeeded]
    exact Names.firsts_distinct _
  · intro g o f l lowered
    -- A formula that is lowered on its own starts with an empty journal.
    unfold Formula.toScript at lowered
    split at lowered
    · next e journal ran =>
        cases lowered
        obtain ⟨taken, _, kept, all⟩ := (o.context g).lower_takes f Journal.empty
        rw [ran] at kept all
        cases all rfl
        have firsts := Names.firsts_distinct (f.operators.filterMap looseEquality?)
        -- The two operators have different warnings, so no warning is repeated.
        have either : ∀ op ∈ journal.looseEqualities, op ∈ ["==", "!="] := by
          intro op member
          rw [kept] at member
          obtain ⟨p, _, loose⟩ := mem_filterMap.mp ((firsts.mem_iff op).mp member)
          exact mem_of_looseEquality? loose
        refine ⟨?_, _, congrArg (List.map equalityWarning) kept, firsts⟩
        exact List.Nodup.map_on (fun m first n second =>
          equalityWarning_injOn m (either m first) n (either n second)) (kept ▸ firsts.nodup)
    · cases lowered

/-- The second formula fails at an operator that is not known, after its `!=` was kept. -/
theorem looseEqualities_reported_failing : ∃ script why,
    (Options.usual.context Grammar.stock).lowerEach Journal.empty
        [.binary "==" (.root "a" false) (.root "b" false),
          .unary "~" (.binary "!=" (.root "a" false) (.root "b" false))] =
      [(.ok script, ["=="]), (.error why, ["==", "!="])] ∧
      Names.Firsts ["=="] ["=="] ∧ ["==", "!="].Nodup := by
  refine ⟨_, _, rfl, ?_, ?_⟩
  · refine ((looseEqualities_reported (Options.usual.context Grammar.stock)
      [.binary "==" (.root "a" false) (.root "b" false)]).2.2.1 0 _ _ rfl).2 ?_
    exact forall_mem_singleton.mpr rfl
  · exact ((looseEqualities_reported (Options.usual.context Grammar.stock)
      [.binary "==" (.root "a" false) (.root "b" false),
        .unary "~" (.binary "!=" (.root "a" false) (.root "b" false))]).2.2.1 1 _ _ rfl).1

end JexlScript
