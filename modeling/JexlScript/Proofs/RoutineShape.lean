import JexlScript.Proofs.Plain
import JexlScript.Routine.Lowering

/-!
# The shape of routine expressions

The script of an expression of a routine is plain: all functions in it are arrows
with single names as parameters and an expression as their body.
-/

namespace JexlScript.Routine

open List

open Script (PlainExprs PlainProps PlainParams)

/-! ## Results that hold a property -/

/-- A result has a property, if there is one. -/
def Gives {ε α : Type} (P : α → Prop) (x : Except ε α) : Prop := ∀ a, x = .ok a → P a

namespace Gives

variable {ε α β : Type} {P : α → Prop} {Q : β → Prop}

theorem ok {a : α} (h : P a) : Gives P (.ok a : Except ε α) := by
  rintro _ ⟨⟩
  exact h

theorem error (why : ε) : Gives P (.error why : Except ε α) := by
  rintro _ ⟨⟩

theorem bind {x : Except ε α} {f : α → Except ε β} (hx : Gives P x)
    (hf : ∀ a, P a → Gives Q (f a)) : Gives Q (x >>= f) := by
  cases x with
  | error why => exact error why
  | ok a => exact hf a (hx a rfl)

theorem bind' {x : Except ε α} {f : α → Except ε β} (hf : ∀ a, Gives Q (f a)) :
    Gives Q (x >>= f) :=
  bind (P := fun _ => True) (fun _ _ => trivial) fun a _ => hf a

theorem ite {c : Prop} [Decidable c] {x y : Except ε α} (hx : Gives P x) (hy : Gives P y) :
    Gives P (if c then x else y) := by
  split
  · exact hx
  · exact hy

end Gives

/-- An outcome is plain, or an error. -/
abbrev PlainOutcome (o : Outcome) : Prop := Gives Script.Expr.Plain o

/-! ## Pieces of scripts -/

theorem plain_invoke {obj : Script.Expr} {args : List Script.Expr} (method : String)
    (h : obj.Plain) (hs : PlainExprs args) : (obj.invoke method args).Plain :=
  ⟨⟨h, trivial⟩, hs⟩

theorem plain_singleton {e : Script.Expr} (h : e.Plain) : PlainExprs [e] := ⟨h, trivial⟩

/-- Plain expressions joined by an operator are plain. -/
theorem plain_joinedBy (op : String) {es : List Script.Expr} (h : PlainExprs es) :
    (joinedBy op es).Plain := by
  cases es with
  | nil => exact trivial
  | cons e es =>
    have fold : ∀ (es : List Script.Expr) (e : Script.Expr), e.Plain → PlainExprs es →
        (es.foldl (fun left right => .logical left op right) e).Plain := by
      intro es
      induction es with
      | nil => exact fun _ he _ => he
      | cons f fs ih => exact fun e he hfs => ih (.logical e op f) ⟨he, hfs.1⟩ hfs.2
    exact fold es e h.1 h.2

/-- The comparison of plain operands is plain. -/
theorem plain_compared {left right : Operand} (op : CmpOp) (hl : left.1.Plain)
    (hr : right.1.Plain) : (compared left op right).Plain := by
  have subject : (if left.2 then right.1 else left.1).Plain := by
    split
    · exact hr
    · exact hl
  cases op with
  | is | isNot =>
    rw [compared]
    split
    · exact ⟨subject, trivial⟩
    · exact ⟨hl, hr⟩
  | «in» | notIn => exact plain_invoke _ hr (plain_singleton hl)
  | eq | notEq | lt | ltE | gt | gtE => exact ⟨hl, hr⟩

/-- All operands of a chain of comparisons are plain. -/
def PlainOperands (operands : List (CmpOp × Operand)) : Prop := ∀ o ∈ operands, o.2.1.Plain

/-- A chain of comparisons becomes plain ones. -/
theorem plain_comparedAll : ∀ {left : Operand} {operands : List (CmpOp × Operand)},
    left.1.Plain → PlainOperands operands → PlainExprs (comparedAll left operands)
  | _, [], _, _ => trivial
  | _, (op, right) :: rest, hl, h => by
    have hr : right.1.Plain := h (op, right) mem_cons_self
    exact ⟨plain_compared op hl hr,
      plain_comparedAll hr fun o ho => h o (mem_cons_of_mem _ ho)⟩

theorem plainParams_name (n : String) : PlainParams [.name n] := by
  intro p hp
  exact ⟨n, mem_singleton.mp hp⟩

theorem plainParams_names (names : List String) : PlainParams (names.map .name) := by
  intro p hp
  obtain ⟨n, _, rfl⟩ := mem_map.mp hp
  exact ⟨n, rfl⟩

/-- Items filtered by plain conditions are plain. -/
theorem plain_filtered {items : Script.Expr} {conditions : List Script.Expr} (target : String)
    (h : items.Plain) (hs : PlainExprs conditions) : (filtered target items conditions).Plain := by
  rw [filtered]
  split
  · exact h
  · exact plain_invoke _ h (plain_singleton ⟨plainParams_name target, plain_joinedBy _ hs⟩)

/-- Loops over plain items are plain, by induction from the innermost. -/
theorem plain_looped {element : Script.Expr} (h : element.Plain) : ∀ {loops : List Loop},
    (∀ l ∈ loops, l.items.Plain) → (looped element loops).Plain
  | [], _ => h
  | [l], hs => plain_invoke _ (hs l mem_cons_self)
      (plain_singleton ⟨plainParams_name l.target, h⟩)
  | l :: _ :: _, hs => plain_invoke _ (hs l mem_cons_self)
      (plain_singleton ⟨plainParams_name l.target,
        plain_looped h fun k hk => hs k (mem_cons_of_mem _ hk)⟩)

/-- If all outcomes are plain, so are their values. -/
theorem allOk_plain : ∀ {os : List Outcome}, (∀ o ∈ os, PlainOutcome o) →
    Gives PlainExprs (allOk os)
  | [], _ => .ok trivial
  | o :: _, h =>
    (h o mem_cons_self).bind fun _ he =>
      (allOk_plain fun p hp => h p (mem_cons_of_mem _ hp)).bind fun _ hes => .ok ⟨he, hes⟩

/-! ## Arguments at their parameters -/

section

variable {α : Type} {P : α → Prop}

/-- A property of all values of a table is kept by setting one that has it. -/
theorem Table.set_forall {name : String} {value : α} (h : P value) : ∀ {t : Table α},
    (∀ p ∈ t, P p.2) → ∀ p ∈ Table.set t name value, P p.2
  | [], _, p, hp => by
    rw [mem_singleton.mp hp]
    exact h
  | (n, v) :: t, ht, p, hp => by
    obtain ⟨hv, ht⟩ := forall_mem_cons.mp ht
    rw [Table.set] at hp
    split at hp
    · rcases mem_cons.mp hp with rfl | hp
      · exact h
      · exact ht p hp
    · rcases mem_cons.mp hp with rfl | hp
      · exact hv
      · exact Table.set_forall h ht p hp

theorem Table.setAll_forall : ∀ {entries : List (String × α)} {t : Table α},
    (∀ p ∈ t, P p.2) → (∀ p ∈ entries, P p.2) → ∀ p ∈ Table.setAll t entries, P p.2
  | [], _, ht, _ => ht
  | (_, _) :: entries, _, ht, hs =>
    @Table.setAll_forall entries _ (Table.set_forall (hs _ mem_cons_self) ht)
      fun p hp => hs p (mem_cons_of_mem _ hp)

theorem Table.get?_forall {t : Table α} (h : ∀ p ∈ t, P p.2) {name : String} {value : α}
    (found : t.get? name = some value) : P value := by
  induction t with
  | nil => exact absurd found (by simp [Table.get?])
  | cons p t ih =>
    obtain ⟨hv, ht⟩ := forall_mem_cons.mp h
    rw [Table.get?, lookup_cons] at found
    split at found
    · exact Option.some.inj found ▸ hv
    · exact ih ht found

theorem Table.get?_bind_forall {t : Table (Table α)} (h : ∀ p ∈ t, ∀ q ∈ p.2, P q.2)
    {outer inner : String} {value : α}
    (found : ((t.get? outer).bind fun t => t.get? inner) = some value) : P value := by
  obtain ⟨u, held, found⟩ := Option.bind_eq_some_iff.mp found
  exact Table.get?_forall (Table.get?_forall (P := fun u => ∀ q ∈ u, P q.2) h held) found

/-- All arguments that arrive have a property. -/
def AllBound (P : α → Prop) (bound : Bound α) : Prop :=
  (∀ p ∈ bound.args, P p.2) ∧ ∀ a ∈ bound.rest, P a

theorem bindPositional_forall (rest : Bool) (keywords : Table α) :
    ∀ (params : List (String × Bool)) (args : List α), (∀ a ∈ args, P a) →
      Gives (fun r => AllBound P r.1) (bindPositional rest keywords params args)
  | params, [], _ => by
    rw [bindPositional]
    exact .ok ⟨by simp, by simp⟩
  | [], arg :: args, h => by
    rw [bindPositional]
    exact .ite (.ok ⟨by simp, h⟩) (.error _)
  | (param, _) :: params, arg :: args, h => by
    obtain ⟨harg, hargs⟩ := forall_mem_cons.mp h
    rw [bindPositional]
    refine .ite (.error _) ((bindPositional_forall rest keywords params args hargs).bind ?_)
    rintro ⟨bound, left⟩ hb
    exact .ok ⟨forall_mem_cons.mpr ⟨harg, hb.1⟩, hb.2⟩

theorem bindNamed_forall {keywords : Table α} (h : ∀ p ∈ keywords, P p.2) :
    ∀ (params : List (String × Bool)),
      Gives (fun t => ∀ p ∈ t, P p.2) (bindNamed keywords params)
  | [] => .ok (by simp)
  | (param, required) :: params => by
    rw [bindNamed]
    split
    · rename_i arg found
      exact (bindNamed_forall h params).bind fun others ho =>
        .ok (forall_mem_cons.mpr ⟨Table.get?_forall h found, ho⟩)
    · exact .ite (.error _) (bindNamed_forall h params)

/-- Only what is given arrives. -/
theorem Signature.bind_forall (sig : Signature) {args : List α} {keywords : List (String × α)}
    (hargs : ∀ a ∈ args, P a) (hkeys : ∀ p ∈ keywords, P p.2) :
    Gives (AllBound P) (sig.bind args keywords) := by
  have keys := Table.setAll_forall (t := []) (by simp) hkeys
  rw [Signature.bind]
  refine .ite ((Gives.error _).bind (P := fun _ => False) fun _ h => h.elim)
    ((bindPositional_forall _ _ _ _ hargs).bind ?_)
  rintro ⟨bound, left⟩ hb
  refine (bindNamed_forall keys _).bind fun named hn => ?_
  simp only
  split
  · exact .error _
  · exact .ok ⟨forall_mem_append.mpr ⟨hb.1, hn⟩, hb.2⟩

end

/-! ## Builtin functions -/

/-- All arguments that arrive are plain or errors. -/
abbrev PlainBound (bound : Bound Outcome) : Prop := AllBound PlainOutcome bound

namespace Builtin

/-- A call of a function of `Math` is plain. -/
theorem plain_mathCall (name : String) {args : List Script.Expr} (h : PlainExprs args) :
    (mathCall name args).Plain := plain_invoke name trivial h

/-- What is taken for a mapping is a call of `map`, as a member or as a key. -/
theorem eq_of_mapped? {e items f : Script.Expr} (is : mapped? e = some (items, f)) :
    ∃ computed optional, e = .call (.member items (.ident "map") computed optional) [f] := by
  rw [mapped?.eq_def] at is
  split at is
  · split at is
    · next same =>
        obtain ⟨rfl, rfl⟩ := Prod.mk.inj (Option.some.inj is)
        exact ⟨_, _, by rw [same]⟩
    · cases is
  · cases is

/-- The items and the function of a plain mapping are plain. -/
theorem plain_mapped {e items f : Script.Expr} (h : e.Plain) (found : mapped? e = some (items, f)) :
    items.Plain ∧ f.Plain := by
  obtain ⟨_, _, rfl⟩ := eq_of_mapped? found
  exact ⟨h.1.1, h.2.1⟩

/-- So quantifying over it is plain too. -/
theorem plain_quantified (method : String) {e : Script.Expr} (h : e.Plain) :
    (quantified method e).Plain := by
  rw [quantified]
  split
  · rename_i items f found
    obtain ⟨hi, hf⟩ := plain_mapped h found
    exact plain_invoke _ hi (plain_singleton hf)
  · exact plain_invoke _ h (plain_singleton ⟨plainParams_name "v", trivial⟩)

theorem plain_adder : adder.Plain :=
  ⟨plainParams_names ["a", "b"], trivial, trivial⟩

theorem argument_plain {bound : Bound Outcome} (h : PlainBound bound) (param : String) :
    PlainOutcome (argument bound param) := by
  rw [argument]
  split
  · rename_i o found
    exact Table.get?_forall h.1 found
  · exact .error _

/-- A function that keeps expressions plain gives a plain outcome. -/
theorem applied_plain {bound : Bound Outcome} (h : PlainBound bound)
    {f : Script.Expr → Script.Expr} (hf : ∀ e, e.Plain → (f e).Plain) :
    PlainOutcome (applied bound f) :=
  (argument_plain h "x").bind fun e he => .ok (hf e he)

/-- Every builtin function has a plain outcome. -/
theorem call_plain {bound : Bound Outcome} (h : PlainBound bound) (b : Builtin) :
    PlainOutcome (b.call bound) := by
  have rest := allOk_plain h.2
  cases b with
  | print => exact rest.bind fun _ hs => .ok (plain_invoke _ trivial hs)
  | len => exact applied_plain h fun _ he => ⟨he, trivial⟩
  | min | max => exact .ite (.error _) (rest.bind fun _ hs => .ok (plain_mathCall _ hs))
  | abs | math => exact applied_plain h fun _ he => plain_mathCall _ (plain_singleton he)
  | round =>
    refine (argument_plain h "number").bind fun number hn => ?_
    split
    · exact .ok (plain_mathCall _ (plain_singleton hn))
    · rename_i digits found
      exact (Table.get?_forall h.1 found).bind fun e he =>
        .ok ⟨trivial, plain_singleton (plain_invoke _ hn (plain_singleton he))⟩
  | pow =>
    exact (argument_plain h "base").bind fun _ hbase =>
      (argument_plain h "exp").bind fun _ hexp => .ok ⟨hbase, hexp⟩
  | str | float | bool => exact applied_plain h fun _ he => ⟨trivial, plain_singleton he⟩
  | int => exact .ite (rest.bind fun _ hs => .ok ⟨trivial, hs⟩) (.error _)
  | list => exact applied_plain h fun _ he => plain_invoke _ trivial (plain_singleton he)
  | any | all => exact applied_plain h fun _ he => plain_quantified _ he
  | sum =>
    -- The items of a sum and its start are both given by position.
    obtain ⟨_, hrest⟩ := h
    rw [call]
    split
    · rename_i items heq
      rw [heq] at hrest
      exact (hrest items mem_cons_self).bind fun _ hi =>
        .ok (plain_invoke _ hi ⟨plain_adder, trivial, trivial⟩)
    · rename_i items start heq
      rw [heq] at hrest
      exact (hrest start (by simp)).bind fun _ hs => (hrest items mem_cons_self).bind
        fun _ hi => .ok (plain_invoke _ hi ⟨plain_adder, hs, trivial⟩)
    · exact .error _
  | jsonLoads =>
    exact (argument_plain h "s").bind fun _ he => .ok (plain_invoke _ trivial (plain_singleton he))
  | jsonDumps =>
    refine (argument_plain h "obj").bind fun obj ho => ?_
    split
    · exact .ok (plain_invoke _ trivial (plain_singleton ho))
    · rename_i indent found
      exact (Table.get?_forall h.1 found).bind fun _ he =>
        .ok (plain_invoke _ trivial ⟨ho, trivial, he, trivial⟩)

/-- A call of a builtin function is plain, whatever arguments it is given. -/
theorem lower_plain (b : Builtin) (name : String) {args : List Outcome}
    {keywords : List (String × Outcome)} (hargs : ∀ o ∈ args, PlainOutcome o)
    (hkeys : ∀ p ∈ keywords, PlainOutcome p.2) : PlainOutcome (b.lower name args keywords) := by
  rw [lower]
  split
  · rename_i bound found
    exact call_plain (b.signature.bind_forall hargs hkeys bound found) b
  · exact .error _

end Builtin

/-- The constants of modules are plain. -/
theorem moduleConstant?_plain {module name : String} {e : Script.Expr}
    (h : moduleConstant? module name = some e) : e.Plain := by
  refine Table.get?_bind_forall ?_ h
  simp only [moduleConstants, forall_mem_cons]
  exact ⟨⟨⟨trivial, trivial⟩, ⟨trivial, trivial⟩, trivial, by simp⟩, by simp⟩

/-! ## Expressions -/

/-- Names are plain, bound or not. -/
theorem nameOutcome_plain (bound : List String) (id : String) :
    PlainOutcome (nameOutcome bound id) :=
  .ite (.ok trivial) (.ite (.error _) (.ite (.error _) (.ok trivial)))

/-- Operators on plain operands are plain. -/
theorem binaryOutcome_plain {left right : Script.Expr} (op : BinOp) (hl : left.Plain)
    (hr : right.Plain) : PlainOutcome (binaryOutcome left op right) := by
  rw [binaryOutcome.eq_def]
  split
  · exact .ok (Builtin.plain_mathCall _ (plain_singleton ⟨hl, hr⟩))
  · split
    · exact .ok ⟨hl, hr⟩
    · exact .error _

/-- The bounds of a slice are plain. -/
theorem sliceArgs_plain {lower upper : Option Outcome} (hl : ∀ o, lower = some o → PlainOutcome o)
    (hu : ∀ o, upper = some o → PlainOutcome o) : Gives PlainExprs (sliceArgs lower upper) := by
  cases lower with
  | none =>
    cases upper with
    | none => exact .ok trivial
    | some u => exact (hu u rfl).bind fun _ h => .ok ⟨trivial, h, trivial⟩
  | some l =>
    cases upper with
    | none => exact (hl l rfl).bind fun _ h => .ok ⟨h, trivial⟩
    | some u =>
      exact (hl l rfl).bind fun _ h => (hu u rfl).bind fun _ h' => .ok ⟨h, h', trivial⟩

theorem allOperands_plain : ∀ {os : List (CmpOp × Bool × Outcome)},
    (∀ o ∈ os, PlainOutcome o.2.2) → Gives PlainOperands (allOperands os)
  | [], _ => .ok fun _ ho => absurd ho not_mem_nil
  | (_, _, _) :: _, h =>
    (h _ mem_cons_self).bind fun _ he =>
      (allOperands_plain fun p hp => h p (mem_cons_of_mem _ hp)).bind fun _ hes =>
        .ok (forall_mem_cons.mpr ⟨he, hes⟩)

/-- Constants are plain. -/
theorem Constant.outcome_plain (c : Constant) : PlainOutcome c.outcome := by
  cases c with
  | imaginary _ | bytes _ | ellipsis => exact .error _
  | _ => exact .ok trivial

mutual

/-- Every expression of a routine has a plain outcome, by induction over its form. -/
theorem Expr.lower_plain : ∀ (bound : List String) (e : Expr), PlainOutcome (e.lower bound)
  | _, .const value => by
    rw [Expr.lower]
    exact value.outcome_plain
  | bound, .name id => by
    rw [Expr.lower]
    exact nameOutcome_plain bound id
  | bound, .list es | bound, .tuple es => by
    rw [Expr.lower]
    exact (allOk_plain (outcomes_plain bound es)).bind fun _ hs => .ok hs
  | bound, .set es => by
    rw [Expr.lower]
    exact (allOk_plain (outcomes_plain bound es)).bind fun _ hs =>
      .ok ⟨trivial, plain_singleton hs⟩
  | bound, .dict entries => by
    rw [Expr.lower]
    exact (entryProps_plain bound entries).bind fun _ hs => .ok hs
  | bound, .binary left op right => by
    rw [Expr.lower]
    exact (left.lower_plain bound).bind fun _ hl => (right.lower_plain bound).bind fun _ hr =>
      binaryOutcome_plain op hl hr
  | bound, .unary _ operand => by
    rw [Expr.lower]
    exact (operand.lower_plain bound).bind fun _ he => .ok he
  | bound, .bool _ values => by
    rw [Expr.lower.eq_def]
    exact (allOk_plain (outcomes_plain bound values)).bind fun _ hs => .ok (plain_joinedBy _ hs)
  | bound, .compare left rest => by
    rw [Expr.lower]
    exact (left.lower_plain bound).bind fun _ hl =>
      (allOperands_plain (operandOutcomes_plain bound rest)).bind fun _ hs =>
        .ok (plain_joinedBy _ (plain_comparedAll hl hs))
  | bound, .ifExp test yes no => by
    rw [Expr.lower]
    exact (test.lower_plain bound).bind fun _ hc => (yes.lower_plain bound).bind fun _ hy =>
      (no.lower_plain bound).bind fun _ hn => .ok ⟨hc, hy, hn⟩
  | bound, .call func args keywords => by
    have hargs := outcomes_plain bound args
    have hkeys := keywordOutcomes_plain bound keywords
    have hfunc := func.lower_plain bound
    rw [Expr.lower]
    refine .ite (.error _) (.ite (.error _) ?_)
    split
    · rename_i id
      -- A name that is no builtin is called as it is, and so is one that is bound.
      have plain : PlainOutcome (do
          noKeywords keywords id
          let f ← nameOutcome bound id
          let es ← allOk (outcomes bound args)
          .ok (.call f es)) :=
        Gives.bind' fun _ => (nameOutcome_plain bound id).bind fun _ hf =>
          (allOk_plain hargs).bind fun _ hs => .ok ⟨hf, hs⟩
      refine .ite plain ?_
      split
      · exact Builtin.lower_plain _ _ hargs hkeys
      · exact .ite (Gives.bind' fun _ => (allOk_plain hargs).bind fun _ hs => .ok ⟨trivial, hs⟩)
          plain
    · rename_i value attr
      -- The attribute of a module is looked up in its table.
      split
      · split
        · exact Builtin.lower_plain _ _ hargs hkeys
        · exact .error _
      · exact Gives.bind' fun _ => (value.lower_plain bound).bind fun _ ho =>
          (allOk_plain hargs).bind fun _ hs => .ok (plain_invoke _ ho hs)
    · exact Gives.bind' fun _ => Gives.bind' fun _ => hfunc.bind fun _ hf =>
        (allOk_plain hargs).bind fun _ hs => .ok ⟨hf, hs⟩
  | bound, .attribute value attr => by
    rw [Expr.lower]
    split
    · split
      · rename_i found
        exact .ok (moduleConstant?_plain found)
      · exact .error _
    · exact (value.lower_plain bound).bind fun _ ho => .ok ⟨ho, trivial⟩
  | bound, .subscript value index => by
    have hindex := index.lower_plain bound
    rw [Expr.lower]
    refine (value.lower_plain bound).bind fun _ ho => ?_
    split
    · rename_i lower upper step
      refine .ite (.error _) ?_
      exact (sliceArgs_plain (optionOutcome_plain bound lower)
        (optionOutcome_plain bound upper)).bind fun _ hs => .ok (plain_invoke _ ho hs)
    · rename_i operand
      exact (operand.lower_plain bound).bind fun _ he =>
        .ok (plain_invoke _ ho (plain_singleton he))
    · exact .error _
    · exact hindex.bind fun _ he => .ok ⟨ho, he⟩
  | bound, .lambda params body _ => by
    rw [Expr.lower]
    exact Gives.bind' fun names => (body.lower_plain (names ++ bound)).bind fun _ he =>
      .ok ⟨plainParams_names names, he⟩
  | bound, .comprehension built element generators => by
    rw [Expr.lower]
    refine .ite (.error _) ((lowerLoops_plain bound generators).bind ?_)
    rintro ⟨loops, inner⟩ hloops
    exact (element.lower_plain inner).bind fun _ he => .ok (plain_looped he hloops)
  | _, .slice .. | _, .dictComp .. | _, .starred _ | _, .named .. | _, .await _ | _, .yield _
  | _, .yieldFrom _ | _, .joined _ => by
    rw [Expr.lower]
    exact .error _
termination_by _ e => sizeOf e
decreasing_by all_goals subst_vars; simp <;> omega

theorem outcomes_plain : ∀ (bound : List String) (es : List Expr),
    ∀ o ∈ outcomes bound es, PlainOutcome o
  | _, [] => by simp [outcomes]
  | bound, e :: es => by
    rw [outcomes]
    exact forall_mem_cons.mpr ⟨e.lower_plain bound, outcomes_plain bound es⟩
termination_by _ e => sizeOf e
decreasing_by all_goals simp +arith

theorem optionOutcome_plain : ∀ (bound : List String) (e : Option Expr),
    ∀ o, optionOutcome bound e = some o → PlainOutcome o
  | _, none => by simp [optionOutcome]
  | bound, some e => by
    rw [optionOutcome]
    rintro _ ⟨⟩
    exact e.lower_plain bound
termination_by _ e => sizeOf e
decreasing_by simp

theorem keywordOutcomes_plain : ∀ (bound : List String) (keywords : List (Option String × Expr)),
    ∀ p ∈ keywordOutcomes bound keywords, PlainOutcome p.2
  | _, [] => by simp [keywordOutcomes]
  | bound, (some _, e) :: rest => by
    rw [keywordOutcomes]
    exact forall_mem_cons.mpr ⟨e.lower_plain bound, keywordOutcomes_plain bound rest⟩
  | bound, (none, _) :: rest => by
    rw [keywordOutcomes]
    exact keywordOutcomes_plain bound rest
termination_by _ e => sizeOf e
decreasing_by all_goals simp +arith

theorem operandOutcomes_plain : ∀ (bound : List String) (rest : List (CmpOp × Expr)),
    ∀ o ∈ operandOutcomes bound rest, PlainOutcome o.2.2
  | _, [] => by simp [operandOutcomes]
  | bound, (_, e) :: rest => by
    rw [operandOutcomes]
    exact forall_mem_cons.mpr ⟨e.lower_plain bound, operandOutcomes_plain bound rest⟩
termination_by _ e => sizeOf e
decreasing_by all_goals simp +arith

theorem entryProps_plain : ∀ (bound : List String) (entries : List Entry),
    Gives PlainProps (entryProps bound entries)
  | _, [] => by
    rw [entryProps]
    exact .ok trivial
  | _, .spread _ :: _ => by
    rw [entryProps.eq_def]
    exact .error _
  | bound, .pair _ value :: rest => by
    have hvalue := value.lower_plain bound
    have hrest := entryProps_plain bound rest
    rw [entryProps.eq_def]
    split
    · exact .ok trivial
    · rename_i heq
      obtain ⟨⟨rfl, rfl⟩, rfl⟩ := by simpa using heq
      exact hvalue.bind fun _ he => hrest.bind fun _ hs => .ok ⟨he, hs⟩
    · exact .error _
termination_by _ e => sizeOf e
decreasing_by all_goals simp +arith

/-- The items of all loops of a comprehension are plain. -/
theorem lowerLoops_plain : ∀ (bound : List String) (generators : List Generator),
    Gives (fun r => ∀ l ∈ r.1, l.items.Plain) (lowerLoops bound generators)
  | _, [] => by
    rw [lowerLoops]
    exact .ok (by simp)
  | bound, .mk target iterable conditions isAsync :: rest => by
    have hitems := iterable.lower_plain bound
    rw [lowerLoops.eq_def]
    refine .ite (.error _) ?_
    split
    · rename_i id
      refine hitems.bind fun _ hi =>
        (allOk_plain (outcomes_plain (id :: bound) conditions)).bind fun _ hs =>
          (lowerLoops_plain (id :: bound) rest).bind ?_
      rintro ⟨loops, inner⟩ hl
      exact .ok (forall_mem_cons.mpr ⟨plain_filtered id hi hs, hl⟩)
    · exact .error _
termination_by _ e => sizeOf e
decreasing_by all_goals subst_vars; simp +arith

end

end JexlScript.Routine
