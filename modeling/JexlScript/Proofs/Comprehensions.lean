import Mathlib.Logic.Function.Basic
import JexlScript.Proofs.RoutineBody
import JexlScript.Value

/-!
# Comprehensions as chains of calls

The loops of a comprehension share one scope: a loop leaves its name behind with the last
value that it had, and the next round of a loop around it starts from there. In a chain of
calls each function has a scope of its own, so that nothing is left behind. The two build
the same list where nothing is read that an inner loop may have left behind.
-/

namespace JexlScript.Comprehension

open List

/-- A scope: the value of each name that has one. -/
abbrev Env (V : Type) := String → Option V

/-- A scope in which a name has a new value. -/
def assign {V : Type} (σ : Env V) (x : String) (v : V) : Env V := Function.update σ x (some v)

/-- What is asked of values: lists of them are values too, and some are true. -/
structure Values (V : Type) where
  list : List V → V
  items? : V → Option (List V)
  truthy : V → Bool
  items_list : ∀ vs, items? (list vs) = some vs

/-- A loop of a comprehension, with its conditions. -/
structure Clause where
  target : String
  items : Routine.Expr
  conds : List Routine.Expr

/-- The loop of a clause, which is a plain one over a single name. -/
def Clause.generator (c : Clause) : Routine.Generator := .mk (.name c.target) c.items c.conds false

variable {V : Type} (M : Values V)

/-- Whether the conditions of a loop hold, one after the other until one does not. -/
def passes : List (Env V → Option V) → Env V → Option Bool
  | [], _ => some true
  | c :: cs, σ => (c σ).bind fun v => if M.truthy v then passes cs σ else some false

/-! ## Loops -/

/-- A round of a loop: the name takes the value, and the body runs if the conditions hold. -/
def round (body : Env V → Option (List V × Env V)) (x : String)
    (conds : List (Env V → Option V)) (σ : Env V) (v : V) : Option (List V × Env V) :=
  (passes M conds (assign σ x v)).bind fun ok =>
    if ok then body (assign σ x v) else some ([], assign σ x v)

/-- The rounds of a loop, each in the scope that the one before it has left. -/
def rounds (body : Env V → Option (List V × Env V)) (x : String)
    (conds : List (Env V → Option V)) : List V → Env V → Option (List V × Env V)
  | [], σ => some ([], σ)
  | v :: vs, σ =>
    (round M body x conds σ v).bind fun r =>
      (rounds body x conds vs r.2).map fun r' => (r.1 ++ r'.1, r'.2)

section

variable (P : Routine.Expr → Env V → Option V) (element : Routine.Expr)

/-- Nested loops in one scope, with what they build and the scope they leave. -/
def loops : List Clause → Env V → Option (List V × Env V)
  | [], σ => (P element σ).map fun v => ([v], σ)
  | c :: cs, σ =>
    ((P c.items σ).bind M.items?).bind fun vs =>
      rounds M (loops cs) c.target (c.conds.map P) vs σ

/-- The list that a comprehension builds. The items of its first loop are evaluated outside
of its scope, in which the names of all its loops start without a value. -/
def build : List Clause → Env V → Option (List V)
  | [], _ => none
  | c :: cs, ρ =>
    ((P c.items ρ).bind M.items?).bind fun vs =>
      (rounds M (loops M P element cs) c.target (c.conds.map P) vs fun x =>
        if x ∈ c.target :: cs.map Clause.target then none else ρ x).map Prod.fst

end

/-! ## Chains -/

/-- The values that pass a test, which may fail. -/
def keep (test : V → Option Bool) : List V → Option (List V)
  | [] => some []
  | v :: vs => (test v).bind fun ok => (keep test vs).map fun kept => if ok then v :: kept else kept

/-- What the methods on lists do that comprehensions are turned into. -/
def Values.method? : String → Option (List V → (V → Option V) → Option V)
  | "map" => some fun vs f => (vs.mapM f).map M.list
  | "filter" => some fun vs f => (keep (fun v => (f v).map M.truthy) vs).map M.list
  | "flatMap" => some fun vs f =>
    (vs.mapM f).map fun ws => M.list (ws.flatMap fun w => (M.items? w).getD [w])
  | _ => none

variable (leaf : Script.Expr → Env V → Option V)

/-- The value of a script with calls of methods of lists, where the parameter of a function
hides what else has its name. Everything else is left to `leaf`. -/
def evaluate : Script.Expr → Env V → Option V
  | .call (.member obj (.ident method) false false) [.arrow [.name x] body], ρ =>
    match M.method? method with
    | some apply =>
      ((evaluate obj ρ).bind M.items?).bind fun vs => apply vs fun v => evaluate body (assign ρ x v)
    | none => leaf (.call (.member obj (.ident method) false false) [.arrow [.name x] body]) ρ
  | .logical left "&&" right, ρ =>
    (evaluate left ρ).bind fun v => if M.truthy v then evaluate right ρ else some v
  | e, ρ => leaf e ρ

/-! ## What an inner loop leaves behind -/

/-- Scopes that agree on all but some names. -/
def AgreeOff (names : List String) (σ ρ : Env V) : Prop := ∀ x ∉ names, σ x = ρ x

/-- Whether an expression does not depend on some names. -/
def Ignores (f : Env V → Option V) (names : List String) : Prop :=
  ∀ σ ρ, AgreeOff names σ ρ → f σ = f ρ

/-- A loop with a scope for each round: nothing is left behind. -/
def around (body : Env V → Option (List V)) (x : String) (conds : List (Env V → Option V)) :
    List V → Env V → Option (List V)
  | [], _ => some []
  | v :: vs, ρ =>
    ((passes M conds (assign ρ x v)).bind fun ok =>
      if ok then body (assign ρ x v) else some []).bind fun built =>
        (around body x conds vs ρ).map (built ++ ·)

/-- A name that is given the same value in both scopes agrees from then on. -/
theorem agreeOff_assign {names : List String} {x : String} {σ ρ : Env V}
    (agree : AgreeOff (x :: names) σ ρ) (v : V) :
    AgreeOff (names.filter (· ≠ x)) (assign σ x v) (assign ρ x v) := by
  intro y other
  by_cases same : y = x
  · simp [assign, same]
  · have other : y ∉ x :: names := by simpa [same] using other
    simpa [assign, same] using agree y other

/-- Conditions that ignore some names come out alike where all others agree. -/
theorem passes_eq {names : List String} {conds : List (Env V → Option V)}
    (ignores : ∀ c ∈ conds, Ignores c names) {σ ρ : Env V} (agree : AgreeOff names σ ρ) :
    passes M conds σ = passes M conds ρ := by
  induction conds with
  | nil => rfl
  | cons c cs ih =>
    obtain ⟨ignore, ignores⟩ := forall_mem_cons.mp ignores
    rw [passes, passes, ignore σ ρ agree, ih ignores]

section

variable {M} {body : Env V → Option (List V × Env V)} {x : String} {names : List String}
  {conds : List (Env V → Option V)}

/-- A round changes its own name and those that its body changes. -/
theorem round_frame (frame : ∀ σ r, body σ = some r → AgreeOff names r.2 σ) {v : V} {σ : Env V}
    {r : List V × Env V} (ran : round M body x conds σ v = some r) :
    AgreeOff (x :: names) r.2 σ := by
  intro y other
  obtain ⟨noTarget, noName⟩ := not_or.mp (mt mem_cons.mpr other)
  have kept : assign σ x v y = σ y := Function.update_of_ne noTarget _ _
  obtain ⟨ok, _, ran⟩ := Option.bind_eq_some_iff.mp ran
  rw [← kept]
  split at ran
  · exact frame _ _ ran y noName
  · cases ran
    rfl

/-- The rounds of a loop change its own name and those that its body changes. -/
theorem rounds_frame (frame : ∀ σ r, body σ = some r → AgreeOff names r.2 σ) {vs : List V}
    {σ : Env V} {r : List V × Env V} (ran : rounds M body x conds vs σ = some r) :
    AgreeOff (x :: names) r.2 σ := by
  induction vs generalizing σ r with
  | nil =>
    cases ran
    exact fun _ _ => rfl
  | cons v vs ih =>
    obtain ⟨r₁, first, ran⟩ := Option.bind_eq_some_iff.mp ran
    obtain ⟨r₂, rest, rfl⟩ := Option.map_eq_some_iff.mp ran
    exact fun y other => (ih rest y other).trans (round_frame frame first y other)

/-- Rounds in one scope build what rounds in scopes of their own do, if nothing read in a round
depends on what an earlier one left. -/
theorem rounds_eq {body' : Env V → Option (List V)}
    (frame : ∀ σ r, body σ = some r → AgreeOff names r.2 σ)
    (same : ∀ σ ρ, AgreeOff (names.filter (· ≠ x)) σ ρ → (body σ).map Prod.fst = body' ρ)
    (ignores : ∀ c ∈ conds, Ignores c (names.filter (· ≠ x))) (vs : List V) {σ ρ : Env V}
    (agree : AgreeOff (x :: names) σ ρ) :
    (rounds M body x conds vs σ).map Prod.fst = around M body' x conds vs ρ := by
  induction vs generalizing σ with
  | nil => rfl
  | cons v vs ih =>
    have agree' := agreeOff_assign agree v
    -- the round builds the same, whatever was left behind before it
    have first : (round M body x conds σ v).map Prod.fst =
        (passes M conds (assign ρ x v)).bind fun ok =>
          if ok then body' (assign ρ x v) else some [] := by
      rw [round, passes_eq M ignores agree', Option.map_bind]
      congr 1
      funext ok
      cases ok with
      | true => exact same _ _ agree'
      | false => rfl
    rw [around, ← first, rounds]
    cases ran : round M body x conds σ v with
    | none => rfl
    | some r =>
      rw [← ih fun y other => (round_frame frame ran y other).trans (agree y other)]
      simp [Function.comp_def]

end

section

variable (P : Routine.Expr → Env V → Option V) (element : Routine.Expr)

/-- Whether the conditions of a loop and the items of the next one depend on no name that a
later loop takes, the name of the loop itself aside. -/
def Settled : List Clause → Prop
  | [] => True
  | c :: cs =>
    (∀ e ∈ c.conds ++ (cs.head?.map Clause.items).toList,
      Ignores (P e) ((cs.map Clause.target).filter (· ≠ c.target))) ∧ Settled cs

/-- Nested loops with a scope for each round. -/
def nest : List Clause → Env V → Option (List V)
  | [], ρ => (P element ρ).map ([·])
  | c :: cs, ρ =>
    ((P c.items ρ).bind M.items?).bind fun vs => around M (nest cs) c.target (c.conds.map P) vs ρ

variable {M P element}

/-- Loops change no names but their own. -/
theorem loops_frame {cs : List Clause} {σ : Env V} {r : List V × Env V}
    (ran : loops M P element cs σ = some r) : AgreeOff (cs.map Clause.target) r.2 σ := by
  induction cs generalizing σ r with
  | nil =>
    obtain ⟨v, _, rfl⟩ := Option.map_eq_some_iff.mp ran
    exact fun _ _ => rfl
  | cons c cs ih =>
    obtain ⟨vs, _, ran⟩ := Option.bind_eq_some_iff.mp ran
    exact rounds_frame (fun _ _ => ih) ran

/-- In settled clauses sharing a scope makes no difference to what is built. -/
theorem rounds_settled {c : Clause} {cs : List Clause} (settled : Settled P (c :: cs))
    (vs : List V) {σ ρ : Env V} (agree : AgreeOff (c.target :: cs.map Clause.target) σ ρ) :
    (rounds M (loops M P element cs) c.target (c.conds.map P) vs σ).map Prod.fst =
      around M (nest M P element cs) c.target (c.conds.map P) vs ρ := by
  have conds : ∀ f ∈ c.conds.map P,
      Ignores f ((cs.map Clause.target).filter (· ≠ c.target)) := by
    intro f member
    obtain ⟨e, isCond, rfl⟩ := mem_map.mp member
    exact settled.1 e (mem_append_left _ isCond)
  refine rounds_eq (fun _ _ => loops_frame) (fun σ ρ agree => ?_) conds vs agree
  -- behind an assignment to the name of the loop
  cases cs with
  | nil =>
    have same : σ = ρ := funext fun x => agree x not_mem_nil
    rw [loops, nest, same, Option.map_map]
    rfl
  | cons c' cs =>
    have items := settled.1 c'.items (mem_append_right _ mem_cons_self) σ ρ agree
    rw [loops, nest, items, Option.map_bind]
    congr 1
    funext vs
    exact rounds_settled settled.2 vs fun x other =>
      agree x fun member => other (mem_filter.mp member).1

end

/-! ## What a chain does -/

section

variable {M leaf}

/-- A call of a list method with an arrow applies the method to what the arrow does. -/
theorem evaluate_invoke {method : String} {apply : List V → (V → Option V) → Option V}
    (is : M.method? method = some apply) (obj : Script.Expr) (x : String) (body : Script.Expr)
    (ρ : Env V) :
    evaluate M leaf (obj.invoke method [.arrow [.name x] body]) ρ =
      ((evaluate M leaf obj ρ).bind M.items?).bind fun vs =>
        apply vs fun v => evaluate M leaf body (assign ρ x v) := by
  rw [Script.Expr.invoke, Script.Expr.dot, evaluate, is]

/-- Conditions joined by `&&` hold if they pass one after the other. -/
theorem truthy_joined (e : Script.Expr) (es : List Script.Expr) (ρ : Env V) :
    (evaluate M leaf (Routine.joinedBy "&&" (e :: es)) ρ).map M.truthy =
      passes M ((e :: es).map (evaluate M leaf)) ρ := by
  rw [Routine.joinedBy, map_cons, passes]
  induction es generalizing e with
  | nil =>
    rw [foldl_nil]
    cases evaluate M leaf e ρ with
    | none => rfl
    | some v => cases truth : M.truthy v <;> simp [passes, truth]
  | cons e' es ih =>
    rw [foldl_cons, ih, evaluate]
    cases evaluate M leaf e ρ with
    | none => rfl
    | some v => cases truth : M.truthy v <;> simp [passes, truth]

theorem keep_all (vs : List V) : keep (fun _ => some true) vs = some vs := by
  induction vs with
  | nil => rfl
  | cons v vs ih => simp [keep, ih]

/-- Filtering the items of a clause keeps those that pass its conditions. -/
theorem items_filtered (x : String) (items : Script.Expr) (conds : List Script.Expr) (ρ : Env V) :
    (evaluate M leaf (Routine.filtered x items conds) ρ).bind M.items? =
      ((evaluate M leaf items ρ).bind M.items?).bind
        (keep fun v => passes M (conds.map (evaluate M leaf)) (assign ρ x v)) := by
  cases conds with
  | nil =>
    simp only [Routine.filtered, isEmpty_nil, if_true, map_nil, passes]
    cases (evaluate M leaf items ρ).bind M.items? with
    | none => rfl
    | some vs => exact (keep_all vs).symm
  | cons c cs =>
    have filters : M.method? "filter" =
      some fun vs f => (keep (fun v => (f v).map M.truthy) vs).map M.list := rfl
    simp only [Routine.filtered, isEmpty_cons, Bool.false_eq_true, if_false,
      evaluate_invoke filters, truthy_joined]
    cases (evaluate M leaf items ρ).bind M.items? with
    | none => rfl
    | some vs =>
      have back : M.items? ∘ M.list = some := funext M.items_list
      simp only [Option.bind_some, Option.bind_map, back, Option.bind_fun_some, map_cons]

theorem mapM_cons_eq {α β : Type} (f : α → Option β) (a : α) (as : List α) :
    (a :: as).mapM f = (f a).bind fun b => (as.mapM f).map (b :: ·) := by
  rw [mapM_cons]
  cases f a <;> cases as.mapM f <;> rfl

/-- A loop with a scope for each round is a filter, a map and a flattening. -/
theorem around_eq (body : Env V → Option (List V)) (x : String)
    (conds : List (Env V → Option V)) (vs : List V) (ρ : Env V) :
    around M body x conds vs ρ =
      (keep (fun v => passes M conds (assign ρ x v)) vs).bind fun kept =>
        (kept.mapM fun v => body (assign ρ x v)).map List.flatten := by
  induction vs with
  | nil => rfl
  | cons v vs ih =>
    rw [around, keep, ih]
    generalize keep (fun v => passes M conds (assign ρ x v)) vs = kept
    cases passes M conds (assign ρ x v) with
    | none => rfl
    | some ok =>
      cases ok with
      | false => cases kept <;> simp [Function.comp_def]
      | true =>
        cases kept <;> cases built : body (assign ρ x v) <;>
          simp [-mapM_cons, mapM_cons_eq, built, Function.comp_def]

theorem mapM_singleton (f : V → Option V) (vs : List V) :
    (vs.mapM fun v => (f v).map ([·])).map List.flatten = vs.mapM f := by
  induction vs with
  | nil => rfl
  | cons v vs ih =>
    rw [mapM_cons_eq, mapM_cons_eq, ← ih]
    cases f v <;> simp [Function.comp_def]

/-- Flattening after a map that gives lists joins the lists. -/
theorem mapM_list (f : V → Option (List V)) (vs : List V) :
    (vs.mapM fun v => (f v).map M.list).map (·.flatMap fun w => (M.items? w).getD [w]) =
      (vs.mapM f).map List.flatten := by
  induction vs with
  | nil => rfl
  | cons v vs ih =>
    rw [mapM_cons_eq, mapM_cons_eq]
    cases f v with
    | none => rfl
    | some ws =>
      have rest := congrArg (Option.map (ws ++ ·)) ih
      simpa [Function.comp_def, M.items_list] using rest

end

/-! ## Comprehensions -/

/-- The expressions of a comprehension, each with the names bound where it stands. -/
def leaves (element : Routine.Expr) :
    (bound : List String) → List Clause → List (Routine.Expr × List String)
  | b, [] => [(element, b)]
  | b, c :: cs =>
    (c.items, b) :: (c.conds.map (·, c.target :: b) ++ leaves element (c.target :: b) cs)

section

variable {M leaf} {P : Routine.Expr → Env V → Option V} {element : Routine.Expr}

open Routine (Gives)

/-- Conditions are lowered to expressions that mean the same. -/
theorem conds_shared {b : List String} {conds : List Routine.Expr}
    (shared : ∀ c ∈ conds, ∀ e, c.lower b = .ok e → P c = evaluate M leaf e) :
    Gives (fun es => es.map (evaluate M leaf) = conds.map P)
      (Routine.allOk (Routine.outcomes b conds)) := by
  induction conds with
  | nil => exact .ok rfl
  | cons c cs ih =>
    obtain ⟨first, rest⟩ := forall_mem_cons.mp shared
    rw [Routine.outcomes, Routine.allOk]
    refine Gives.outcome fun e lowered => (ih rest).bind fun es same => .ok ?_
    rw [map_cons, map_cons, first e lowered, same]

/-- The outermost loop of a nest: the items that pass, each with the rest of the nest around it. -/
theorem nest_cons (c : Clause) (cs : List Clause) (ρ : Env V) :
    nest M P element (c :: cs) ρ =
      (((P c.items ρ).bind M.items?).bind
        (keep fun v => passes M (c.conds.map P) (assign ρ c.target v))).bind fun kept =>
          (kept.mapM fun v => nest M P element cs (assign ρ c.target v)).map List.flatten := by
  rw [nest]
  cases (P c.items ρ).bind M.items? with
  | none => rfl
  | some vs => exact around_eq _ _ _ vs ρ

/-- The chain of calls that loops are lowered to builds what their nest builds. -/
theorem looped_evaluates {b : List String} {c : Clause} {cs : List Clause}
    (shared : ∀ p ∈ leaves element b (c :: cs), ∀ e, p.1.lower p.2 = .ok e →
      P p.1 = evaluate M leaf e) :
    Gives (fun r => r.1 ≠ [] ∧ ∀ e, element.lower r.2 = .ok e → ∀ ρ,
        evaluate M leaf (Routine.looped e r.1) ρ = (nest M P element (c :: cs) ρ).map M.list)
      (Routine.lowerLoops b ((c :: cs).map Clause.generator)) := by
  obtain ⟨sharedItems, shared⟩ := forall_mem_cons.mp shared
  obtain ⟨sharedConds, shared⟩ := forall_mem_append.mp shared
  rw [map_cons, Clause.generator, Routine.lowerLoops]
  refine Gives.outcome fun items loweredItems => ?_
  refine (conds_shared fun e member => sharedConds _ (mem_map_of_mem member)).bind
    fun conds same => ?_
  -- Filtering goes before everything else, and is the same for the innermost loop and the others.
  have filtered (ρ : Env V) :
      (evaluate M leaf (Routine.filtered c.target items conds) ρ).bind M.items? =
        ((P c.items ρ).bind M.items?).bind
          (keep fun v => passes M (c.conds.map P) (assign ρ c.target v)) := by
    rw [items_filtered, same, ← sharedItems items loweredItems]
  cases cs with
  | nil =>
    refine .ok ⟨cons_ne_nil _ _, fun e lowered ρ => ?_⟩
    have maps : M.method? "map" = some fun vs f => (vs.mapM f).map M.list := rfl
    rw [Routine.looped, evaluate_invoke maps, filtered, ← shared _ mem_cons_self e lowered,
      nest_cons, Option.map_bind]
    congr 1
    funext kept
    exact congrArg _ (mapM_singleton _ kept).symm
  | cons c' cs =>
    -- The inner loops are lists, which `flatMap` flattens as `nest` joins them.
    refine (looped_evaluates shared).bind ?_
    rintro ⟨_ | ⟨l, ls⟩, inner⟩ ⟨some, rest⟩
    · exact absurd rfl some
    refine .ok ⟨cons_ne_nil _ _, fun e lowered ρ => ?_⟩
    have flatMaps : M.method? "flatMap" = .some fun vs f =>
      (vs.mapM f).map fun ws => M.list (ws.flatMap fun w => (M.items? w).getD [w]) := rfl
    rw [Routine.looped, evaluate_invoke flatMaps, filtered, nest_cons, Option.map_bind]
    · congr 1
      funext kept
      have flat := congrArg (Option.map M.list) (mapM_list (M := M) (fun v =>
        nest M P element (c' :: cs) (assign ρ c.target v)) kept)
      simpa only [rest e lowered, Option.map_map, Function.comp_def] using flat
    · nofun

end

/-- A list or an iterator that is built by loops over names is turned into a chain of calls
that gives the same list, or has no value either, in every scope and whatever its
expressions mean, if they mean the same in both languages and the loops are settled. -/
theorem comprehension_evaluates (P : Routine.Expr → Env V → Option V) {built : Routine.Built}
    {element : Routine.Expr} {c : Clause} {cs : List Clause} {b : List String}
    {script : Script.Expr}
    (lowered : (Routine.Expr.comprehension built element ((c :: cs).map Clause.generator)).lower b =
      .ok script)
    (shared : ∀ p ∈ leaves element b (c :: cs), ∀ e, p.1.lower p.2 = .ok e →
      P p.1 = evaluate M leaf e)
    (settled : Settled P (c :: cs)) (ρ : Env V) :
    evaluate M leaf script ρ = (build M P element (c :: cs) ρ).map M.list := by
  have chain : ∀ script, (Routine.Expr.comprehension built element
      ((c :: cs).map Clause.generator)).lower b = .ok script →
      evaluate M leaf script ρ = (nest M P element (c :: cs) ρ).map M.list := by
    rw [Routine.Expr.lower]
    refine Routine.Gives.ite (.error _) ((looped_evaluates shared).bind ?_)
    rintro ⟨ls, inner⟩ ⟨_, evaluates⟩
    exact Routine.Gives.outcome fun e lowered => .ok (evaluates e lowered ρ)
  have starts : AgreeOff (c.target :: cs.map Clause.target)
      (fun x => if x ∈ c.target :: cs.map Clause.target then none else ρ x) ρ :=
    fun x other => if_neg other
  rw [chain script lowered, nest, build]
  congr 2
  funext vs
  exact (rounds_settled settled vs starts).symm

/-! ## Loops over names -/

/-- Lists of JSON values. -/
def valueLists : Values Value where
  list := .list
  items?
    | .list vs => some vs
    | _ => none
  truthy := Value.truthy
  items_list _ := rfl

/-- Evaluates names only. -/
def named (e : Routine.Expr) (ρ : Env V) : Option V := e.name?.bind ρ

/-- Evaluates identifiers only. -/
def identified (e : Script.Expr) (ρ : Env V) : Option V :=
  match e with
  | .ident x => ρ x
  | _ => none

/-- A name is lowered to an identifier, which has the same value. -/
theorem named_shared {x : String} {b : List String} {e : Script.Expr}
    (lowered : (Routine.Expr.name x).lower b = .ok e) :
    named (.name x) = evaluate M identified e := by
  have same : e = .ident x := by
    rw [Routine.Expr.lower, Routine.nameOutcome] at lowered
    split at lowered
    · cases lowered
      rfl
    · split at lowered
      · cases lowered
      · split at lowered <;> cases lowered
        rfl
  subst same
  rfl

/-- A list of lists of lists, the first of them empty. -/
def nestedScope : Env Value
  | "a" => some (.list [.list [], .list [.list [.scalar (.int 7)]]])
  | "b" => some (.list [.scalar .null, .scalar .null])
  | _ => none

/-- `for x in a if x for x in x` -/
def unnesting : List Clause := [⟨"x", .name "a", [.name "x"]⟩, ⟨"x", .name "x", []⟩]

/-- A loop may take the name of the one around it and go through its items. -/
theorem comprehension_evaluates_unnesting : ∃ script,
    (Routine.Expr.comprehension .list (.name "x") (unnesting.map Clause.generator)).lower [] =
      .ok script ∧
    evaluate valueLists identified script nestedScope = some (.list [.list [.scalar (.int 7)]]) := by
  obtain ⟨script, lowered⟩ : ∃ script, (Routine.Expr.comprehension .list (.name "x")
    (unnesting.map Clause.generator)).lower [] = .ok script := ⟨_, rfl⟩
  refine ⟨script, lowered, ?_⟩
  rw [comprehension_evaluates valueLists identified named lowered ?_ ?_ nestedScope]
  · rfl
  · simp only [leaves, List.map_cons, List.map_nil, List.cons_append, List.nil_append,
      List.forall_mem_cons]
    exact ⟨fun _ => named_shared _, fun _ => named_shared _, fun _ => named_shared _,
      fun _ => named_shared _, List.forall_mem_nil _⟩
  · have every (f : Env Value → Option Value) : Ignores f [] :=
      fun σ ρ agree => congrArg f (funext fun x => agree x List.not_mem_nil)
    exact ⟨fun e _ => every _, fun e _ => every _, trivial⟩

/-- `for x in a for y in b for x in x` -/
def rereading : List Clause :=
  [⟨"x", .name "a", []⟩, ⟨"y", .name "b", []⟩, ⟨"x", .name "x", []⟩]

/-- Where the innermost loop goes on with the `x` that it has left behind, the chain takes that
of the outermost function again. -/
theorem chain_rereads : ∃ script,
    (Routine.Expr.comprehension .list (.name "x") (rereading.map Clause.generator)).lower [] =
      .ok script ∧
    (∀ p ∈ leaves (.name "x") [] rereading, ∀ e, p.1.lower p.2 = .ok e →
      named p.1 = evaluate valueLists identified e) ∧
    build valueLists named (.name "x") rereading nestedScope =
      some [.list [.scalar (.int 7)], .scalar (.int 7)] ∧
    evaluate valueLists identified script nestedScope =
      some (.list [.list [.scalar (.int 7)], .list [.scalar (.int 7)]]) := by
  refine ⟨_, rfl, ?_, rfl, rfl⟩
  simp only [rereading, leaves, List.map_nil, List.nil_append, List.forall_mem_cons]
  exact ⟨fun _ => named_shared _, fun _ => named_shared _, fun _ => named_shared _,
    fun _ => named_shared _, List.forall_mem_nil _⟩

end JexlScript.Comprehension
