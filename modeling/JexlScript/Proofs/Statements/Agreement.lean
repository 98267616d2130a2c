import JexlScript.Proofs.Statements.Declarations
import JexlScript.Proofs.Statements.Execution

/-!
# Bodies and their scripts run alike

A routine and the function that it is turned into are run side by side. Between any two
statements the names in scope track the store: what has a value there has the same value
here, and what was bound when the statements were turned into a script can be assigned to.
So a name that is read too early in the script has no value in the store either.
-/

namespace JexlScript.Execution

open List

open Script (blockNames paramNames)
open Routine (Lowers assignedAll withoutDescription hoistedNames)

variable {V : Type}

@[simp]
theorem Run.after_nil {ε S E : Type} (run : Run ε S E V) : run.after [] = run := by
  cases run <;> rfl

@[simp]
theorem Run.stop_andThen {ε S E : Type} (s : S) (next : S → Run ε S E V) :
    (Run.stop .through s).andThen next = next s :=
  Run.after_nil _

theorem inBlock_nil (run : Scoped V → Run Fault (Scoped V) Script.Expr V) (env : Scoped V) :
    inBlock [] run env = run env := by
  cases ran : run env <;> simp [inBlock, ran, Except.map]

/-! ## Two runs side by side -/

/-- The script does as well as the routine, unless that fails. -/
def Beside {α β : Type} (rel : α → β → Prop) (r : Except Failure α) (r' : Except Fault β) : Prop :=
  (∃ failure, r = .error failure ∧ failure ≠ .unsupported) ∨
    ∃ a b, r = .ok a ∧ r' = .ok b ∧ rel a b

theorem Beside.ok {α β : Type} {rel : α → β → Prop} {a : α} {b : β} (related : rel a b) :
    Beside rel (.ok a) (.ok b) :=
  .inr ⟨a, b, rfl, rfl, related⟩

/-- Steps that go side by side may be put together. -/
theorem Beside.bind {α β α' β' : Type} {rel : α → β → Prop} {rel' : α' → β' → Prop}
    {r : Except Failure α} {r' : Except Fault β} {next : α → Except Failure α'}
    {next' : β → Except Fault β'} (beside : Beside rel r r')
    (goes : ∀ a b, rel a b → Beside rel' (next a) (next' b)) :
    Beside rel' (r.bind next) (r'.bind next') := by
  rcases beside with ⟨failure, rfl, supported⟩ | ⟨a, b, rfl, rfl, related⟩
  · exact .inl ⟨failure, rfl, supported⟩
  · exact goes a b related

theorem Beside.map {α β α' β' : Type} {rel : α → β → Prop} {rel' : α' → β' → Prop}
    {r : Except Failure α} {r' : Except Fault β} {f : α → α'} {g : β → β'}
    (beside : Beside rel r r') (related : ∀ a b, rel a b → rel' (f a) (g b)) :
    Beside rel' (r.map f) (r'.map g) := by
  rcases beside with ⟨failure, rfl, supported⟩ | ⟨a, b, rfl, rfl, is⟩
  · exact .inl ⟨failure, rfl, supported⟩
  · exact .ok (related a b is)

variable (C : Routine.Expr → Script.Expr → Prop)

/-- The same values were seen for expressions and their counterparts. -/
abbrev SeenAlike : List (Routine.Expr × V) → List (Script.Expr × V) → Prop :=
  List.Forall₂ fun p p' => C p.1 p'.1 ∧ p.2 = p'.2

/-- Two runs end alike, with the same values seen and related stores. -/
def Alike (post : (String → Option V) → Scoped V → Prop)
    (d : Ending V × (String → Option V) × List (Routine.Expr × V))
    (d' : Ending V × Scoped V × List (Script.Expr × V)) : Prop :=
  d.1 = d'.1 ∧ SeenAlike C d.2.2 d'.2.2 ∧ (d.1 = .through → post d.2.1 d'.2.1)

section

variable {C} {post post' : (String → Option V) → Scoped V → Prop}
  {r : Run Failure (String → Option V) Routine.Expr V} {r' : Run Fault (Scoped V) Script.Expr V}

theorem Beside.after {seen : List (Routine.Expr × V)} {seen' : List (Script.Expr × V)}
    (alike : SeenAlike C seen seen') (beside : Beside (Alike C post) r r') :
    Beside (Alike C post) (r.after seen) (r'.after seen') :=
  beside.map fun _ _ ⟨same, seen, holds⟩ => ⟨same, rel_append alike seen, holds⟩

theorem Beside.andThen {next : (String → Option V) → Run Failure (String → Option V) Routine.Expr V}
    {next' : Scoped V → Run Fault (Scoped V) Script.Expr V} (beside : Beside (Alike C post) r r')
    (goes : ∀ σ env, post σ env → Beside (Alike C post') (next σ) (next' env)) :
    Beside (Alike C post') (r.andThen next) (r'.andThen next') := by
  rcases beside with ⟨failure, rfl, supported⟩ | ⟨⟨ending, σ, _⟩, ⟨_, env, _⟩, rfl, rfl, same, seen, holds⟩
  · exact .inl ⟨failure, rfl, supported⟩
  · cases same
    cases ending with
    | through => exact (goes σ env (holds rfl)).after seen
    | returned value => exact .ok ⟨rfl, seen, nofun⟩

theorem Beside.evaluate {e : Routine.Expr} {e' : Script.Expr} {value : Except Failure V}
    {value' : Except Fault V} {next : V → Run Failure (String → Option V) Routine.Expr V}
    {next' : V → Run Fault (Scoped V) Script.Expr V} (counterpart : C e e')
    (valued : Beside Eq value value') (goes : ∀ v, Beside (Alike C post) (next v) (next' v)) :
    Beside (Alike C post) (Run.evaluate e value next) (Run.evaluate e' value' next') := by
  refine valued.bind ?_
  rintro v _ rfl
  exact (goes v).after (.cons ⟨counterpart, rfl⟩ .nil)

theorem Beside.stop {σ : String → Option V} {env : Scoped V} (holds : post σ env) :
    Beside (Alike C post) (Run.stop .through σ) (Run.stop .through env) :=
  .ok ⟨rfl, .nil, fun _ => holds⟩

theorem Beside.returned {σ : String → Option V} {env : Scoped V} (value : Option V) :
    Beside (Alike C post) (Run.stop (.returned value) σ) (Run.stop (.returned value) env) :=
  .ok ⟨rfl, .nil, nofun⟩

end

/-! ## Stores and scopes -/

/-- Whether the names in scope track a store with the given local names, where some names
are bound. -/
structure Tracks (own b : List String) (σ : String → Option V) (env : Scoped V) : Prop where
  holds : ∀ x v, σ x = some v → env x = some (some v)
  bound : ∀ x ∈ b, ∃ v, env x = some (some v)
  outside : ∀ x, x ∉ own → env x = none

section

variable {M : Meaning V} {own b : List String} {σ : String → Option V} {env : Scoped V}

theorem Tracks.mono {b' : List String} (tracks : Tracks own b σ env) (sub : b' ⊆ b) :
    Tracks own b' σ env :=
  ⟨tracks.holds, fun x member => tracks.bound x (sub member), tracks.outside⟩

/-- Both stores may be updated. -/
theorem Tracks.assign {x : String} (tracks : Tracks own b σ env) (member : x ∈ own) (v : V) :
    Tracks own (x :: b) (Function.update σ x (some v)) (Function.update env x (some (some v))) := by
  refine ⟨fun y w is => ?_, fun y met => ?_, fun y other => ?_⟩
  · by_cases same : y = x
    · subst same
      simpa using is
    · rw [Function.update_of_ne same] at is ⊢
      exact tracks.holds y w is
  · by_cases same : y = x
    · exact ⟨v, by simp [same]⟩
    · rw [Function.update_of_ne same]
      exact tracks.bound y ((mem_cons.mp met).resolve_left same)
  · have same : y ≠ x := fun same => other (same ▸ member)
    rw [Function.update_of_ne same]
    exact tracks.outside y other

/-- A name has the same value in both stores, or is unassigned in the routine. -/
theorem Tracks.read (tracks : Tracks own b σ env) (x : String) :
    Beside Eq (lookup M own σ x) (read M env x) := by
  unfold lookup Execution.read
  split
  · cases is : σ x with
    | none => exact .inl ⟨_, rfl, nofun⟩
    | some v =>
      rw [tracks.holds x v is]
      exact .ok rfl
  · next other =>
      rw [tracks.outside x other]
      cases M.outer x with
      | none => exact .inl ⟨_, rfl, nofun⟩
      | some v => exact .ok rfl

theorem Tracks.run (tracks : Tracks own b σ env) (inquiry : Inquiry V) :
    Beside Eq (inquiry.run (lookup M own σ)) (inquiry.run (Execution.read M env)) := by
  induction inquiry with
  | answer v => exact .ok rfl
  | ask x next ih =>
    refine (tracks.read x).bind ?_
    rintro v _ rfl
    exact ih v

theorem write_eq {x : String} {v : V} (is : env x = some (some v)) (w : V) :
    write env x w = .stop .through (Function.update env x (some (some w))) := by
  rw [write, is]

end

/-! ## Statements -/

/-- An assignment evaluates its value and updates the store. -/
theorem exec_assignment {M : Meaning V} {own : List String} {s : Routine.Stmt} {x : String}
    {value : Routine.Expr} (is : s.assignment? = some (x, some value)) (σ : String → Option V) :
    exec M own s σ = .evaluate value ((M.routine value).run (lookup M own σ)) fun v =>
      .stop .through (Function.update σ x (some v)) := by
  unfold Routine.Stmt.assignment? at is
  split at is <;> cases is <;> rw [exec]

theorem routineExprs_assignment {s : Routine.Stmt} {x : String} {value : Option Routine.Expr}
    (is : s.assignment? = some (x, value)) :
    routineExprs s = value.toList ∧ valued s = value.isSome := by
  unfold Routine.Stmt.assignment? at is
  split at is
  · cases is
    exact ⟨rfl, rfl⟩
  · cases is
    cases value <;> exact ⟨rfl, rfl⟩
  · cases is

/-- Whether an expression is turned into another one, where some names are bound. -/
def Lowered (e : Routine.Expr) (e' : Script.Expr) : Prop := ∃ bound, e.lower bound = .ok e'

section

variable {b b' : List String} {ss : List Routine.Stmt} {ts : List Script.Stmt}

/-- The expressions of a body are lowered one by one. -/
theorem exprs_lowered (lowers : Lowers b ss ts b') (values : valuedAll ss = true) :
    List.Forall₂ Lowered (routineExprsAll ss) (scriptExprsAll ts) := by
  induction lowers with
  | nil => exact .nil
  | retNothing _ ih | pass _ ih => exact ih values
  | ret lowered _ ih | expr lowered _ ih | augment _ lowered _ ih =>
    exact .cons ⟨_, lowered⟩ (ih values)
  | @assign _ _ _ _ value _ _ _ is lowered _ _ ih
  | @declare _ _ _ _ value _ _ _ is lowered _ _ ih =>
    obtain ⟨exprs, isValued⟩ := routineExprs_assignment is
    rw [valuedAll, isValued, Bool.and_eq_true] at values
    obtain ⟨v, rfl⟩ := Option.isSome_iff_exists.mp values.1
    rw [routineExprsAll, exprs]
    exact .cons ⟨_, lowered⟩ (ih values.2)
  | cond lowered _ _ _ ihYes ihNo ih =>
    simp only [valuedAll, valued, Bool.and_eq_true] at values
    exact .cons ⟨_, lowered⟩
      (rel_append (rel_append (ihYes values.1.1) (ihNo values.1.2)) (ih values.2))

/-- What is asked of statements and their scripts, with a correspondence of expressions. -/
structure Suits (own : List String) (ss : List Routine.Stmt) (ts : List Script.Stmt) : Prop where
  values : valuedAll ss = true
  assigns : assignedAll ss ⊆ own
  augments : augmentedAll ss ⊆ own
  pairs : ∀ p ∈ (routineExprsAll ss).zip (scriptExprsAll ts), C p.1 p.2

variable {C} {M : Meaning V} {own : List String}

/-- Of a simple statement there is one pair of counterparts. -/
theorem Suits.simple {s : Routine.Stmt} {t : Script.Stmt} {e : Routine.Expr} {e' : Script.Expr}
    (suits : Suits C own (s :: ss) (t :: ts)) (exprs : routineExprs s = [e])
    (exprs' : scriptExprs t = [e']) : C e e' ∧ Suits C own ss ts := by
  obtain ⟨values, assigns, augments, pairs⟩ := suits
  rw [routineExprsAll, scriptExprsAll, exprs, exprs'] at pairs
  obtain ⟨counterpart, pairs⟩ := forall_mem_cons.mp pairs
  exact ⟨counterpart, (Bool.and_eq_true _ _ ▸ values).2, (append_subset.mp assigns).2,
    (append_subset.mp augments).2, pairs⟩

/-- Of an assignment with a value there is one, and its name is local. -/
theorem Suits.assignment {s : Routine.Stmt} {t : Script.Target} {x : String}
    {value : Option Routine.Expr} {e' : Script.Expr}
    (suits : Suits C own (s :: ss) (.assign t e' :: ts)) (is : s.assignment? = some (x, value)) :
    x ∈ own ∧ ∃ e, value = some e ∧ C e e' ∧ Suits C own ss ts := by
  obtain ⟨exprs, isValued⟩ := routineExprs_assignment is
  have values : valued s = true := (Bool.and_eq_true _ _ ▸ suits.values).1
  obtain ⟨e, rfl⟩ := Option.isSome_iff_exists.mp (isValued ▸ values)
  have member : x ∈ s.assigned :=
    Routine.Stmt.assigned_of_assignment? is ▸ mem_singleton_self x
  exact ⟨suits.assigns (mem_append_left _ member), e, rfl, suits.simple exprs rfl⟩

/-- The counterparts of a condition are those of its test and of its branches. -/
theorem Suits.cond {test : Routine.Expr} {c : Script.Expr} {yes no : List Routine.Stmt}
    {ys ns : List Script.Stmt} {b₁ b₂ : List String}
    (suits : Suits C own (.cond test yes no :: ss) (.cond c ys ns :: ts))
    (lowersYes : Lowers b yes ys b₁) (lowersNo : Lowers b no ns b₂) :
    C test c ∧ Suits C own yes ys ∧ Suits C own no ns ∧ Suits C own ss ts := by
  obtain ⟨values, assigns, augments, pairs⟩ := suits
  simp only [valuedAll, valued, Bool.and_eq_true] at values
  obtain ⟨⟨valuesYes, valuesNo⟩, values⟩ := values
  obtain ⟨assigns, assigns'⟩ := append_subset.mp assigns
  obtain ⟨assignsYes, assignsNo⟩ := append_subset.mp assigns
  obtain ⟨augments, augments'⟩ := append_subset.mp augments
  obtain ⟨augmentsYes, augmentsNo⟩ := append_subset.mp augments
  have lengthYes := (exprs_lowered lowersYes valuesYes).length_eq
  have lengthNo := (exprs_lowered lowersNo valuesNo).length_eq
  -- the branches have equally many expressions, so that those after them correspond
  simp only [routineExprsAll, routineExprs, scriptExprsAll, scriptExprs, cons_append,
    append_assoc, zip_cons_cons, zip_append lengthYes, zip_append lengthNo,
    forall_mem_cons, forall_mem_append] at pairs
  obtain ⟨counterpart, pairsYes, pairsNo, pairs⟩ := pairs
  exact ⟨counterpart, ⟨valuesYes, assignsYes, augmentsYes, pairsYes⟩,
    ⟨valuesNo, assignsNo, augmentsNo, pairsNo⟩, ⟨values, assigns', augments', pairs⟩⟩

/-- Statements and those that they are lowered to run side by side. -/
theorem runScript_beside (agree : ∀ e e', C e e' → M.routine e = M.script e')
    (lowers : Lowers b ss ts b') (suits : Suits C own ss ts) {σ : String → Option V}
    {env : Scoped V} (tracks : Tracks own b σ env) :
    Beside (Alike C (Tracks own b')) (execAll M own ss σ) (runScript M ts env) := by
  have same {b : List String} {σ : String → Option V} {env : Scoped V} (tracks : Tracks own b σ env)
      {e : Routine.Expr} {e' : Script.Expr} (counterpart : C e e') :
      Beside Eq ((M.routine e).run (lookup M own σ)) ((M.script e').run (read M env)) :=
    agree e e' counterpart ▸ tracks.run (M.routine e)
  -- The induction is on the statements and what they are turned into; the stores stay alike along
  -- it.
  induction lowers generalizing σ env with
  | nil => exact .stop tracks
  | retNothing _ ih =>
    rw [execAll, runScript, exec, execScript]
    exact (Beside.returned none).andThen fun σ env (tracks : Tracks own _ σ env) =>
      ih ⟨suits.values, suits.assigns, suits.augments, suits.pairs⟩ tracks
  | ret _ _ ih =>
    obtain ⟨counterpart, suits⟩ := suits.simple rfl rfl
    rw [execAll, runScript, exec, execScript]
    exact (Beside.evaluate counterpart (same tracks counterpart) fun v => .returned _).andThen
      fun _ _ => ih suits
  | pass _ ih =>
    rw [execAll, exec, Run.stop_andThen]
    exact ih ⟨suits.values, suits.assigns, suits.augments, suits.pairs⟩ tracks
  | expr _ _ ih =>
    obtain ⟨counterpart, suits⟩ := suits.simple rfl rfl
    rw [execAll, runScript, exec, execScript]
    exact (Beside.evaluate counterpart (same tracks counterpart) fun v => .stop tracks).andThen
      fun _ _ => ih suits
  | @augment b _ x _ symbol _ _ _ _ known _ _ ih =>
    have member : x ∈ own := suits.augments mem_cons_self
    obtain ⟨counterpart, suits⟩ := suits.simple rfl rfl
    rw [execAll, runScript, exec, execScript, known]
    refine Beside.andThen ?_ fun _ _ => ih suits
    -- A name that is not assigned yet is a failure of the routine.
    cases is : σ x with
    | none => exact .inl ⟨.unassigned x, by simp [lookup, member, is, Except.bind], nofun⟩
    | some old =>
      have here := tracks.holds x old is
      have looked : lookup M own σ x = .ok old := by simp [lookup, member, is]
      have found : read M env x = .ok old := by simp [read, here]
      rw [looked, found]
      refine Beside.evaluate counterpart (same tracks counterpart) fun v => ?_
      rw [write_eq here]
      exact .stop ((tracks.assign member _).mono (subset_cons_self _ _))
  | assign is _ bound _ ih =>
    obtain ⟨member, e, rfl, counterpart, suits⟩ := suits.assignment is
    rw [execAll, runScript, exec_assignment is, execScript]
    refine (Beside.evaluate counterpart (same tracks counterpart) fun v => ?_).andThen
      fun _ _ => ih suits
    -- The name was declared before, so it may be assigned to.
    obtain ⟨old, is⟩ := tracks.bound _ bound
    rw [write_eq is]
    exact .stop ((tracks.assign member v).mono (subset_cons_self _ _))
  | declare is _ _ _ ih =>
    obtain ⟨member, e, rfl, counterpart, suits⟩ := suits.assignment is
    rw [execAll, runScript, exec_assignment is, execScript]
    exact (Beside.evaluate counterpart (same tracks counterpart) fun v =>
      .stop (tracks.assign member v)).andThen fun _ _ => ih suits
  | cond _ yes no _ ihYes ihNo ih =>
    obtain ⟨counterpart, suitsYes, suitsNo, suits⟩ := suits.cond yes no
    -- Branches declare nothing, so their blocks have the names of the outside.
    rw [execAll, runScript, exec, execScript, yes.declares_nothing, no.declares_nothing]
    refine (Beside.evaluate counterpart (same tracks counterpart) fun v => ?_).andThen
      fun _ _ => ih suits
    rw [inBlock_nil, inBlock_nil]
    split
    · exact ihYes suitsYes tracks
    · exact ihNo suitsNo tracks

end

/-! ## Functions -/

/-- Declaring names ahead makes them undefined. -/
theorem runScript_hoist (M : Meaning V) (names : List String) (ts : List Script.Stmt)
    (env : Scoped V) :
    runScript M (names.map (fun x => .bare ⟨x, some .let, none⟩) ++ ts) env =
      runScript M ts fun x => if x ∈ names then some (some M.undefined) else env x := by
  induction names generalizing env with
  | nil => simp
  | cons y names ih =>
    rw [map_cons, cons_append, runScript, execScript, Run.stop_andThen, ih]
    congr 1
    funext x
    by_cases same : x = y
    · simp [same]
    · simp [same]

theorem scriptExprsAll_hoist (names : List String) (ts : List Script.Stmt) :
    scriptExprsAll (names.map (fun x => .bare ⟨x, some .let, none⟩) ++ ts) = scriptExprsAll ts := by
  induction names with
  | nil => rfl
  | cons x names ih => exact ih

theorem counterparts_hoist (names : List String) (body : List Routine.Stmt)
    (ts : List Script.Stmt) :
    counterparts body (names.map (fun x => .bare ⟨x, some .let, none⟩) ++ ts) =
      counterparts body ts := by
  rw [counterparts, scriptExprsAll_hoist, counterparts]

theorem hoistedNames_assigned (params : List String) (body : List Routine.Stmt) :
    hoistedNames params body ⊆ assignedAll body := by
  intro x member
  have fresh := Routine.hoistedNames_fresh params body
  have noted := Routine.noteAll_noted body false (params, [])
  exact ((noted.names x).mp (fresh.met member)).resolve_left (fresh.apart x member)

/-- At the start both stores hold the parameters. -/
theorem tracks_start {names b : List String} {body : List Routine.Stmt} {stmts : List Script.Stmt}
    (lowers : Lowers (hoistedNames names body ++ names) body stmts b) (args : String → V) (u : V) :
    Tracks (localNames names body) (hoistedNames names body ++ names)
      (fun x => if x ∈ names then some (args x) else none)
      fun x => if x ∈ hoistedNames names body then some (some u)
        else if x ∈ hoistedNames names body ++ blockNames stmts then some none
        else if x ∈ names then some (some (args x)) else none := by
  obtain ⟨_, apart⟩ := lowers.names_fresh
  -- No parameter is declared in the block.
  have param {x : String} (member : x ∈ names) :
      x ∉ hoistedNames names body ∧ x ∉ hoistedNames names body ++ blockNames stmts :=
    ⟨fun hoisted => apart x (mem_append_left _ hoisted) member,
      fun declared => apart x declared member⟩
  refine ⟨fun x v is => ?_, fun x met => ?_, fun x other => ?_⟩
  · split at is
    · next member => simpa [param member, member] using is
    · cases is
  · by_cases hoisted : x ∈ hoistedNames names body
    · exact ⟨u, if_pos hoisted⟩
    · have member := (mem_append.mp met).resolve_left hoisted
      exact ⟨args x, by simp [param member, member]⟩
  · simp only [localNames, mem_append, not_or] at other
    obtain ⟨noParam, unassigned, _⟩ := other
    have unhoisted : x ∉ hoistedNames names body :=
      fun hoisted => unassigned (hoistedNames_assigned names body hoisted)
    have undeclared : x ∉ blockNames stmts :=
      fun declared => unassigned (lowers.declares_assigned declared)
    simp [noParam, unhoisted, undeclared]

/-- A function does what its routine does, if counterparts mean the same. -/
theorem callFunction_beside {C : Routine.Expr → Script.Expr → Prop} {M : Meaning V}
    {names b : List String} {body : List Routine.Stmt} {stmts : List Script.Stmt}
    (agree : ∀ e e', C e e' → M.routine e = M.script e')
    (lowers : Lowers (hoistedNames names (withoutDescription body) ++ names)
      (withoutDescription body) stmts b)
    (suits : Suits C (localNames names (withoutDescription body)) (withoutDescription body) stmts)
    (args : String → V) :
    Beside (fun d d' => d.1 = d'.1 ∧ SeenAlike C d.2 d'.2) (callRoutine M names body args)
      (callFunction M (names.map .name) ((hoistedNames names (withoutDescription body)).map
        (fun x => .bare ⟨x, some .let, none⟩) ++ stmts) args) := by
  obtain ⟨nodup, apart⟩ := lowers.names_fresh
  unfold callRoutine callFunction inBlock
  simp only [Routine.paramNames_map_name, Script.blockNames_hoist, runScript_hoist]
  rw [if_pos apart, if_pos nodup]
  have beside := runScript_beside agree lowers suits (tracks_start lowers args M.undefined)
  rcases beside with ⟨failure, failed, supported⟩ | ⟨d, d', ran, ran', alike⟩
  · rw [failed]
    exact .inl ⟨failure, rfl, supported⟩
  · rw [ran, ran']
    exact .ok ⟨alike.1, alike.2.1⟩

/-- A routine whose statements assign, augment, choose, evaluate and return, and the function
that it is turned into, do the same, if the routine is called with arguments where it reads
no name without a value: expressions with the same meaning are evaluated in the same order,
with the same values, each by what it is turned into, and both return the same or both do not. -/
theorem toProgram_runs_alike (M : Meaning V) {source name : String} {m : Routine.Module}
    {params : Routine.Params Routine.Expr} {types : List String} {body : List Routine.Stmt}
    {start : Nat} {decorators : List Routine.Expr} {rest : List Routine.Stmt}
    {ps : List Script.Param} {block : List Script.Stmt}
    (read : Routine.readSource source.toList = some m)
    (first : m.body = .function false name params types body start decorators :: rest)
    (accepted : Routine.toProgram source = .ok ⟨[.function name ps block]⟩)
    (values : valuedAll (withoutDescription body) = true)
    (shared : ∀ p ∈ counterparts body block, M.routine p.1 = M.script p.2) (args : String → V)
    (assigned : ∀ x, callRoutine M (paramNames ps) body args ≠ .error (.unassigned x))
    (known : ∀ x, callRoutine M (paramNames ps) body args ≠ .error (.unknown x)) :
    params.names? = .ok (paramNames ps) ∧ ∃ ending seen seen',
      callRoutine M (paramNames ps) body args = .ok (ending, seen) ∧
      callFunction M ps block args = .ok (ending, seen') ∧
      List.Forall₂ (fun p p' => ((p.1, p'.1) ∈ counterparts body block ∧ Lowered p.1 p'.1) ∧
        p.2 = p'.2) seen seen' := by
  obtain ⟨m', _, _, _, _, _, _, read', first', lowered⟩ := Routine.definition_of_toProgram accepted
  cases read.symm.trans read'
  cases first.symm.trans first'
  obtain ⟨names, stmts, b, params, same, lowers⟩ :=
    Routine.lowerDefinition_lowers name _ body _ lowered
  cases same
  -- The counterparts are those of the body, with the hoisted names aside.
  have suits : Suits (fun e e' => (e, e') ∈ counterparts body stmts ∧ Lowered e e')
      (localNames names (withoutDescription body)) (withoutDescription body) stmts := by
    refine ⟨values, ?_, ?_, fun p member => ⟨member, ?_⟩⟩
    · exact fun x hx => List.mem_append_right _ (List.mem_append_left _ hx)
    · exact fun x hx => List.mem_append_right _ (List.mem_append_right _ hx)
    · exact (List.forall₂_iff_zip.mp (exprs_lowered lowers values)).2 member
  rw [counterparts_hoist] at shared ⊢
  rw [Routine.paramNames_map_name] at assigned known ⊢
  refine ⟨params, ?_⟩
  -- The routine fails in no way that is left, so both calls return.
  rcases callFunction_beside (fun e e' is => shared (e, e') is.1) lowers suits args with
    ⟨failure, failed, supported⟩ | ⟨⟨ending, seen⟩, ⟨_, seen'⟩, ran, ran', same, alike⟩
  · cases failure with
    | unassigned x => exact absurd failed (assigned x)
    | unknown x => exact absurd failed (known x)
    | unsupported => exact absurd rfl supported
  · cases same
    exact ⟨ending, seen, seen', ran, ran', alike⟩

/-- The name that an expression of a script is. -/
def ident? : Script.Expr → Option String
  | .ident x => some x
  | _ => none

/-- Names have numbers for values and everything else is 0. -/
def naming : Meaning Nat where
  routine e := e.name?.elim (.answer 0) (.ask · .answer)
  script e := (ident? e).elim (.answer 0) (.ask · .answer)
  truthy := (· != 0)
  combine _ := (· + ·)
  undefined := 0
  outer _ := none

/-- A routine with branches and an augmented assignment. -/
def totalSource : String :=
  "def total(n):\n  if n:\n    t = n\n  else:\n    t = 0\n  t += n\n  return t"

/-- The value that a call returns. -/
def returned? {ε E : Type} (call : Except ε (Ending V × List (E × V))) : Option V :=
  match call with
  | .ok (.returned value, _) => value
  | _ => none

theorem returned?_eq_some {ε E : Type} {call : Except ε (Ending V × List (E × V))} {v : V}
    (is : returned? call = some v) : ∃ seen, call = .ok (.returned (some v), seen) := by
  unfold returned? at is
  split at is
  · cases is
    exact ⟨_, rfl⟩
  · cases is

/-- The sum that the branch starts is returned by both. -/
theorem toProgram_runs_alike_total : ∃ body ps block seen seen',
    Routine.toProgram totalSource = .ok ⟨[.function "total" ps block]⟩ ∧
      callRoutine naming (paramNames ps) body (fun _ => 3) = .ok (.returned (some 6), seen) ∧
      callFunction naming ps block (fun _ => 3) = .ok (.returned (some 6), seen') := by
  have evaluated : (Routine.turned? totalSource).any (fun t =>
      t.name == "total" && valuedAll (withoutDescription t.body) &&
        (counterparts t.body t.block).all (fun p => p.1.name? == ident? p.2) &&
        returned? (callRoutine naming (paramNames t.params) t.body fun _ => 3) == some 6) = true := by
    unfold Routine.turned?
    rw [toProgram_eq]
    decide +kernel
  obtain ⟨⟨name, body, ps, block⟩, turned, holds⟩ := (Option.any_eq_true _ _).mp evaluated
  obtain ⟨_, _, _, _, _, _, read, first, accepted⟩ := Routine.turned?_eq_some turned
  simp only [Bool.and_eq_true, beq_iff_eq, List.all_eq_true] at holds
  obtain ⟨⟨⟨rfl, values⟩, alike⟩, result⟩ := holds
  obtain ⟨seen, ran⟩ := returned?_eq_some result
  obtain ⟨_, ending, seen, seen', ran', same, _⟩ := toProgram_runs_alike naming read first accepted
    values (fun p member => by simp [naming, alike p member]) (fun _ => 3)
    (by simp [ran]) (by simp [ran])
  cases ran.symm.trans ran'
  exact ⟨body, ps, block, _, _, accepted, ran, same⟩

end JexlScript.Execution
