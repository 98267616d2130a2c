import JexlScript.Proofs.Statements.Agreement

/-!
# Annotations without a value

In a routine `x: mark` leaves `x` as it is. In its script it is turned into an assignment of
`null`, as `x = None` is. So a function runs as the routine does that assigns `None` there,
and it ends as the routine itself does where every such annotation that is executed meets a
name without a value, or one that holds `None` already; `annotated_parameter_lost` is a
routine where a parameter is annotated.
-/

namespace JexlScript.Routine

open List

mutual

/-- Gives each annotation without a value the value `None`. -/
def Stmt.nulled : Stmt → Stmt
  | .annAssign (.name x) _ none => .assign [.name x] (.const .none)
  | .cond test yes no => .cond test (nulledAll yes) (nulledAll no)
  | s => s

def nulledAll : List Stmt → List Stmt
  | [] => []
  | s :: ss => s.nulled :: nulledAll ss

end

theorem withoutDescription_nulledAll (body : List Stmt) :
    withoutDescription (nulledAll body) = nulledAll (withoutDescription body) := by
  cases body with
  | nil => rfl
  | cons s rest =>
    cases s with
    | expr e =>
      cases e with
      | const c => cases c <;> rfl
      | _ => rfl
    | annAssign target mark value =>
      cases target <;> cases value <;> rfl
    | _ => rfl

theorem Stmt.nulled_of_assignment? {s : Stmt} {x : String} {e : Expr}
    (is : s.assignment? = some (x, some e)) : s.nulled = s := by
  unfold Stmt.assignment? at is
  split at is <;> cases is <;> rfl

theorem Stmt.eq_annAssign {s : Stmt} {x : String} (is : s.assignment? = some (x, none)) :
    ∃ mark, s = .annAssign (.name x) mark none := by
  unfold Stmt.assignment? at is
  split at is <;> cases is
  exact ⟨_, rfl⟩

/-- It assigns the same name, and its value is lowered alike. -/
theorem Stmt.nulled_assignment? {s : Stmt} {x : String} {value : Option Expr}
    (is : s.assignment? = some (x, value)) :
    ∃ e, s.nulled.assignment? = some (x, some e) ∧
      ∀ b, valueOutcome b (some e) = valueOutcome b value := by
  cases value with
  | some e =>
    rw [Stmt.nulled_of_assignment? is]
    exact ⟨e, is, fun _ => rfl⟩
  | none =>
    obtain ⟨mark, rfl⟩ := Stmt.eq_annAssign is
    refine ⟨.const .none, rfl, fun b => ?_⟩
    show (Expr.const .none).lower b = .ok (.lit .null)
    rw [Expr.lower]
    rfl

section

variable {b b' : List String} {ss : List Stmt} {ts : List Script.Stmt}

/-- So the script is the same. -/
theorem Lowers.nulled (lowers : Lowers b ss ts b') : Lowers b (nulledAll ss) ts b' := by
  induction lowers with
  | nil => exact .nil
  | retNothing _ ih => exact .retNothing ih
  | ret lowered _ ih => exact .ret lowered ih
  | pass _ ih => exact .pass ih
  | expr lowered _ ih => exact .expr lowered ih
  | augment known lowered _ ih => exact .augment known lowered ih
  | assign is lowered bound _ ih =>
    obtain ⟨e, is', same⟩ := Stmt.nulled_assignment? is
    exact .assign is' ((same _).trans lowered) bound ih
  | declare is lowered fresh _ ih =>
    obtain ⟨e, is', same⟩ := Stmt.nulled_assignment? is
    exact .declare is' ((same _).trans lowered) fresh ih
  | cond lowered _ _ _ ihYes ihNo ih => exact .cond lowered ihYes ihNo ih

theorem Lowers.valued_nulled (lowers : Lowers b ss ts b') :
    Execution.valuedAll (nulledAll ss) = true := by
  induction lowers with
  | nil => rfl
  | retNothing _ ih | ret _ _ ih | pass _ ih | expr _ _ ih | augment _ _ _ ih => exact ih
  | assign is _ _ _ ih | declare is _ _ _ ih =>
    obtain ⟨e, is', _⟩ := Stmt.nulled_assignment? is
    rw [nulledAll, Execution.valuedAll, (Execution.routineExprs_assignment is').2, ih]
    rfl
  | cond _ _ _ _ ihYes ihNo ih =>
    rw [nulledAll, Stmt.nulled, Execution.valuedAll, Execution.valued, ihYes, ihNo, ih]
    rfl

end

/-! ## Names of nulled statements -/

/-- Whether statements assign and augment the same names, and declare the same names ahead. -/
structure SameNames (ss ss' : List Stmt) : Prop where
  notes : ∀ nested seen, noteAll nested seen ss' = noteAll nested seen ss
  assigns : assignedAll ss' = assignedAll ss
  augments : Execution.augmentedAll ss' = Execution.augmentedAll ss

namespace SameNames

variable {ss ss' : List Stmt}

theorem cons (s : Stmt) (same : SameNames ss ss') : SameNames (s :: ss) (s :: ss') where
  notes nested seen := by rw [noteAll, noteAll, same.notes]
  assigns := by rw [assignedAll, assignedAll, same.assigns]
  augments := by rw [Execution.augmentedAll, Execution.augmentedAll, same.augments]

theorem annotation (x : String) (mark value : Expr) (same : SameNames ss ss') :
    SameNames (.annAssign (.name x) mark none :: ss) (.assign [.name x] value :: ss') where
  notes nested seen := by rw [noteAll, noteAll, same.notes, Stmt.noteNames, Stmt.noteNames]
  assigns := by rw [assignedAll, assignedAll, same.assigns, Stmt.assigned, Stmt.assigned]
  augments := by
    rw [Execution.augmentedAll, Execution.augmentedAll, same.augments]
    rfl

theorem cond (test : Expr) {yes yes' no no' : List Stmt} (sameYes : SameNames yes yes')
    (sameNo : SameNames no no') (same : SameNames ss ss') :
    SameNames (.cond test yes no :: ss) (.cond test yes' no' :: ss') where
  notes nested seen := by
    rw [noteAll, noteAll, same.notes, Stmt.noteNames, Stmt.noteNames, sameYes.notes, sameNo.notes]
  assigns := by
    rw [assignedAll, assignedAll, same.assigns, Stmt.assigned, Stmt.assigned, sameYes.assigns,
      sameNo.assigns]
  augments := by
    rw [Execution.augmentedAll, Execution.augmentedAll, same.augments, Execution.augmented,
      Execution.augmented, sameYes.augments, sameNo.augments]

end SameNames

/-- And the same names are noted in a body. -/
theorem Lowers.sameNames {b b' : List String} {ss : List Stmt} {ts : List Script.Stmt}
    (lowers : Lowers b ss ts b') : SameNames ss (nulledAll ss) := by
  induction lowers with
  | nil => exact ⟨fun _ _ => rfl, rfl, rfl⟩
  | retNothing _ ih | ret _ _ ih | pass _ ih | expr _ _ ih | augment _ _ _ ih => exact ih.cons _
  | @assign _ _ _ _ value _ _ _ is _ _ _ ih | @declare _ _ _ _ value _ _ _ is _ _ _ ih =>
    cases value with
    | some e =>
      rw [nulledAll, Stmt.nulled_of_assignment? is]
      exact ih.cons _
    | none =>
      obtain ⟨mark, rfl⟩ := Stmt.eq_annAssign is
      exact ih.annotation _ _ _
  | cond _ _ _ _ ihYes ihNo ih => exact .cond _ ihYes ihNo ih

end JexlScript.Routine

namespace JexlScript.Execution

open List

open Script (paramNames)
open Routine (Lowers withoutDescription hoistedNames nulledAll)

variable {V : Type}

/-! ## Annotations that change nothing -/

/-- The store behind a run that was not ended by a return. -/
def Run.state? {ε S E : Type} : Run ε S E V → Option S
  | .ok (.through, s, _) => some s
  | _ => none

section

variable [DecidableEq V] (M : Meaning V) (null : V) (own : List String)

mutual

/-- At each annotation that is met, its name is unassigned or null. -/
def idle : Routine.Stmt → (String → Option V) → Bool
  | .annAssign (.name x) _ none, σ => (σ x).all (· == null)
  | .cond test yes no, σ =>
    ((M.routine test).run (lookup M own σ)).toOption.all fun v =>
      if M.truthy v then idleAll yes σ else idleAll no σ
  | _, _ => true

/-- The same along the run of a body. -/
def idleAll : List Routine.Stmt → (String → Option V) → Bool
  | [], _ => true
  | s :: ss, σ => idle s σ && (exec M own s σ).state?.all (idleAll ss)

end

end

/-- Whether the annotations without a value that a call of a routine executes change nothing. -/
def idleCall [DecidableEq V] (M : Meaning V) (null : V) (names : List String)
    (body : List Routine.Stmt) (args : String → V) : Bool :=
  let body := withoutDescription body
  idleAll M null (localNames names body) body fun x => if x ∈ names then some (args x) else none

/-! ## Stores with more values -/

/-- A store has the values of another, and maybe more. -/
def Extends (σ τ : String → Option V) : Prop := ∀ x v, σ x = some v → τ x = some v

section

variable {M : Meaning V} {own : List String} {σ τ : String → Option V}

theorem Extends.update (ext : Extends σ τ) (x : String) (v : V) :
    Extends (Function.update σ x (some v)) (Function.update τ x (some v)) := by
  intro y w is
  by_cases same : y = x
  · subst same
    simpa using is
  · rw [Function.update_of_ne same] at is ⊢
    exact ext y w is

theorem Extends.fill (ext : Extends σ τ) {x : String} {null : V}
    (free : ∀ v, σ x = some v → v = null) : Extends σ (Function.update τ x (some null)) := by
  intro y w is
  by_cases same : y = x
  · subst same
    rw [Function.update_self, free w is]
  · rw [Function.update_of_ne same]
    exact ext y w is

theorem Extends.lookup (ext : Extends σ τ) {x : String} {v : V}
    (found : lookup M own σ x = .ok v) : Execution.lookup M own τ x = .ok v := by
  unfold Execution.lookup at found ⊢
  split
  · next isOwn =>
      rw [if_pos isOwn] at found
      cases is : σ x with
      | none =>
        rw [is] at found
        cases found
      | some w =>
        rw [is] at found
        rw [ext x w is]
        exact found
  · next other =>
      rw [if_neg other] at found
      exact found

/-- An evaluation that succeeds does so in larger stores. -/
theorem Extends.run (ext : Extends σ τ) (inquiry : Inquiry V) {v : V}
    (ran : inquiry.run (Execution.lookup M own σ) = .ok v) :
    inquiry.run (Execution.lookup M own τ) = .ok v := by
  induction inquiry with
  | answer w => exact ran
  | ask x next ih =>
    rw [Inquiry.run] at ran ⊢
    cases found : Execution.lookup M own σ x with
    | error failure =>
      rw [found] at ran
      cases ran
    | ok w =>
      rw [found] at ran
      rw [ext.lookup found]
      exact ih w ran

end

/-! ## Runs with more values -/

/-- If one run succeeds, the other ends likewise with a larger store. -/
def Follows (r r' : Run Failure (String → Option V) Routine.Expr V) : Prop :=
  ∀ ending σ seen, r = .ok (ending, σ, seen) →
    ∃ τ seen', r' = .ok (ending, τ, seen') ∧ Extends σ τ

namespace Follows

variable {r r' : Run Failure (String → Option V) Routine.Expr V} {σ τ : String → Option V}

theorem stop (ending : Ending V) (ext : Extends σ τ) :
    Follows (Run.stop ending σ) (Run.stop ending τ) := by
  rintro _ _ _ ⟨⟩
  exact ⟨τ, [], rfl, ext⟩

theorem after (follows : Follows r r') (seen seen' : List (Routine.Expr × V)) :
    Follows (r.after seen) (r'.after seen') := by
  intro ending σ all is
  cases r with
  | error failure => cases is
  | ok d =>
    obtain ⟨ending', σ', seen⟩ := d
    cases is
    obtain ⟨τ, seen', ran, ext⟩ := follows _ _ _ rfl
    rw [ran]
    exact ⟨τ, _, rfl, ext⟩

theorem bind {value value' : Except Failure V}
    {next next' : V → Run Failure (String → Option V) Routine.Expr V}
    (same : ∀ v, value = .ok v → value' = .ok v)
    (goes : ∀ v, value = .ok v → Follows (next v) (next' v)) :
    Follows (value.bind next) (value'.bind next') := by
  intro ending σ seen is
  cases known : value with
  | error failure =>
    rw [known] at is
    cases is
  | ok v =>
    rw [known] at is
    rw [same v known]
    exact goes v known ending σ seen is

theorem evaluate {e : Routine.Expr} {value value' : Except Failure V}
    {next next' : V → Run Failure (String → Option V) Routine.Expr V}
    (same : ∀ v, value = .ok v → value' = .ok v)
    (goes : ∀ v, value = .ok v → Follows (next v) (next' v)) :
    Follows (Run.evaluate e value next) (Run.evaluate e value' next') :=
  .bind same fun v known => (goes v known).after _ _

theorem andThen {next next' : (String → Option V) → Run Failure (String → Option V) Routine.Expr V}
    (follows : Follows r r')
    (goes : ∀ σ τ, r.state? = some σ → Extends σ τ → Follows (next σ) (next' τ)) :
    Follows (r.andThen next) (r'.andThen next') := by
  cases r with
  | error failure => nofun
  | ok d =>
    obtain ⟨ending, σ, seen⟩ := d
    obtain ⟨τ, seen', rfl, ext⟩ := follows _ _ _ rfl
    cases ending with
    | through => exact (goes σ τ rfl ext).after seen seen'
    | returned value =>
      rintro _ _ _ ⟨⟩
      exact ⟨τ, seen', rfl, ext⟩

end Follows

section

variable [DecidableEq V] {M : Meaning V} {null : V} {own : List String} {σ τ : String → Option V}

/-- Statements are followed one after the other. -/
theorem Follows.cons {s s' : Routine.Stmt} {ss ss' : List Routine.Stmt}
    (idles : idleAll M null own (s :: ss) σ = true)
    (first : idle M null own s σ = true → Follows (exec M own s σ) (exec M own s' τ))
    (rest : ∀ σ τ, Extends σ τ → idleAll M null own ss σ = true →
      Follows (execAll M own ss σ) (execAll M own ss' τ)) :
    Follows (execAll M own (s :: ss) σ) (execAll M own (s' :: ss') τ) := by
  rw [idleAll, Bool.and_eq_true, Option.all_eq_true] at idles
  rw [execAll, execAll]
  exact (first idles.1).andThen fun σ τ passed ext => rest σ τ ext (idles.2 σ passed)

theorem exec_follows_assignment (isNull : M.routine (.const .none) = .answer null)
    {s : Routine.Stmt} {x : String} {value : Option Routine.Expr}
    (is : s.assignment? = some (x, value)) (ext : Extends σ τ)
    (idles : idle M null own s σ = true) :
    Follows (exec M own s σ) (exec M own s.nulled τ) := by
  cases value with
  | some e =>
    rw [Routine.Stmt.nulled_of_assignment? is, exec_assignment is, exec_assignment is]
    exact .evaluate (fun v => ext.run _) fun v _ => .stop _ (ext.update x v)
  | none =>
    obtain ⟨mark, rfl⟩ := Routine.Stmt.eq_annAssign is
    have free : ∀ v, σ x = some v → v = null := by
      rw [idle, Option.all_eq_true] at idles
      exact fun v held => eq_of_beq (idles v held)
    rw [Routine.Stmt.nulled, exec, exec, isNull, ← Run.after_nil (Run.stop .through σ)]
    exact (Follows.stop .through (ext.fill free)).after _ _

/-- By induction over a body, assigning null at idle annotations keeps its run. -/
theorem execAll_follows (isNull : M.routine (.const .none) = .answer null) {b b' : List String}
    {ss : List Routine.Stmt} {ts : List Script.Stmt} (lowers : Lowers b ss ts b')
    (ext : Extends σ τ) (idles : idleAll M null own ss σ = true) :
    Follows (execAll M own ss σ) (execAll M own (nulledAll ss) τ) := by
  induction lowers generalizing σ τ with
  | nil => exact .stop .through ext
  | retNothing _ ih =>
    refine .cons idles (fun _ => ?_) fun _ _ => ih
    -- Nothing is put in but at annotations, so the statement is the same on both sides.
    show Follows (exec M own (.ret none) σ) (exec M own (.ret none) τ)
    rw [exec, exec]
    exact .stop _ ext
  | ret _ _ ih =>
    refine .cons idles (fun _ => ?_) fun _ _ => ih
    show Follows (exec M own (.ret (some _)) σ) (exec M own (.ret (some _)) τ)
    rw [exec, exec]
    exact .evaluate (fun v => ext.run _) fun v _ => .stop _ ext
  | pass _ ih =>
    refine .cons idles (fun _ => ?_) fun _ _ => ih
    show Follows (exec M own .pass σ) (exec M own .pass τ)
    rw [exec, exec]
    exact .stop _ ext
  | expr _ _ ih =>
    refine .cons idles (fun _ => ?_) fun _ _ => ih
    show Follows (exec M own (.expr _) σ) (exec M own (.expr _) τ)
    rw [exec, exec]
    exact .evaluate (fun v => ext.run _) fun v _ => .stop _ ext
  | augment known _ _ ih =>
    refine .cons idles (fun _ => ?_) fun _ _ => ih
    show Follows (exec M own (.augAssign (.name _) _ _) σ) (exec M own (.augAssign (.name _) _ _) τ)
    rw [exec, exec, known]
    exact .bind (fun v => ext.lookup) fun old _ =>
      .evaluate (fun v => ext.run _) fun v _ => .stop _ (ext.update _ _)
  -- An annotation assigns null to a name that has no other value.
  | assign is _ _ _ ih | declare is _ _ _ ih =>
    exact .cons idles (exec_follows_assignment isNull is ext) fun _ _ => ih
  | cond _ _ _ _ ihYes ihNo ih =>
    refine .cons idles (fun here => ?_) fun _ _ => ih
    rw [idle, Option.all_eq_true] at here
    rw [Routine.Stmt.nulled, exec, exec]
    refine .evaluate (fun v => ext.run _) fun v known => ?_
    -- Only the branch that is run has to be idle.
    have branch := here v (by rw [known]; rfl)
    split
    · next true' =>
        rw [if_pos true'] at branch
        exact ihYes ext branch
    · next false' =>
        rw [if_neg false'] at branch
        exact ihNo ext branch

end

/-! ## Functions -/

section

variable {M : Meaning V} {names b b' : List String} {body : List Routine.Stmt}
  {stmts : List Script.Stmt}

/-- A call does the same with null for its idle annotations. -/
theorem callRoutine_nulled [DecidableEq V] {null : V}
    (isNull : M.routine (.const .none) = .answer null)
    (lowers : Lowers b (withoutDescription body) stmts b') {args : String → V}
    (idles : idleCall M null names body args = true) {ending : Ending V}
    {seen : List (Routine.Expr × V)} (ran : callRoutine M names body args = .ok (ending, seen)) :
    ∃ seen', callRoutine M names (nulledAll body) args = .ok (ending, seen') := by
  have same := lowers.sameNames
  have own : localNames names (nulledAll (withoutDescription body)) =
      localNames names (withoutDescription body) := by
    rw [localNames, localNames, same.assigns, same.augments]
  have follows := execAll_follows isNull lowers (fun _ _ held => held) idles
  simp only [callRoutine, Routine.withoutDescription_nulledAll, own] at ran ⊢
  cases executed : execAll M (localNames names (withoutDescription body)) (withoutDescription body)
      fun x => if x ∈ names then some (args x) else none with
  | error failure =>
    rw [executed] at ran
    cases ran
  | ok d =>
    obtain ⟨ending', σ, seen'⟩ := d
    rw [executed] at ran
    cases ran
    obtain ⟨τ, seen'', executed', _⟩ := follows _ _ _ executed
    rw [executed']
    exact ⟨seen'', rfl⟩

/-- The function does what the routine with null for annotations does. -/
theorem callFunction_beside_nulled
    (lowers : Lowers (hoistedNames names (withoutDescription body) ++ names)
      (withoutDescription body) stmts b)
    (shared : ∀ p ∈ counterparts (nulledAll body) stmts, M.routine p.1 = M.script p.2)
    (args : String → V) :
    Beside (fun d d' => d.1 = d'.1 ∧ SeenAlike (fun e e' => M.routine e = M.script e') d.2 d'.2)
      (callRoutine M names (nulledAll body) args)
      (callFunction M (names.map .name) ((hoistedNames names (withoutDescription body)).map
        (fun x => .bare ⟨x, some .let, none⟩) ++ stmts) args) := by
  have hoisted : hoistedNames names (nulledAll (withoutDescription body)) =
      hoistedNames names (withoutDescription body) :=
    congrArg Prod.snd (lowers.sameNames.notes false (names, []))
  have values := lowers.valued_nulled
  have lowers := lowers.nulled
  rw [← hoisted] at lowers ⊢
  rw [← Routine.withoutDescription_nulledAll] at lowers values ⊢
  refine callFunction_beside (fun _ _ => id) lowers ⟨values, ?_, ?_, shared⟩ args
  · exact fun x hx => mem_append_right _ (mem_append_left _ hx)
  · exact fun x hx => mem_append_right _ (mem_append_right _ hx)

end

/-- A function ends as the routine does that assigns `None` at each annotation without a value. So it
ends as the routine itself does where each such annotation that is executed meets a name that
has no value yet or holds `None`. -/
theorem toProgram_annotations_null [DecidableEq V] (M : Meaning V) {null : V} {source name : String}
    {m : Routine.Module} {params : Routine.Params Routine.Expr}
    {types : List String} {body : List Routine.Stmt} {start : Nat}
    {decorators : List Routine.Expr} {rest : List Routine.Stmt} {ps : List Script.Param}
    {block : List Script.Stmt} (read : Routine.readSource source.toList = some m)
    (first : m.body = .function false name params types body start decorators :: rest)
    (accepted : Routine.toProgram source = .ok ⟨[.function name ps block]⟩)
    (isNull : M.routine (.const .none) = .answer null)
    (shared : ∀ p ∈ counterparts (nulledAll body) block, M.routine p.1 = M.script p.2)
    (args : String → V) :
    params.names? = .ok (paramNames ps) ∧
    (∀ ending seen, callRoutine M (paramNames ps) (nulledAll body) args = .ok (ending, seen) →
      ∃ seen', callFunction M ps block args = .ok (ending, seen')) ∧
    ∀ ending seen, callRoutine M (paramNames ps) body args = .ok (ending, seen) →
      idleCall M null (paramNames ps) body args = true →
      ∃ seen', callFunction M ps block args = .ok (ending, seen') := by
  obtain ⟨m', _, _, _, _, _, _, read', first', lowered⟩ := Routine.definition_of_toProgram accepted
  cases read.symm.trans read'
  cases first.symm.trans first'
  obtain ⟨names, stmts, b, known, same, lowers⟩ :=
    Routine.lowerDefinition_lowers name _ body _ lowered
  cases same
  rw [counterparts_hoist] at shared
  rw [Routine.paramNames_map_name]
  -- The function does what the routine does that assigns null.
  have function (ending : Ending V) (seen : List (Routine.Expr × V))
      (ran : callRoutine M names (nulledAll body) args = .ok (ending, seen)) :
      ∃ seen', callFunction M (names.map .name) ((hoistedNames names (withoutDescription body)).map
        (fun x => .bare ⟨x, some .let, none⟩) ++ stmts) args = .ok (ending, seen') := by
    rcases callFunction_beside_nulled lowers shared args with
      ⟨failure, failed, _⟩ | ⟨_, ⟨_, seen'⟩, ran', called, rfl, _⟩
    · rw [ran] at failed
      cases failed
    · cases ran.symm.trans ran'
      exact ⟨seen', called⟩
  refine ⟨known, function, fun ending seen ran idles => ?_⟩
  obtain ⟨seen', ran'⟩ := callRoutine_nulled isNull lowers idles ran
  exact function ending seen' ran'

/-- A routine with two annotations that change nothing. -/
def pickSource : String :=
  "def pick(n):\n  t: int\n  t = None\n  t: int\n  if n:\n    t = n\n  return t"

/-- Both return the parameter. -/
theorem toProgram_annotations_null_pick : ∃ t seen seen', Routine.turned? pickSource = some t ∧
    idleCall naming 0 (paramNames t.params) t.body (fun _ => 3) = true ∧
    callRoutine naming (paramNames t.params) t.body (fun _ => 3) =
      .ok (.returned (some 3), seen) ∧
    callFunction naming t.params t.block (fun _ => 3) = .ok (.returned (some 3), seen') := by
  have evaluated : (Routine.turned? pickSource).any (fun t =>
      (counterparts (nulledAll t.body) t.block).all (fun p => p.1.name? == ident? p.2) &&
        idleCall naming 0 (paramNames t.params) t.body (fun _ => 3) &&
        returned? (callRoutine naming (paramNames t.params) t.body fun _ => 3) == some 3) = true := by
    unfold Routine.turned?
    rw [toProgram_eq]
    decide +kernel
  obtain ⟨t, is, computed⟩ := (Option.any_eq_true _ _).mp evaluated
  simp only [Bool.and_eq_true, List.all_eq_true, beq_iff_eq] at computed
  obtain ⟨⟨alike, idles⟩, returned⟩ := computed
  obtain ⟨seen, ran⟩ := returned?_eq_some returned
  obtain ⟨m, params, types, start, decorators, rest, read, first, accepted⟩ :=
    Routine.turned?_eq_some is
  have shared : ∀ p ∈ counterparts (nulledAll t.body) t.block,
      naming.routine p.1 = naming.script p.2 := fun p member => by
    simp only [naming, alike p member]
  obtain ⟨seen', called⟩ :=
    (toProgram_annotations_null naming read first accepted rfl shared _).2.2 _ _ ran idles
  exact ⟨t, seen, seen', is, idles, ran, called⟩

/-- A routine with an annotation that changes its parameter in the script. -/
def annotatedSource : String := "def f(x):\n  x: int\n  return x"

/-- The routine returns its argument, and the function what `null` stands for. -/
theorem annotated_parameter_lost : ∃ t seen seen', Routine.turned? annotatedSource = some t ∧
    callRoutine naming (paramNames t.params) t.body (fun _ => 3) =
      .ok (.returned (some 3), seen) ∧
    callFunction naming t.params t.block (fun _ => 3) = .ok (.returned (some 0), seen') := by
  have evaluated : (Routine.turned? annotatedSource).any (fun t =>
      returned? (callRoutine naming (paramNames t.params) t.body fun _ => 3) == some 3 &&
        returned? (callFunction naming t.params t.block fun _ => 3) == some 0) = true := by
    unfold Routine.turned?
    rw [toProgram_eq]
    decide +kernel
  obtain ⟨t, is, computed⟩ := (Option.any_eq_true _ _).mp evaluated
  simp only [Bool.and_eq_true, beq_iff_eq] at computed
  obtain ⟨seen, ran⟩ := returned?_eq_some computed.1
  obtain ⟨seen', called⟩ := returned?_eq_some computed.2
  exact ⟨t, seen, seen', is, ran, called⟩

end JexlScript.Execution
