import JexlScript.Proofs.Scoping.Bodies

/-!
# Names of builtins and modules in scripts

The names of builtins and modules mean something in a routine only. In a program a
reference to such a name is always bound: by a parameter of the function or of an arrow
around it, or by a declaration of the function's block ahead of it. A routine may take such
a name for its own, and what it is bound to is known in the script from where it is bound in
the routine.
-/

namespace JexlScript.Routine

open List

open Script (Reference blockReferences branchReferences)

/-! ## Globals -/

/-- All globals that scripts get from the tables. -/
def globalNames : List String :=
  ["console", "Math", "Number", "String", "parseInt", "parseFloat", "Boolean", "Array", "JSON",
    "Infinity"] ++ constructors

theorem Builtin.global?_mem {f : Builtin} {digits : Bool} {g : String}
    (is : f.global? digits = some g) : g ∈ globalNames := by
  cases f with
  | round => cases digits <;> cases is <;> decide
  | len | pow | any | all | sum => cases is
  | _ =>
    cases is
    decide

theorem moduleConstant?_root_mem {module name g : String}
    (is : (moduleConstant? module name).bind root? = some g) : g ∈ globalNames := by
  obtain ⟨e, found, is⟩ := Option.bind_eq_some_iff.mp is
  exact Table.get?_bind_forall (P := fun e => ∀ g ∈ root? e, g ∈ globalNames) (by decide) found g is

/-- The tables bring in no other globals. -/
theorem Site.rendering_mem_globalNames {site : Site} {manner : Script.Manner} {g : String}
    (is : site.rendering = .global manner g) : g ∈ globalNames := by
  have ofGlobal? {global : Option String} (is : Rendering.ofGlobal? global = .global manner g) :
      global = some g := by
    cases global <;> cases is
    rfl
  cases site with
  | value _ | mapIndex _ => cases is
  | callee f digits =>
    simp only [Site.rendering] at is
    split at is
    · exact Builtin.global?_mem (ofGlobal? is)
    · split at is
      · next constructs =>
          cases is
          exact mem_append_right _ (contains_iff_mem.mp constructs)
      · cases is
  | field owner attr =>
    simp only [Site.rendering] at is
    split at is
    · exact moduleConstant?_root_mem (ofGlobal? is)
    · cases is
  | method owner attr =>
    simp only [Site.rendering] at is
    split at is
    · obtain ⟨f, _, known⟩ := Option.bind_eq_some_iff.mp (ofGlobal? is)
      exact Builtin.global?_mem known
    · cases is
  | floorDivision | setDisplay =>
    cases is
    decide

theorem Mention.rendering_eq_global {b : List String} {m : Mention} {manner : Script.Manner}
    {g : String} (is : m.rendering b = .global manner g) : m.site.rendering = .global manner g := by
  unfold Mention.rendering at is
  split at is
  · cases is
  · exact is

/-- No global has the name of a builtin or of a module. -/
theorem isReserved_of_mem_globalNames : ∀ {g : String}, g ∈ globalNames → isReserved g = false := by
  decide

/-! ## References to names of builtins and modules -/

section

variable {b b' : List String} {ss : List Stmt} {ts : List Script.Stmt}

/-- All references to reserved names are bound. -/
def ReservedBound (b : List String) (rs : List Reference) : Prop :=
  ∀ r ∈ rs, isReserved r.name = true → r.name ∈ r.scope ++ b

/-- What accounts for mentions refers to a reserved name only where it is bound. -/
theorem Accounts.reservedBound {ms : List Mention} {rs : List Reference}
    (accounts : Accounts b ms rs) : ReservedBound b rs := by
  intro r member reserved
  rcases accounts.sound r member with bound | ⟨m, mentioned, turned⟩
  · exact mem_append_left _ bound
  · unfold Mention.reference? at turned
    split at turned
    · next itself =>
        -- the name itself is admitted only where it is bound
        obtain ⟨x, named, rfl⟩ := Option.map_eq_some_iff.mp turned
        rcases accounts.admitted m mentioned itself x named with bound | free
        · exact (Mention.isBound_iff named).mp bound
        · rw [reserved] at free
          cases free
    · cases turned
    · next manner g is =>
        cases turned
        have global := Site.rendering_mem_globalNames (Mention.rendering_eq_global is)
        rw [isReserved_of_mem_globalNames global] at reserved
        cases reserved

theorem ReservedBound.append {rs rs' : List Reference} (left : ReservedBound b rs)
    (right : ReservedBound b rs') : ReservedBound b (rs ++ rs') :=
  forall_mem_append.mpr ⟨left, right⟩

theorem ReservedBound.within {rs : List Reference} (names : List String)
    (bound : ReservedBound (names ++ b) rs) :
    ReservedBound b (rs.map (Reference.within names)) := by
  intro r member reserved
  obtain ⟨r, inside, rfl⟩ := mem_map.mp member
  simpa using bound r inside reserved

/-- So does the block that a body is turned into. -/
theorem Lowers.reservedBound (lowers : Lowers b ss ts b') : ReservedBound b (blockReferences ts) := by
  have value {b : List String} {e : Expr} {e' : Script.Expr} (lowered : e.lower b = .ok e') :=
    Accounts.reservedBound (Expr.lower_accounts b .plain e e' lowered)
  induction lowers with
  | nil => nofun
  | pass _ ih => exact ih
  | retNothing _ ih => simpa [blockReferences, Script.Stmt.references, Script.Stmt.bound] using ih
  | ret lowered _ ih | expr lowered _ ih | augment _ lowered _ ih =>
    simpa [blockReferences, Script.Stmt.references, Script.Stmt.bound, Script.Target.declared] using
      (value lowered).append ih
  | assign _ lowered _ _ ih =>
    have first := (valueOutcome_accounts _ _ _ lowered).reservedBound
    simpa [blockReferences, Script.Stmt.references, Script.Stmt.bound, Script.Target.declared] using
      first.append ih
  | declare _ lowered _ _ ih =>
    exact (valueOutcome_accounts _ _ _ lowered).reservedBound.append (ih.within [_])
  | cond lowered yes no _ ihYes ihNo ih =>
    rw [Script.blockReferences_of_nothing yes.declares_nothing] at ihYes
    rw [Script.blockReferences_of_nothing no.declares_nothing] at ihNo
    have branches := ((value lowered).append ihYes).append ihNo
    simpa [blockReferences, Script.Stmt.references, Script.Stmt.bound] using branches.append ih

end

/-- In a program each reference to the name of a builtin or a module is in the scope of a
parameter of its function, of a parameter of an arrow or of a declaration of the function's
block ahead of it. -/
theorem toProgram_reserved_bound {source : String} {p : Script.Program}
    (accepted : toProgram source = .ok p) :
    ∀ r ∈ p.references, (builtins.get? r.name).isSome = true ∨ isModule r.name = true →
      r.name ∈ r.scope := by
  obtain ⟨_, _, body, names, ts, t, _, _, _, converts⟩ := toProgram_converts accepted
  obtain ⟨b, lowers⟩ := converts.lowers
  have inner : ReservedBound names ((blockReferences ts).map
      (Reference.within (hoistedNames names body).reverse)) := by
    refine ReservedBound.within _ fun r member reserved => ?_
    have bound := lowers.reservedBound r member reserved
    simpa only [List.mem_append, List.mem_reverse] using bound
  have whole : ReservedBound [] p.references := by
    rw [converts.references, converts.stmts, Script.blockReferences_hoist]
    exact ReservedBound.within names (by rwa [List.append_nil])
  intro r member reserved
  simpa using whole r member (by simpa [isReserved] using reserved)

/-- A routine that takes four names of builtins for its own. -/
def shadowingSource : String :=
  "def f(len, xs):\n  if xs:\n    abs = len(xs)\n  else:\n    abs = [min for min in xs]\n" ++
    "  return lambda sum: sum(abs)"

/-- The names of builtins that a routine binds are references in its program. -/
theorem toProgram_reserved_bound_shadowing : ∃ p, toProgram shadowingSource = .ok p ∧
    (p.references.filter (isReserved ·.name)).map (·.name) = ["len", "min", "sum", "abs"] ∧
    ∀ r ∈ p.references, (builtins.get? r.name).isSome = true ∨ isModule r.name = true →
      r.name ∈ r.scope := by
  have evaluated : (converted? shadowingSource).any (fun c =>
      (c.program.references.filter (isReserved ·.name)).map (·.name) ==
        ["len", "min", "sum", "abs"]) = true := by
    unfold converted?
    rw [toProgram_eq]
    decide +kernel
  obtain ⟨c, is, names⟩ := (Option.any_eq_true _ _).mp evaluated
  obtain ⟨accepted, _⟩ := converted?_eq_some is
  exact ⟨c.program, accepted, by simpa using names, toProgram_reserved_bound accepted⟩

end JexlScript.Routine
