import JexlScript.Proofs.Scoping.ReservedNames

/-!
# Local names

A name is local to a routine if it is a parameter or assigned anywhere in the body. Where it
is in sight it hides what the tables of builtins, constructors and modules have for it: as a
parameter, behind a statement that assigns it, everywhere if a branch is the first to assign
it, and inside a lambda expression or a loop that binds it. A local name that the body assigns
for the first time at the same place or behind it, outside of branches, is not in sight yet,
and the tables are asked for it there, also in a lambda expression that is called later;
`late_len_translated` is a routine with such a name.
-/

namespace JexlScript.Routine

open List

open Script (Reference)
open Execution (scriptExprsAll localNames)

/-- A name is known at a mention. -/
def InSight (names : List String) (body : List Stmt) (place : Place) (m : Mention) (x : String) :
    Prop :=
  x ∈ m.scope ∨ x ∈ names ∨ x ∈ place.ahead ∨ firstInBranch x body = true

/-- The names in sight are those that the lowering takes for bound. -/
theorem inSight_iff {names : List String} {body : List Stmt} {place : Place} {m : Mention}
    {x : String} : InSight names body place m x ↔
      x ∈ m.scope ++ (place.ahead ++ (hoistedNames names body ++ names)) := by
  simp only [InSight, mem_append, mem_hoistedNames]
  tauto

/-- How the names at a place of a body are looked up in the expression that the place is turned
into. -/
structure LooksUp (names : List String) (body : List Stmt) (place : Place) (e : Script.Expr) :
    Prop where
  /-- A name that is in sight, or that the tables do not have, stays a reference to itself. The
  one that gets lost is `map` as the index in `f(items[map](g))`, where `f` is the `any` or `all`
  of the tables. -/
  plain : ∀ m ∈ place.mentions, ∀ x ∈ m.site.name?,
    InSight names body place m x ∨ m.site.rendering = .itself →
      (∀ f, m.site = .mapIndex f → InSight names body place m f) →
        ⟨.value, x, m.scope⟩ ∈ e.references
  /-- A global of the tables comes in only for a name that is not in sight. -/
  origin : ∀ r ∈ e.references, r.name ∈ r.scope ∨ ∃ m ∈ place.mentions,
    (m.site.name? = some r.name ∧ r = ⟨.value, r.name, m.scope⟩) ∨
    (m.site.rendering = .global r.manner r.name ∧ r.scope = m.scope ∧
      ∀ x ∈ m.site.name?, ¬ InSight names body place m x)
  /-- It comes in for each such name, and where it takes none. -/
  translated : ∀ m ∈ place.mentions, (∀ x ∈ m.site.name?, ¬ InSight names body place m x) →
    ∀ manner g, m.site.rendering = .global manner g → ⟨manner, g, m.scope⟩ ∈ e.references
  /-- The name of a builtin or a module itself is no reference where it is not in sight. -/
  replaced : ∀ m ∈ place.mentions, ∀ x ∈ m.site.name?, ¬ InSight names body place m x →
    isReserved x = true → ∀ r ∈ e.references, r.name = x → x ∈ r.scope

section

variable {names : List String} {body : List Stmt} {place : Place} {e : Script.Expr}

/-- A name in sight becomes a reference to itself. -/
theorem reference?_of_inSight {m : Mention} {x : String} (named : m.site.name? = some x)
    (seen : InSight names body place m x) :
    m.reference? (place.ahead ++ (hoistedNames names body ++ names)) =
      some ⟨.value, x, m.scope⟩ := by
  rw [Mention.reference?, Mention.rendering_of_mem named (inSight_iff.mp seen)]
  simp [named]

/-- For any other name the tables are asked. -/
theorem rendering_of_not_inSight {m : Mention}
    (unseen : ∀ x ∈ m.site.name?, ¬ InSight names body place m x) :
    m.rendering (place.ahead ++ (hoistedNames names body ++ names)) = m.site.rendering := by
  refine if_neg fun bound => ?_
  obtain ⟨x, named, inside⟩ := (Option.any_eq_true _ _).mp bound
  exact unseen x named (inSight_iff.mpr (contains_iff_mem.mp inside))

/-- What a place accounts for tells how its names are looked up. -/
theorem Accounts.looksUp
    (accounts : Accounts (place.ahead ++ (hoistedNames names body ++ names)) place.mentions
      e.references) : LooksUp names body place e where
  plain m mentioned x named known hidden := by
    refine accounts.complete m mentioned _ ?_ ?_
    swap
    -- What a quantifier leaves out is not in sight.
    · rintro ⟨f, index, free⟩
      exact free (inSight_iff.mp (hidden f index))
    by_cases seen : InSight names body place m x
    · exact reference?_of_inSight named seen
    · have unseen : ∀ y ∈ m.site.name?, ¬ InSight names body place m y := by
        intro y named'
        rwa [Option.mem_unique named' named]
      rw [Mention.reference?, rendering_of_not_inSight unseen, known.resolve_left seen]
      simp [Option.mem_def.mp named]
  origin r member := by
    refine (accounts.sound r member).imp_right ?_
    rintro ⟨m, mentioned, turned⟩
    refine ⟨m, mentioned, ?_⟩
    unfold Mention.reference? at turned
    split at turned
    · obtain ⟨x, named, rfl⟩ := Option.map_eq_some_iff.mp turned
      exact .inl ⟨named, rfl⟩
    · cases turned
    · next manner g is =>
        cases turned
        -- A mention with a global is of no name in sight, for that would have stayed what it is.
        refine .inr ⟨Mention.rendering_eq_global is, rfl, fun x named seen => ?_⟩
        rw [Mention.rendering_of_mem named (inSight_iff.mp seen)] at is
        cases is
  translated m mentioned unseen manner g is := by
    refine accounts.complete m mentioned _ ?_ ?_
    · rw [Mention.reference?, rendering_of_not_inSight unseen, is]
    · rintro ⟨f, index, _⟩
      rw [index] at is
      cases is
  replaced m mentioned x named unseen reserved r member same := by
    subst same
    have bound := accounts.reservedBound r member reserved
    refine (mem_append.mp bound).resolve_right fun outside => unseen (inSight_iff.mpr ?_)
    exact mem_append_right _ outside

end

/-- At every place of a function, what is in sight decides how names are looked up: local names
that are in sight are never replaced, and all others are where the tables have them. -/
theorem toProgram_looksUp {source : String} {p : Script.Program}
    (accepted : toProgram source = .ok p) :
    ∃ m params body names t, readSource source.toList = some m ∧
      function? m.body = some (params, body) ∧ params.names? = .ok names ∧
      Inline.Template.ofProgram? p = some t ∧ t.params = names.map .name ∧
      List.Forall₂ (LooksUp names body) (placesAll [] body) (scriptExprsAll t.body.stmts) := by
  obtain ⟨m, params, body, names, ts, t, read, first, known, converts⟩ := toProgram_converts accepted
  refine ⟨m, params, body, names, t, read, first, known, converts.template, converts.params, ?_⟩
  exact converts.accounts.imp fun _ _ accounts => accounts.looksUp

/-- A routine with a parameter `sum` and a name `max` that its branches assign. -/
def rescaleSource : String :=
  "def rescale(sum, xs):\n  if sum(xs):\n    max = sum(xs)\n  else:\n    max = 1\n" ++
    "  return [abs(x) / max for x in xs]"

/-- The parameter and the assigned name stay references, and `abs` is replaced. -/
theorem toProgram_looksUp_rescale : ∃ c, converted? rescaleSource = some c ∧
    List.Forall₂ (LooksUp ["sum", "xs"] c.body) (placesAll [] c.body)
      (scriptExprsAll c.template.body.stmts) ∧
    c.program.references.map (·.name) =
      ["sum", "xs", "sum", "xs", "xs", "Math", "x", "max"] := by
  have evaluated : (converted? rescaleSource).any (fun c => c.names == ["sum", "xs"] &&
      c.program.references.map (·.name) ==
        ["sum", "xs", "sum", "xs", "xs", "Math", "x", "max"]) = true := by
    unfold converted?
    rw [toProgram_eq]
    decide +kernel
  obtain ⟨c, is, computed⟩ := (Option.any_eq_true _ _).mp evaluated
  obtain ⟨names, references⟩ := Bool.and_eq_true_iff.mp computed
  obtain ⟨m, params, body, names', t, read, first, known, found, _, looksUp⟩ :=
    toProgram_looksUp (converted?_eq_some is).1
  obtain ⟨rfl, rfl, rfl⟩ := converted?_unique is read first known found
  rw [eq_of_beq names] at looksUp
  exact ⟨c, is, looksUp, eq_of_beq references⟩

/-- A routine that assigns `len` behind a lambda expression that calls it. -/
def lateSource : String := "def f(x):\n  g = lambda: len(x)\n  len = lambda y: 0\n  return g()"

/-- The call of a local name is replaced by the translation of a builtin function: nothing in the
program refers to the name. -/
theorem late_len_translated : ∃ c, converted? lateSource = some c ∧
    "len" ∈ localNames c.names c.body ∧
    ⟨.callee "len" false, []⟩ ∈ (placesAll [] c.body).flatMap Place.mentions ∧
    ∀ r ∈ c.program.references, r.name ≠ "len" := by
  have evaluated : (converted? lateSource).any (fun c =>
      (localNames c.names c.body).contains "len" &&
        ((placesAll [] c.body).flatMap Place.mentions).contains ⟨.callee "len" false, []⟩ &&
        c.program.references.all (·.name != "len")) = true := by
    unfold converted?
    rw [toProgram_eq]
    decide +kernel
  obtain ⟨c, is, computed⟩ := (Option.any_eq_true _ _).mp evaluated
  simp only [Bool.and_eq_true, List.contains_iff_mem, List.all_eq_true, bne_iff_ne] at computed
  exact ⟨c, is, computed.1.1, computed.1.2, computed.2⟩

end JexlScript.Routine
