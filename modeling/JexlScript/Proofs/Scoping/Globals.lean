import JexlScript.Proofs.Scoping.LocalNames

/-!
# Globals and the names of a routine

The tables of builtins and modules, `//` and sets bring globals such as `Math` into a script.
The names of the routine are not looked at for this, and they keep their spelling. So such a
global is what it is meant to be unless the routine takes the same name for a parameter, for
a name that it assigns anywhere in its body, or for what a lambda expression or a loop around
it binds. Where it is a parameter, inlining puts an argument in its place;
`parameter_replaces_math` is a lambda expression where it does.
-/

namespace JexlScript.Script

open List

open Execution (scriptExprs scriptExprsAll)

/-! ## Free names of statements -/

mutual

theorem Stmt.Plain.mem_free {g : String} : ∀ {s : Stmt}, s.Plain →
    (⟨.read, g⟩ ∈ s.free ↔ ∃ e ∈ scriptExprs s, RefersFree g e.references)
  | .ret a, h | .expr a, h | .assign _ a, h => by
    have value : a.Plain := h
    simp [Stmt.free, scriptExprs, value.mem_free]
  | .retNothing, _ | .bare _, _ => by simp [Stmt.free, scriptExprs]
  | .cond a ys ns, h => by
    obtain ⟨test, ⟨yes, nothing⟩, no, nothing'⟩ := h
    simp only [Stmt.free, scriptExprs, mem_append, mem_read_without,
      yes.blockNames_eq_nil nothing, no.blockNames_eq_nil nothing', test.mem_free,
      PlainStmts.mem_free yes, PlainStmts.mem_free no, not_mem_nil, not_false_eq_true,
      and_true, mem_cons, or_and_right, exists_or, exists_eq_left, or_assoc]

/-- A name is free in plain statements where an expression among them refers to it. -/
theorem PlainStmts.mem_free {g : String} : ∀ {ss : List Stmt}, PlainStmts ss →
    (⟨.read, g⟩ ∈ stmtsFree ss ↔ ∃ e ∈ scriptExprsAll ss, RefersFree g e.references)
  | [], _ => by simp [stmtsFree, scriptExprsAll]
  | s :: ss, h => by
    rw [stmtsFree, scriptExprsAll, mem_append, h.1.mem_free, PlainStmts.mem_free h.2]
    simp only [mem_append, or_and_right, exists_or]

end

end JexlScript.Script

namespace JexlScript.Inline

open List Script
open Execution (scriptExprsAll)

/-- In a body this is so unless the body declares the name. -/
theorem Body.Plain.mem_free {b : Body} (plain : b.Plain) {g : String} :
    ⟨.read, g⟩ ∈ b.free ↔
      (∃ e ∈ scriptExprsAll b.stmts, RefersFree g e.references) ∧ g ∉ blockNames b.stmts := by
  cases b with
  | expr e =>
    have value : e.Plain := plain
    have only : scriptExprsAll (Body.expr e).stmts = [e] := rfl
    have nothing : blockNames (Body.expr e).stmts = [] := rfl
    rw [Body.free, Body.toFunction, Expr.free, mem_read_without, value.mem_free, only, nothing]
    simp [paramNames]
  | block ss =>
    have stmts : PlainStmts ss := plain
    rw [Body.free, Body.toFunction, Expr.free, mem_read_without, mem_read_without, stmts.mem_free,
      Body.stmts]
    simp [paramNames]

/-- Only parameters are replaced. -/
theorem argument?_eq_none_iff {names : List String} {args : List Expr} {x : String} :
    argument? (names.map .name) args x = none ↔ x ∉ names := by
  constructor
  · intro kept
    rw [← Routine.paramNames_map_name names]
    exact not_mem_paramNames_of_argument?_eq_none (Routine.plainParams_names names) kept
  · intro other
    rw [argument?, Option.map_eq_none_iff, find?_eq_none]
    rintro ⟨p, i⟩ member named
    have inside : p ∈ names.map .name :=
      (mem_zipIdx (mem_reverse.mp member)).2.2 ▸ getElem_mem _
    obtain ⟨n, isName, rfl⟩ := mem_map.mp inside
    exact other (Param.name.inj (of_decide_eq_true named) ▸ isName)

end JexlScript.Inline

namespace JexlScript.Routine

open List

open Script (Reference)
open Execution (scriptExprsAll)

/-! ## Globals -/

/-- A mention that is no name in sight brings a global into the script. -/
def Introduces (names : List String) (body : List Stmt) (place : Place) (m : Mention)
    (manner : Script.Manner) (g : String) : Prop :=
  m.site.rendering = .global manner g ∧ ∀ x ∈ m.site.name?, ¬ InSight names body place m x

/-- The body declares the names that the routine assigns. -/
theorem Converts.mem_blockNames {names : List String} {body : List Stmt} {ts : List Script.Stmt}
    {p : Script.Program} {t : Inline.Template} (converts : Converts names body ts p t) {x : String} :
    x ∈ Script.blockNames t.body.stmts ↔ x ∈ assignedAll body ∧ x ∉ names := by
  obtain ⟨b, lowers⟩ := converts.lowers
  rw [converts.stmts, Script.blockNames_hoist]
  exact lowers.mem_declared

/-- A global in a body is free unless the routine takes its name. -/
theorem Converts.free_iff {names : List String} {body : List Stmt} {ts : List Script.Stmt}
    {p : Script.Program} {t : Inline.Template} (converts : Converts names body ts p t)
    (plain : t.body.Plain) {e : Script.Expr} (inside : e ∈ scriptExprsAll t.body.stmts) {g : String}
    (refers : Script.RefersFree g e.references) :
    ⟨.read, g⟩ ∈ t.free ↔ g ∉ names ∧ g ∉ assignedAll body := by
  rw [Inline.Template.free, Script.mem_read_without, plain.mem_free, converts.mem_blockNames,
    converts.params, paramNames_map_name]
  have referred : ∃ e ∈ scriptExprsAll t.body.stmts, Script.RefersFree g e.references :=
    ⟨e, inside, refers⟩
  constructor
  · rintro ⟨⟨_, undeclared⟩, noParam⟩
    exact ⟨noParam, fun assigned => undeclared ⟨assigned, noParam⟩⟩
  · rintro ⟨noParam, unassigned⟩
    exact ⟨⟨referred, fun declared => unassigned declared.1⟩, noParam⟩

/-- What holds of the globals that come in at a place: there is a reference to each. Unless a lambda
expression or a loop around it binds the name, it is free in the function if and only if the
routine has no parameter of that name and assigns to none. -/
def GlobalsAt (names : List String) (body : List Stmt) (t : Inline.Template) (place : Place)
    (e : Script.Expr) : Prop :=
  ∀ m ∈ place.mentions, ∀ manner g, Introduces names body place m manner g →
    ⟨manner, g, m.scope⟩ ∈ e.references ∧
    (g ∉ m.scope → (⟨.read, g⟩ ∈ t.free ↔ g ∉ names ∧ g ∉ assignedAll body))

/-- The globals of a program are free at every place where the routine leaves their names alone, and
nowhere else. When it is inlined, arguments take the place of the names of its parameters and of
no others. -/
theorem toProgram_globalsAt {source : String} {p : Script.Program}
    (accepted : toProgram source = .ok p) :
    ∃ m params body names t, readSource source.toList = some m ∧
      function? m.body = some (params, body) ∧ params.names? = .ok names ∧
      Inline.Template.ofProgram? p = some t ∧
      (∀ args g, Inline.argument? t.params args g = none ↔ g ∉ names) ∧
      List.Forall₂ (GlobalsAt names body t) (placesAll [] body) (scriptExprsAll t.body.stmts) := by
  obtain ⟨m, params, body, names, ts, t, read, first, known, converts⟩ := toProgram_converts accepted
  obtain ⟨t', found, _, plain⟩ := Inline.startsPlain_of_toProgram accepted
  cases converts.template.symm.trans found
  refine ⟨m, params, body, names, t, read, first, known, found, fun args g => ?_, ?_⟩
  · rw [converts.params]
    exact Inline.argument?_eq_none_iff
  refine List.forall₂_iff_zip.mpr ⟨converts.accounts.length_eq, fun {place e} member => ?_⟩
  have accounts := (List.forall₂_iff_zip.mp converts.accounts).2 member
  intro m mentioned manner g introduces
  have refers : ⟨manner, g, m.scope⟩ ∈ e.references :=
    accounts.looksUp.translated m mentioned introduces.2 manner g introduces.1
  refine ⟨refers, fun unbound => ?_⟩
  exact converts.free_iff plain (List.of_mem_zip member).2 ⟨_, refers, rfl, unbound⟩

/-- A routine with a parameter `Number`, which `round` is turned into as well. -/
def roundsSource : String :=
  "def f(xs, Number):\n  top = abs(xs[0])\n  return {round(top, 2), round(top) // 2}"

/-- `Math` and `Set` are free, and `Number` is the parameter. -/
theorem toProgram_globalsAt_rounds : ∃ c, converted? roundsSource = some c ∧
    List.Forall₂ (GlobalsAt ["xs", "Number"] c.body c.template) (placesAll [] c.body)
      (scriptExprsAll c.template.body.stmts) ∧
    c.template.free.map (·.name) = ["Math", "Set", "Math", "Math"] := by
  have evaluated : (converted? roundsSource).any (fun c => c.names == ["xs", "Number"] &&
      c.template.free.map (·.name) == ["Math", "Set", "Math", "Math"]) = true := by
    unfold converted?
    rw [toProgram_eq]
    decide +kernel
  obtain ⟨c, is, computed⟩ := (Option.any_eq_true _ _).mp evaluated
  obtain ⟨names, free⟩ := Bool.and_eq_true_iff.mp computed
  obtain ⟨m, params, body, names', t, read, first, known, found, _, globals⟩ :=
    toProgram_globalsAt (converted?_eq_some is).1
  obtain ⟨rfl, rfl, rfl⟩ := converted?_unique is read first known found
  rw [eq_of_beq names] at globals
  exact ⟨c, is, globals, eq_of_beq free⟩

/-- A lambda expression with a parameter `Math`, which `//` is turned into as well. -/
def divideSource : String := "lambda Math, x: x // Math"

/-- The `Math` that stands for `//` is not free, and inlining puts an argument in its place. -/
theorem parameter_replaces_math : ∃ c, converted? divideSource = some c ∧
    ⟨.floorDivision, []⟩ ∈ (placesAll [] c.body).flatMap Place.mentions ∧
    ⟨.read, "Math"⟩ ∉ c.template.free ∧
    (Inline.inlineProgram? c.program [.ident "n", .ident "m"]).map Script.Expr.text =
      some "n.floor(m / n)".toList := by
  have evaluated : (converted? divideSource).any (fun c =>
      ((placesAll [] c.body).flatMap Place.mentions).contains ⟨.floorDivision, []⟩ &&
        !c.template.free.contains ⟨.read, "Math"⟩ &&
        (Inline.inlineProgram? c.program [.ident "n", .ident "m"]).map Script.Expr.text ==
          some "n.floor(m / n)".toList) = true := by
    unfold converted?
    rw [toProgram_eq]
    decide +kernel
  obtain ⟨c, is, computed⟩ := (Option.any_eq_true _ _).mp evaluated
  simp only [Bool.and_eq_true, Bool.not_eq_true', List.contains_iff_mem, beq_iff_eq] at computed
  obtain ⟨⟨mentioned, unfree⟩, inlined⟩ := computed
  refine ⟨c, is, mentioned, fun free => ?_, inlined⟩
  rw [List.contains_iff_mem.mpr free] at unfree
  cases unfree

end JexlScript.Routine
