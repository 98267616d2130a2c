import JexlScript.Proofs.Scoping.Accounts
import JexlScript.Proofs.Statements.Agreement

/-!
# Names in bodies

At each place of a body the names are bound that the script binds there: the parameters,
the names declared ahead of the body, and those that the statements ahead of the place
assign. `Lowers.accounts` says this of every expression of a body, and
`mem_hoistedNames` which names are declared ahead of it: those whose first assignment
stands in a branch.
-/

namespace JexlScript.Routine

open List

open Script (Reference blockNames)
open Execution (scriptExprsAll)

/-! ## Places -/

/-- Where a body evaluates an expression, or has an annotation without one, with the names
that the statements ahead of it assign. -/
structure Place where
  value : Option Expr
  ahead : List String

/-- The mentions of names in the expression at a place. -/
def Place.mentions (p : Place) : List Mention := optionMentions p.value

mutual

/-- The places of a statement with the names that are assigned ahead of each. -/
def Stmt.places (ahead : List String) : Stmt → List Place
  | .ret (some e) | .expr e | .assign _ e | .augAssign _ _ e => [⟨some e, ahead⟩]
  | .annAssign _ _ value => [⟨value, ahead⟩]
  | .cond test yes no => ⟨some test, ahead⟩ :: (placesAll ahead yes ++ placesAll ahead no)
  | _ => []

/-- The places of statements, each behind those before it. -/
def placesAll (ahead : List String) : List Stmt → List Place
  | [] => []
  | s :: ss => s.places ahead ++ placesAll (s.assigned ++ ahead) ss

end

theorem places_of_assignment? {s : Stmt} {x : String} {value : Option Expr} (ahead : List String)
    (is : s.assignment? = some (x, value)) : s.places ahead = [⟨value, ahead⟩] := by
  unfold Stmt.assignment? at is
  split at is <;> cases is <;> rfl

/-! ## Bound names -/

section

variable {b b' c : List String} {ss : List Stmt} {ts : List Script.Stmt}

/-- It does not matter in which order names are bound. -/
theorem Mention.rendering_congr (same : ∀ x, x ∈ b ↔ x ∈ c) (m : Mention) :
    m.rendering b = m.rendering c := by
  have bound : m.isBound b = m.isBound c := by
    rw [Bool.eq_iff_iff]
    simp [Mention.isBound, same]
  rw [Mention.rendering, Mention.rendering, bound]

theorem Accounts.bound_congr {ms : List Mention} {rs : List Reference} (same : ∀ x, x ∈ b ↔ x ∈ c)
    (accounts : Accounts b ms rs) : Accounts c ms rs := by
  have rendered := Mention.rendering_congr same
  have turned (m : Mention) : m.reference? b = m.reference? c := by
    rw [Mention.reference?, Mention.reference?, rendered]
  have lost (m : Mention) : m.Lost b ↔ m.Lost c := by simp [Mention.Lost, same]
  refine ⟨?_, ?_, fun m member itself x named => ?_⟩
  · simpa only [turned] using accounts.sound
  · simpa only [turned, lost] using accounts.complete
  · rw [← rendered] at itself
    refine (accounts.admitted m member itself x named).imp_left fun bound => ?_
    simpa [Mention.isBound_iff named, same] using bound

/-- Behind a body all names are bound that it assigns. -/
theorem Lowers.assigned_bound (lowers : Lowers b ss ts b') : b ⊆ b' ∧ assignedAll ss ⊆ b' := by
  induction lowers with
  | nil => exact ⟨List.Subset.refl _, nil_subset _⟩
  | retNothing _ ih | ret _ _ ih | pass _ ih | expr _ _ ih | augment _ _ _ ih => exact ih
  | assign is _ bound _ ih =>
    refine ⟨ih.1, ?_⟩
    rw [assignedAll, Stmt.assigned_of_assignment? is]
    exact cons_subset.mpr ⟨ih.1 bound, ih.2⟩
  | declare is _ _ _ ih =>
    refine ⟨fun _ hx => ih.1 (mem_cons_of_mem _ hx), ?_⟩
    rw [assignedAll, Stmt.assigned_of_assignment? is]
    exact cons_subset.mpr ⟨ih.1 mem_cons_self, ih.2⟩
  | cond _ _ _ _ ihYes ihNo ih =>
    refine ⟨ih.1, append_subset.mpr ⟨append_subset.mpr ⟨?_, ?_⟩, ih.2⟩⟩
    · exact fun _ hx => ih.1 (ihYes.2 hx)
    · exact fun _ hx => ih.1 (ihNo.2 hx)

theorem valueOutcome_accounts (b : List String) (value : Option Expr) :
    Accounted b (optionMentions value) (valueOutcome b value) := by
  cases value with
  | none => exact .ok .nil
  | some e => exact e.lower_accounts b .plain

/-- By induction over a body each of its places is accounted for, with the names assigned ahead of
it. -/
theorem Lowers.accounts_from {outer : List String} (lowers : Lowers b ss ts b') {ahead : List String}
    (same : ∀ x, x ∈ b ↔ x ∈ ahead ++ outer) :
    List.Forall₂ (fun p e => Accounts (p.ahead ++ outer) p.mentions e.references)
      (placesAll ahead ss) (scriptExprsAll ts) := by
  induction lowers generalizing ahead with
  | nil => exact .nil
  | retNothing _ ih | pass _ ih => exact ih same
  | ret lowered _ ih | expr lowered _ ih | augment _ lowered _ ih =>
    exact .cons ((Expr.lower_accounts _ .plain _ _ lowered).bound_congr same) (ih same)
  | @assign b _ s x _ _ _ _ is lowered bound _ ih =>
    rw [placesAll, places_of_assignment? ahead is, Stmt.assigned_of_assignment? is]
    refine .cons ((valueOutcome_accounts _ _ _ lowered).bound_congr same) (ih fun y => ?_)
    rw [same, cons_append, nil_append, cons_append, mem_cons]
    refine ⟨.inr, ?_⟩
    rintro (rfl | member)
    · exact (same _).mp bound
    · exact member
  | declare is lowered _ _ ih =>
    rw [placesAll, places_of_assignment? ahead is, Stmt.assigned_of_assignment? is]
    refine .cons ((valueOutcome_accounts _ _ _ lowered).bound_congr same) (ih fun y => ?_)
    simp [same]
  | cond lowered yes no _ ihYes ihNo ih =>
    refine .cons ((Expr.lower_accounts _ .plain _ _ lowered).bound_congr same)
      (rel_append (rel_append (ihYes same) (ihNo same)) (ih fun y => ?_))
    -- a branch assigns only what is bound ahead of it
    have within : assignedAll _ ++ assignedAll _ ⊆ _ :=
      append_subset.mpr ⟨yes.assigned_bound.2, no.assigned_bound.2⟩
    rw [same, Stmt.assigned, append_assoc, mem_append (s := assignedAll _ ++ assignedAll _)]
    exact ⟨.inr, fun member => member.elim (fun met => (same y).mp (within met)) id⟩

/-- The expressions of the script account for the mentions of the body, place by place. -/
theorem Lowers.accounts (lowers : Lowers b ss ts b') :
    List.Forall₂ (fun p e => Accounts (p.ahead ++ b) p.mentions e.references)
      (placesAll [] ss) (scriptExprsAll ts) :=
  lowers.accounts_from fun x => by simp

end

/-! ## Names declared ahead -/

theorem noteTargets_hoists (nested : Bool) (targets : List Expr) (seen : Hoisting) (x : String) :
    x ∈ (noteTargets nested seen targets).2 ↔
      x ∈ seen.2 ∨ nested = true ∧ x ∉ seen.1 ∧ x ∈ targets.filterMap Expr.name? := by
  rw [noteTargets]
  generalize targets.filterMap Expr.name? = ids
  induction ids generalizing seen with
  | nil => simp
  | cons id ids ih =>
    obtain ⟨names, hoisted⟩ := seen
    rw [foldl_cons, ih]
    by_cases met : id ∈ names
    · have old : x ∉ names → x ≠ id := fun new same => new (same ▸ met)
      simp only [contains_iff_mem, met, if_true, mem_cons]
      refine or_congr_right (and_congr_right fun _ => and_congr_right fun new => ?_)
      simp [old new]
    · cases nested with
      | false => simp [met]
      | true =>
        simp only [contains_iff_mem, met, if_false, if_true, mem_append, mem_cons,
          not_mem_nil, or_false, true_and, not_or]
        by_cases same : x = id
        · subst same
          simp [met]
        · simp [same]

mutual

/-- In a branch each name is hoisted that is assigned for the first time. -/
theorem Stmt.noteNames_hoists : ∀ (s : Stmt) (seen : Hoisting) (x : String),
    x ∈ (s.noteNames true seen).2 ↔ x ∈ seen.2 ∨ x ∉ seen.1 ∧ x ∈ s.assigned
  | .assign targets _, seen, x => by
    rw [Stmt.noteNames, noteTargets_hoists, Stmt.assigned]
    simp
  | .annAssign target _ _, seen, x => by
    rw [Stmt.noteNames, noteTargets_hoists, Stmt.assigned]
    simp
  | .cond _ yes no, seen, x => by
    rw [Stmt.noteNames, noteAll_hoists no, noteAll_hoists yes,
      (noteAll_noted yes true seen).names, Stmt.assigned, mem_append]
    tauto
  | .function .., _, _ | .class .., _, _ | .ret _, _, _ | .pass, _, _ | .expr _, _, _
  | .augAssign .., _, _ | .loop .., _, _ | .while .., _, _ | .context .., _, _
  | .attempt .., _, _ | .raise .., _, _ | .assert .., _, _ | .delete _, _, _
  | .typeAlias _, _, _ | .import _, _, _ | .importFrom .., _, _ | .elsewhere .., _, _
  | .break, _, _ | .continue, _, _ | .match .., _, _ => by simp [Stmt.noteNames, Stmt.assigned]

/-- The same of all statements of a branch. -/
theorem noteAll_hoists : ∀ (ss : List Stmt) (seen : Hoisting) (x : String),
    x ∈ (noteAll true seen ss).2 ↔ x ∈ seen.2 ∨ x ∉ seen.1 ∧ x ∈ assignedAll ss
  | [], _, _ => by simp [noteAll, assignedAll]
  | s :: ss, seen, x => by
    rw [noteAll, noteAll_hoists ss, s.noteNames_hoists, (s.noteNames_noted true seen).names,
      assignedAll, mem_append]
    tauto

end

/-- Whether a statement has branches. -/
def Stmt.isCond : Stmt → Bool
  | .cond .. => true
  | _ => false

/-- Outside of branches only a condition hoists names. -/
theorem Stmt.noteNames_false_hoists (s : Stmt) (seen : Hoisting) (x : String) :
    x ∈ (s.noteNames false seen).2 ↔
      x ∈ seen.2 ∨ x ∉ seen.1 ∧ s.assigned.contains x = true ∧ s.isCond = true := by
  cases s with
  | cond test yes no =>
    have nested := (Stmt.cond test yes no).noteNames_hoists seen x
    simpa [Stmt.isCond, Stmt.noteNames] using nested
  | assign targets value | annAssign target mark value =>
    rw [Stmt.noteNames, noteTargets_hoists]
    simp [Stmt.isCond]
  | _ => simp [Stmt.noteNames, Stmt.isCond]

/-- Whether the first statement that assigns a name does so in a branch. -/
def firstInBranch (x : String) (body : List Stmt) : Bool :=
  (body.find? fun s => s.assigned.contains x).any Stmt.isCond

theorem noteAll_false_hoists (body : List Stmt) (seen : Hoisting) (x : String) :
    x ∈ (noteAll false seen body).2 ↔ x ∈ seen.2 ∨ x ∉ seen.1 ∧ firstInBranch x body = true := by
  induction body generalizing seen with
  | nil => simp [noteAll, firstInBranch]
  | cons s ss ih =>
    rw [noteAll, ih, s.noteNames_false_hoists, (s.noteNames_noted false seen).names]
    by_cases first : x ∈ s.assigned
    · simp [firstInBranch, first]
    · simp [firstInBranch, first]

/-- Hoisted are the names that a branch is the first to assign, parameters aside. -/
theorem mem_hoistedNames {params : List String} {body : List Stmt} {x : String} :
    x ∈ hoistedNames params body ↔ x ∉ params ∧ firstInBranch x body = true := by
  rw [hoistedNames, noteAll_false_hoists]
  simp

/-- A body declares the names that it assigns, parameters aside. -/
theorem Lowers.mem_declared {names b : List String} {body : List Stmt} {ts : List Script.Stmt}
    (lowers : Lowers (hoistedNames names body ++ names) body ts b) {x : String} :
    x ∈ hoistedNames names body ++ blockNames ts ↔ x ∈ assignedAll body ∧ x ∉ names := by
  constructor
  · intro member
    refine ⟨?_, lowers.names_fresh.2 x member⟩
    rcases mem_append.mp member with hoisted | declared
    · exact Execution.hoistedNames_assigned names body hoisted
    · exact lowers.declares_assigned declared
  · rintro ⟨assigned, free⟩
    have bound := lowers.assigned_bound.2 assigned
    rw [lowers.bound_eq] at bound
    simp only [mem_append, mem_reverse] at bound ⊢
    tauto

/-! ## Functions -/

/-- The parameters and the body of a routine: a definition or a lambda expression. -/
def function? : List Stmt → Option (Params Expr × List Stmt)
  | .function false _ params _ body _ _ :: _ => some (params, withoutDescription body)
  | .expr (.lambda params body _) :: _ | .assign _ (.lambda params body _) :: _ =>
    some (params, [.ret (some body)])
  | _ => none

end JexlScript.Routine

namespace JexlScript.Inline

open List

/-- The statements of a body. An expression is returned. -/
def Body.stmts : Body → List Script.Stmt
  | .expr e => [.ret e]
  | .block ss => ss

end JexlScript.Inline

namespace JexlScript.Routine

open List

open Script (Reference blockNames blockReferences)
open Execution (scriptExprsAll)

/-- What a function of a routine has to do with the program that it is turned into. -/
structure Converts (names : List String) (body : List Stmt) (ts : List Script.Stmt)
    (p : Script.Program) (t : Inline.Template) : Prop where
  lowers : ∃ b, Lowers (hoistedNames names body ++ names) body ts b
  template : Inline.Template.ofProgram? p = some t
  params : t.params = names.map .name
  stmts : t.body.stmts =
    (hoistedNames names body).map (fun x => .bare ⟨x, some .let, none⟩) ++ ts
  references : p.references = (blockReferences t.body.stmts).map (Reference.within names)

/-- A template accounts for the mentions of the routine, place by place. -/
theorem Converts.accounts {names : List String} {body : List Stmt} {ts : List Script.Stmt}
    {p : Script.Program} {t : Inline.Template} (converts : Converts names body ts p t) :
    List.Forall₂ (fun place e => Accounts (place.ahead ++ (hoistedNames names body ++ names))
      place.mentions e.references) (placesAll [] body) (scriptExprsAll t.body.stmts) := by
  obtain ⟨b, lowers⟩ := converts.lowers
  rw [converts.stmts, Execution.scriptExprsAll_hoist]
  exact lowers.accounts

/-- A definition is converted. -/
theorem definition_converts (name : String) (params : Params Expr) (body : List Stmt) :
    Gives (fun s => ∃ names ts t, params.names? = .ok names ∧
      Converts names (withoutDescription body) ts ⟨[s]⟩ t) (lowerDefinition name params body) := by
  intro s lowered
  obtain ⟨names, ts, b, known, rfl, lowers⟩ := lowerDefinition_lowers name params body s lowered
  refine ⟨names, ts, _, known, ⟨b, lowers⟩, rfl, rfl, rfl, ?_⟩
  simp [Script.Program.references, Script.branchReferences, Script.Stmt.references,
    paramNames_map_name, Inline.Body.stmts]

/-- A lambda expression is converted as a body that returns its value. -/
theorem lambda_converts (params : Params Expr) (body : Expr) (span : Span) :
    Gives (fun e => ∃ names ts t, params.names? = .ok names ∧
      Converts names [.ret (some body)] ts ⟨[.expr e]⟩ t) ((Expr.lambda params body span).lower []) := by
  rw [Expr.lower]
  refine Gives.outcome fun names known => Gives.outcome fun e lowered => .ok ?_
  rw [append_nil] at lowered
  refine ⟨names, [.ret e], ⟨names.map .name, .expr e⟩, known, ⟨names, .ret lowered .nil⟩, rfl, rfl,
    rfl, ?_⟩
  simp [Script.Program.references, Script.branchReferences, Script.Stmt.references,
    Script.Expr.references, blockReferences, paramNames_map_name, Inline.Body.stmts]

/-- Whatever source is accepted, it has been converted. -/
theorem toProgram_converts {source : String} {p : Script.Program}
    (accepted : toProgram source = .ok p) :
    ∃ m params body names ts t, readSource source.toList = some m ∧
      function? m.body = some (params, body) ∧ params.names? = .ok names ∧
      Converts names body ts p t := by
  -- A source is read as a module, of which the first statement counts.
  have first (stmts : List Stmt) : Gives (fun p => ∃ params body names ts t,
      function? stmts = some (params, body) ∧ params.names? = .ok names ∧
      Converts names body ts p t) (lowerFirst stmts) := by
    rw [lowerFirst.eq_def]
    split
    · exact .error _
    · exact .error _
    · next name params _ body _ _ _ =>
        refine (definition_converts name params body).bind ?_
        rintro s ⟨names, ts, t, known, converts⟩
        exact .ok ⟨params, _, names, ts, t, rfl, known, converts⟩
    · next params body span _ =>
        refine (lambda_converts params body span).bind ?_
        rintro e ⟨names, ts, t, known, converts⟩
        exact .ok ⟨params, _, names, ts, t, rfl, known, converts⟩
    · next params body span _ =>
        refine (lambda_converts params body span).bind ?_
        rintro e ⟨names, ts, t, known, converts⟩
        exact .ok ⟨params, _, names, ts, t, rfl, known, converts⟩
    · exact .error _
  unfold toProgram at accepted
  split at accepted
  · cases accepted
  · split at accepted
    · next m read =>
        obtain ⟨params, body, names, ts, t, starts, known, converts⟩ := first m.body p accepted
        exact ⟨m, params, body, names, ts, t, read, starts, known, converts⟩
    · cases accepted

/-- A function of a routine, with the program that it is turned into. -/
structure Converted where
  /-- The parameters of the function. -/
  names : List String
  /-- The statements of the function. -/
  body : List Stmt
  program : Script.Program
  /-- The program as a function of scripts. -/
  template : Inline.Template

/-- What a source is converted to. -/
def converted? (source : String) : Option Converted := do
  let m ← readSource source.toList
  let (params, body) ← function? m.body
  let names ← params.names?.toOption
  let program ← (toProgram source).toOption
  let template ← Inline.Template.ofProgram? program
  some ⟨names, body, program, template⟩

/-- What `converted?` finds is read from the source and is its program. -/
theorem converted?_eq_some {source : String} {c : Converted} (is : converted? source = some c) :
    toProgram source = .ok c.program ∧ Inline.Template.ofProgram? c.program = some c.template ∧
      ∃ m params, readSource source.toList = some m ∧
        function? m.body = some (params, c.body) ∧ params.names? = .ok c.names := by
  simp only [converted?, Option.bind_eq_bind, Option.bind_eq_some_iff, Option.some.injEq] at is
  obtain ⟨m, read, ⟨params, body⟩, first, names, known, program, accepted, template, found, rfl⟩ := is
  exact ⟨toOption_eq_some accepted, found, m, params, read, first, toOption_eq_some known⟩

/-- It finds what any other reading of the source does. -/
theorem converted?_unique {source : String} {c : Converted} (is : converted? source = some c)
    {m : Module} {params : Params Expr} {body : List Stmt} {names : List String}
    {t : Inline.Template} (read : readSource source.toList = some m)
    (first : function? m.body = some (params, body)) (known : params.names? = .ok names)
    (found : Inline.Template.ofProgram? c.program = some t) :
    body = c.body ∧ names = c.names ∧ t = c.template := by
  obtain ⟨_, found', m', params', read', first', known'⟩ := converted?_eq_some is
  cases read.symm.trans read'
  cases first.symm.trans first'
  cases known.symm.trans known'
  cases found.symm.trans found'
  exact ⟨rfl, rfl, rfl⟩

end JexlScript.Routine
