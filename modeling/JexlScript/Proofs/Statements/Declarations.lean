import JexlScript.Proofs.NameOrigins
import JexlScript.Proofs.Parts

/-!
# Where a function declares its names

A name is declared once, by a statement of the function's own block and not by one in a
branch, and ahead of every assignment to it. Two passes have to agree on this: the scan for
the names that a branch would be the first to assign, and the turning of statements into
those of the script, which declares what is not bound.
-/

namespace JexlScript

open List

namespace Script

/-- What a statement assigns to or declares. -/
def Node.target? : Node → Option Target
  | .stmt (.assign t _) | .stmt (.bare t) => some t
  | _ => none

/-- The name and the parameters of a function with a name. -/
def Node.functionNames : Node → List String
  | .expr (.function n ps _) | .stmt (.function n ps _) => n :: paramNames ps
  | _ => []

/-! ## Expressions assign nothing -/

/-- Nodes that assign nothing and are no functions with a name. -/
def Inert (nodes : List Node) : Prop := ∀ n ∈ nodes, n.target? = none ∧ n.functionNames = []

theorem Expr.Plain.inert {e : Expr} (h : e.Plain) : Inert e.walk := by
  refine h.ofParts (P := fun n => Inert n.walk) fun e plain ih => ?_
  rw [Node.walk_eq, Inert, forall_mem_cons, forall_mem_flatMap]
  refine ⟨⟨rfl, ?_⟩, ih⟩
  cases e with
  | function => exact plain.elim
  | _ => rfl

/-! ## Statements in order -/

/-- A node declares nothing and assigns only to names that are declared. -/
def Node.Follows (declared : List String) (n : Node) : Prop :=
  ∀ t ∈ n.target?, t.declare = none ∧ (t.op = none → t.name ∈ declared)

theorem Node.follows_of_inert {declared : List String} {nodes : List Node} (inert : Inert nodes) :
    ∀ n ∈ nodes, n.Follows declared := by
  intro n member t is
  rw [(inert n member).1] at is
  cases is

/-- Declarations stand at the top of a block and ahead of what uses them. -/
def Ordered : (declared : List String) → List Stmt → Prop
  | _, [] => True
  | declared, s :: ss =>
    (∀ n ∈ s.walk.tail, n.Follows declared) ∧
      (s.bound = [] → (Node.stmt s).Follows declared) ∧ Ordered (s.bound ++ declared) ss

theorem Ordered.mono {declared declared' : List String} {ss : List Stmt}
    (ordered : Ordered declared ss) (sub : declared ⊆ declared') : Ordered declared' ss := by
  induction ss generalizing declared declared' with
  | nil => trivial
  | cons s ss ih =>
    obtain ⟨inner, own, rest⟩ := ordered
    have follows {n : Node} (follows : n.Follows declared) : n.Follows declared' :=
      fun t is => ⟨(follows t is).1, fun plain => sub ((follows t is).2 plain)⟩
    exact ⟨fun n member => follows (inner n member), fun nothing => follows (own nothing),
      ih rest fun x hx => mem_append.mpr ((mem_append.mp hx).imp_right (@sub x))⟩

theorem walk_eq_cons (s : Stmt) : s.walk = .stmt s :: s.walk.tail := by
  cases s <;> simp [Stmt.walk]

/-- A block that declares nothing only assigns. -/
theorem Ordered.of_nothing {declared : List String} {ss : List Stmt}
    (ordered : Ordered declared ss) (nothing : blockNames ss = []) :
    ∀ n ∈ walkStmts ss, n.Follows declared := by
  induction ss with
  | nil => nofun
  | cons s ss ih =>
    obtain ⟨inner, own, rest⟩ := ordered
    obtain ⟨none, nothing⟩ := append_eq_nil_iff.mp nothing
    rw [none] at rest
    rw [walkStmts, walk_eq_cons]
    exact forall_mem_append.mpr
      ⟨forall_mem_cons.mpr ⟨own none, inner⟩, ih rest nothing⟩

/-- Behind some statements the rest is ordered, with their names declared. -/
theorem Ordered.drop {declared : List String} {ss ts : List Stmt}
    (ordered : Ordered declared (ss ++ ts)) : Ordered (blockNames ss ++ declared) ts := by
  induction ss generalizing declared with
  | nil => exact ordered
  | cons s ss ih =>
    refine (ih ordered.2.2).mono fun x hx => ?_
    simp only [blockNames, mem_append] at hx ⊢
    exact or_left_comm.mp hx |>.elim (fun own => .inl (.inl own)) fun hx => hx.imp_left .inr

/-- Declaring names ahead keeps a block ordered. -/
theorem Ordered.hoist {names declared : List String} {ss : List Stmt}
    (ordered : Ordered (names ++ declared) ss) :
    Ordered declared (names.map (fun x => .bare ⟨x, some .let, none⟩) ++ ss) := by
  induction names generalizing declared with
  | nil => exact ordered
  | cons x names ih =>
    refine ⟨nofun, nofun, ih (ordered.mono ?_)⟩
    exact fun y hy => by simpa [Target.declared, Stmt.bound, or_left_comm] using hy

theorem blockNames_hoist (names : List String) (ss : List Stmt) :
    blockNames (names.map (fun x => .bare ⟨x, some .let, none⟩) ++ ss) = names ++ blockNames ss := by
  induction names with
  | nil => rfl
  | cons x names ih => exact congrArg (x :: ·) ih

theorem bound_eq_declared {s : Stmt} {t : Target} (is : (Node.stmt s).target? = some t) :
    s.bound = t.declared := by
  cases s with
  | assign t' e | bare t' =>
    cases is
    rfl
  | _ => cases is

end Script

namespace Routine

open Script

/-! ## Bodies -/

section

variable {b b' : List String} {ss : List Stmt} {ts : List Script.Stmt}

/-- The names that a body declares are bound behind it. -/
theorem Lowers.bound_eq (lowers : Lowers b ss ts b') : b' = (blockNames ts).reverse ++ b := by
  induction lowers with
  | nil => rfl
  | declare _ _ _ _ ih =>
    rw [ih]
    simp [blockNames, Stmt.bound, Target.declared]
  | retNothing _ ih | ret _ _ ih | pass _ ih | expr _ _ ih | augment _ _ _ ih
  | assign _ _ _ _ ih | cond _ _ _ _ _ _ ih => exact ih

theorem Lowers.declares_nothing (lowers : Lowers b ss ts b) : blockNames ts = [] := by
  have same := congrArg List.length lowers.bound_eq
  rw [length_append, length_reverse] at same
  exact eq_nil_of_length_eq_zero (by omega)

/-- No name is declared twice. -/
theorem Lowers.fresh (lowers : Lowers b ss ts b') :
    (blockNames ts).Nodup ∧ ∀ x ∈ blockNames ts, x ∉ b := by
  induction lowers with
  | nil => exact ⟨.nil, nofun⟩
  | @declare b _ _ x _ _ _ ts _ _ unbound _ ih =>
    obtain ⟨nodup, fresh⟩ := ih
    refine ⟨nodup_cons.mpr ⟨fun member => fresh x member mem_cons_self, nodup⟩, ?_⟩
    refine forall_mem_cons.mpr ⟨unbound, fun y member bound => ?_⟩
    exact fresh y member (mem_cons_of_mem _ bound)
  | retNothing _ ih | ret _ _ ih | pass _ ih | expr _ _ ih | augment _ _ _ ih
  | assign _ _ _ _ ih | cond _ _ _ _ _ _ ih => exact ih

theorem Lowers.declares_assigned (lowers : Lowers b ss ts b') : blockNames ts ⊆ assignedAll ss := by
  induction lowers with
  | nil => exact List.Subset.refl _
  | declare is _ _ _ ih =>
    refine append_subset.mpr ⟨?_, fun _ hx => mem_append_right _ (ih hx)⟩
    rw [assignedAll, Stmt.assigned_of_assignment? is]
    exact subset_append_left _ _
  | retNothing _ ih | ret _ _ ih | pass _ ih | expr _ _ ih | augment _ _ _ ih
  | assign _ _ _ _ ih | cond _ _ _ _ _ _ ih => exact fun _ hx => mem_append_right _ (ih hx)

/-- By induction over a body its script is ordered. -/
theorem Lowers.ordered (lowers : Lowers b ss ts b') : Ordered b ts := by
  induction lowers with
  | nil => trivial
  | retNothing _ ih => exact ⟨nofun, fun _ => nofun, ih⟩
  | pass _ ih => exact ih
  | ret lowered _ ih | expr lowered _ ih =>
    exact ⟨Node.follows_of_inert (Expr.lower_plain _ _ _ lowered).inert, fun _ => nofun, ih⟩
  | augment _ lowered _ ih =>
    refine ⟨Node.follows_of_inert (Expr.lower_plain _ _ _ lowered).inert, fun _ => ?_, ih⟩
    rintro _ ⟨⟩
    exact ⟨rfl, nofun⟩
  | assign _ lowered bound _ ih =>
    refine ⟨Node.follows_of_inert (valueOutcome_plain _ _ _ lowered).inert, fun _ => ?_, ih⟩
    rintro _ ⟨⟩
    exact ⟨rfl, fun _ => bound⟩
  | declare _ lowered _ _ ih =>
    exact ⟨Node.follows_of_inert (valueOutcome_plain _ _ _ lowered).inert, nofun, ih⟩
  | cond lowered yes no _ ihYes ihNo ih =>
    -- the branches declare nothing, so that what they assign to is bound
    refine ⟨forall_mem_append.mpr ⟨forall_mem_append.mpr ⟨?_, ?_⟩, ?_⟩, fun _ => nofun, ih⟩
    · exact Node.follows_of_inert (Expr.lower_plain _ _ _ lowered).inert
    · exact ihYes.of_nothing yes.declares_nothing
    · exact ihNo.of_nothing no.declares_nothing

end

/-! ## Hoisted names -/

/-- Whether the hoisted names are distinct, and are met, but are no parameters. -/
structure HoistsFresh (params : List String) (seen : Hoisting) : Prop where
  nodup : seen.2.Nodup
  met : seen.2 ⊆ seen.1
  bound : params ⊆ seen.1
  apart : ∀ x ∈ seen.2, x ∉ params

section

variable {params : List String}

theorem noteTargets_fresh (nested : Bool) (targets : List Expr) {seen : Hoisting}
    (fresh : HoistsFresh params seen) : HoistsFresh params (noteTargets nested seen targets) := by
  rw [noteTargets]
  generalize targets.filterMap Expr.name? = ids
  induction ids generalizing seen with
  | nil => exact fresh
  | cons id ids ih =>
    obtain ⟨names, hoisted⟩ := seen
    refine ih ?_
    simp only
    split
    · exact fresh
    -- A name that is met for the first time is neither a parameter nor hoisted before.
    · next unmet =>
        have new : id ∉ names := fun met => unmet (contains_iff_mem.mpr met)
        have bound : params ⊆ id :: names := fun _ hx => mem_cons_of_mem _ (fresh.bound hx)
        have met : hoisted ⊆ id :: names := fun _ hx => mem_cons_of_mem _ (fresh.met hx)
        cases nested with
        | false => exact ⟨fresh.nodup, met, bound, fresh.apart⟩
        | true =>
          refine ⟨nodup_append.mpr ⟨fresh.nodup, nodup_singleton id, ?_⟩, ?_, bound, ?_⟩
          · rintro x hx y hy rfl
            exact new (mem_singleton.mp hy ▸ fresh.met hx)
          · exact append_subset.mpr ⟨met, by simp⟩
          · refine forall_mem_append.mpr ⟨fresh.apart, fun x hx => ?_⟩
            rw [mem_singleton.mp hx]
            exact fun member => new (fresh.bound member)

mutual

theorem Stmt.noteNames_fresh : ∀ (s : Stmt) (nested : Bool) {seen : Hoisting},
    HoistsFresh params seen → HoistsFresh params (s.noteNames nested seen)
  | .assign targets _, nested, _, fresh => noteTargets_fresh nested targets fresh
  | .annAssign target _ _, nested, _, fresh => noteTargets_fresh nested [target] fresh
  | .cond _ yes no, _, _, fresh => noteAll_fresh no true (noteAll_fresh yes true fresh)
  | .function .., _, _, fresh | .class .., _, _, fresh | .ret _, _, _, fresh
  | .pass, _, _, fresh | .expr _, _, _, fresh | .augAssign .., _, _, fresh
  | .loop .., _, _, fresh | .while .., _, _, fresh | .context .., _, _, fresh
  | .attempt .., _, _, fresh | .raise .., _, _, fresh | .assert .., _, _, fresh
  | .delete _, _, _, fresh | .typeAlias _, _, _, fresh | .import _, _, _, fresh
  | .importFrom .., _, _, fresh | .elsewhere .., _, _, fresh | .break, _, _, fresh
  | .continue, _, _, fresh | .match .., _, _, fresh => fresh

theorem noteAll_fresh : ∀ (ss : List Stmt) (nested : Bool) {seen : Hoisting},
    HoistsFresh params seen → HoistsFresh params (noteAll nested seen ss)
  | [], _, _, fresh => fresh
  | s :: ss, nested, _, fresh => noteAll_fresh ss nested (s.noteNames_fresh nested fresh)

end

end

/-! ## Functions -/

theorem paramNames_map_name (names : List String) :
    paramNames (names.map Param.name) = names := by
  induction names with
  | nil => rfl
  | cons name names ih => exact congrArg (name :: ·) ih

/-- No parameter is hoisted, and no name twice. -/
theorem hoistedNames_fresh (params : List String) (body : List Stmt) :
    HoistsFresh params (noteAll false (params, []) body) :=
  noteAll_fresh body false ⟨.nil, nofun, List.Subset.refl _, nofun⟩

theorem Lowers.names_fresh {params b : List String} {body : List Stmt} {stmts : List Script.Stmt}
    (lowers : Lowers (hoistedNames params body ++ params) body stmts b) :
    (hoistedNames params body ++ blockNames stmts).Nodup ∧
      ∀ x ∈ hoistedNames params body ++ blockNames stmts, x ∉ params := by
  obtain ⟨nodup, fresh⟩ := lowers.fresh
  have hoists := hoistedNames_fresh params body
  refine ⟨nodup_append.mpr ⟨hoists.nodup, nodup, ?_⟩, ?_⟩
  · rintro x hx y hy rfl
    exact fresh x hy (mem_append_left _ hx)
  · refine forall_mem_append.mpr ⟨hoists.apart, fun x hx => ?_⟩
    exact fun member => fresh x hx (mem_append_right _ member)

/-- In the function that a definition is turned into, names are declared by the statements
of its own block only, each once and none of them a parameter, and a value is assigned only
to a parameter or to a name that is declared by an earlier statement of the block. -/
theorem toProgram_declares_ahead {source name : String} {ps : List Param}
    {block : List Script.Stmt} (accepted : toProgram source = .ok ⟨[.function name ps block]⟩) :
    (∀ s ∈ block, ∀ n ∈ s.walk.tail, ∀ t, n.target? = some t → t.declare = none) ∧
      (blockNames block).Nodup ∧ (∀ x ∈ blockNames block, x ∉ paramNames ps) ∧
      ∀ before s after, block = before ++ s :: after → ∀ n ∈ s.walk, ∀ x,
        n.target? = some ⟨x, none, none⟩ → x ∈ paramNames ps ∨ x ∈ blockNames before := by
  obtain ⟨_, params, _, body, _, _, _, _, _, lowered⟩ := definition_of_toProgram accepted
  obtain ⟨names, stmts, b, _, same, lowers⟩ := lowerDefinition_lowers name params body _ lowered
  cases same
  have ordered := lowers.ordered.hoist
  obtain ⟨nodup, apart⟩ := lowers.names_fresh
  rw [paramNames_map_name, blockNames_hoist]
  refine ⟨?_, nodup, apart, ?_⟩
  -- Below the statements of the block nothing is declared.
  · intro s member n inner t is
    obtain ⟨before, after, split⟩ := List.append_of_mem member
    rw [split] at ordered
    exact (ordered.drop.1 n inner t is).1
  · intro before s after split n member x is
    rw [split] at ordered
    obtain ⟨inner, own, _⟩ := ordered.drop
    rw [walk_eq_cons] at member
    -- What stands ahead of the statement and the parameters are all that may be assigned to.
    have met : x ∈ blockNames before ++ names := by
      rcases List.mem_cons.mp member with rfl | member
      · exact (own (bound_eq_declared is) _ is).2 rfl
      · exact (inner n member _ is).2 rfl
    exact (List.mem_append.mp met).symm

/-- A routine with two branches, of which one is annotated. -/
def branchingSource : String :=
  "def pick(rows):\n  if rows:\n    best = [x for x in rows]\n  else:\n    best: int = 0\n" ++
    "  x = best\n  best = x\n  return best"

/-- Names that a branch is the first to assign are declared ahead of it. -/
theorem toProgram_declares_ahead_pick : ∃ ps block,
    toProgram branchingSource = .ok ⟨[.function "pick" ps block]⟩ ∧
      blockNames block = ["best", "x"] ∧
      (∀ s ∈ block, ∀ n ∈ s.walk.tail, ∀ t, n.target? = some t → t.declare = none) ∧
      ∀ before s after, block = before ++ s :: after → ∀ n ∈ s.walk, ∀ x,
        n.target? = some ⟨x, none, none⟩ → x ∈ paramNames ps ∨ x ∈ blockNames before := by
  have evaluated : (turned? branchingSource).any (fun t =>
      t.name == "pick" && blockNames t.block == ["best", "x"]) = true := by
    unfold turned?
    rw [toProgram_eq]
    decide +kernel
  obtain ⟨⟨name, body, ps, block⟩, turned, holds⟩ := (Option.any_eq_true _ _).mp evaluated
  obtain ⟨_, _, _, _, _, _, _, _, accepted⟩ := turned?_eq_some turned
  simp only [Bool.and_eq_true, beq_iff_eq] at holds
  obtain ⟨rfl, names⟩ := holds
  obtain ⟨inner, _, _, ahead⟩ := toProgram_declares_ahead accepted
  exact ⟨ps, block, accepted, names, inner, ahead⟩

end Routine

end JexlScript
