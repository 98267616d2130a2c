import JexlScript.Proofs.FreeNames

/-!
# References of a script

A reference is a name that stands as an expression of its own. `Expr.references` lists
those of an expression and `Program.references` those of a program, each with the names
that are bound around it: by the parameters of functions, and by the declarations of a
function's block that stand ahead of it. The property of a plain access is no reference,
and neither is the name that a statement assigns to.

A name is free in a plain expression exactly if a reference to it has no binder of that
name around it (`Expr.Plain.mem_free`).
-/

namespace JexlScript.Script

open List

/-- What a name stands for. -/
inductive Manner where
  | value
  | constructor
deriving DecidableEq, Repr

/-- A name that stands as an expression. -/
structure Reference where
  manner : Manner
  name : String
  /-- The names that are bound around it, from the inside out. -/
  scope : List String
deriving DecidableEq, Repr

/-- Adds binders around a reference. -/
def Reference.within (names : List String) (r : Reference) : Reference :=
  { r with scope := r.scope ++ names }

mutual

/-- The references of an expression. -/
def Expr.references : Expr → List Reference
  | .ident n => [⟨.value, n, []⟩]
  | .lit _ | .undefined => []
  | .array es => exprsReferences es
  | .object ps => propsReferences ps
  | .member a p computed _ => a.references ++ if computed then p.references else []
  | .call a es => a.references ++ exprsReferences es
  | .new (.ident n) es => ⟨.constructor, n, []⟩ :: exprsReferences es
  | .new a es => a.references ++ exprsReferences es
  | .unary _ a => a.references
  | .binary a _ b => a.references ++ b.references
  | .logical a _ b => a.references ++ b.references
  | .ternary a b c => a.references ++ b.references ++ c.references
  | .arrow ps a => a.references.map (Reference.within (paramNames ps))
  | .arrowBlock ps ss => (blockReferences ss).map (Reference.within (paramNames ps))
  | .function _ ps ss => (blockReferences ss).map (Reference.within (paramNames ps))

def exprsReferences : List Expr → List Reference
  | [] => []
  | e :: es => e.references ++ exprsReferences es

def propsReferences : List (String × Expr) → List Reference
  | [] => []
  | (_, e) :: ps => e.references ++ propsReferences ps

/-- The references of a statement. A function binds its parameters in its block. -/
def Stmt.references : Stmt → List Reference
  | .ret a | .expr a | .assign _ a => a.references
  | .retNothing | .bare _ => []
  | .cond a ys ns => a.references ++ branchReferences ys ++ branchReferences ns
  | .block ss => branchReferences ss
  | .function _ ps ss => (blockReferences ss).map (Reference.within (paramNames ps))

/-- What a statement declares is bound in those behind it. -/
def blockReferences : List Stmt → List Reference
  | [] => []
  | s :: ss => s.references ++ (blockReferences ss).map (Reference.within s.bound)

/-- Branches bind nothing. -/
def branchReferences : List Stmt → List Reference
  | [] => []
  | s :: ss => s.references ++ branchReferences ss

end

/-- The references of a program. -/
def Program.references (p : Program) : List Reference := branchReferences p.body

@[simp]
theorem references_dot (obj : Expr) (prop : String) : (obj.dot prop).references = obj.references := by
  simp [Expr.dot, Expr.references]

@[simp]
theorem references_invoke (obj : Expr) (method : String) (args : List Expr) :
    (obj.invoke method args).references = obj.references ++ exprsReferences args := by
  simp [Expr.invoke, Expr.references]

@[simp]
theorem exprsReferences_nil : exprsReferences [] = [] := rfl

@[simp]
theorem exprsReferences_cons (e : Expr) (es : List Expr) :
    exprsReferences (e :: es) = e.references ++ exprsReferences es := rfl

theorem mem_exprsReferences {r : Reference} {es : List Expr} :
    r ∈ exprsReferences es ↔ ∃ e ∈ es, r ∈ e.references := by
  induction es with
  | nil => simp
  | cons e es ih => simp [ih]

/-! ## Binders around references -/

@[simp]
theorem Reference.within_nil : Reference.within [] = id := by
  funext r
  simp [Reference.within]

@[simp]
theorem Reference.name_within (names : List String) (r : Reference) :
    (r.within names).name = r.name := rfl

@[simp]
theorem Reference.scope_within (names : List String) (r : Reference) :
    (r.within names).scope = r.scope ++ names := rfl

theorem blockReferences_of_nothing {ss : List Stmt} (nothing : blockNames ss = []) :
    blockReferences ss = branchReferences ss := by
  induction ss with
  | nil => rfl
  | cons s ss ih =>
    obtain ⟨none, nothing⟩ := append_eq_nil_iff.mp nothing
    simp [blockReferences, branchReferences, none, ih nothing]

/-- Names that are declared ahead are bound in the whole block. -/
theorem blockReferences_hoist (names : List String) (ss : List Stmt) :
    blockReferences (names.map (fun x => .bare ⟨x, some .let, none⟩) ++ ss) =
      (blockReferences ss).map (Reference.within names.reverse) := by
  induction names with
  | nil => simp
  | cons x names ih =>
    simp only [map_cons, cons_append, blockReferences, Stmt.references, Stmt.bound,
      Target.declared, ih, map_map, nil_append, reverse_cons]
    congr 1
    funext r
    simp [Reference.within]

/-! ## Free names -/

/-- There is a reference to a name without a binder of it. -/
def RefersFree (g : String) (rs : List Reference) : Prop := ∃ r ∈ rs, r.name = g ∧ g ∉ r.scope

section

variable {g : String} {rs rs' : List Reference}

@[simp]
theorem refersFree_nil : ¬ RefersFree g [] := by
  simp [RefersFree]

@[simp]
theorem refersFree_append : RefersFree g (rs ++ rs') ↔ RefersFree g rs ∨ RefersFree g rs' := by
  simp [RefersFree, or_and_right, exists_or]

/-- Binders take away the references to their names. -/
theorem refersFree_within {names : List String} :
    RefersFree g (rs.map (Reference.within names)) ↔ RefersFree g rs ∧ g ∉ names := by
  constructor
  · rintro ⟨_, member, named, free⟩
    obtain ⟨r, inside, rfl⟩ := mem_map.mp member
    rw [Reference.scope_within, mem_append, not_or] at free
    exact ⟨⟨r, inside, named, free.1⟩, free.2⟩
  · rintro ⟨⟨r, member, named, free⟩, outside⟩
    refine ⟨r.within names, mem_map_of_mem member, named, ?_⟩
    simp [free, outside]

end

theorem mem_read_without {g : String} {names : List String} {uses : List Use} :
    (⟨.read, g⟩ : Use) ∈ without names uses ↔ (⟨.read, g⟩ : Use) ∈ uses ∧ g ∉ names :=
  mem_without

mutual

/-- A plain expression has a free name where a reference to it is free. -/
theorem Expr.Plain.mem_free {g : String} : ∀ {e : Expr}, e.Plain →
    (⟨.read, g⟩ ∈ e.free ↔ RefersFree g e.references)
  | .ident n, _ => by
    simp [Expr.free, Expr.references, RefersFree, eq_comm]
  | .lit _, _ | .undefined, _ => by simp [Expr.free, Expr.references]
  | .array es, h => by
    rw [Expr.free, Expr.references]
    exact PlainExprs.mem_free h
  | .object ps, h => by
    rw [Expr.free, Expr.references]
    exact PlainProps.mem_free h
  | .member a p computed _, h => by
    rw [Expr.free, Expr.references, mem_append, refersFree_append, h.1.mem_free]
    cases computed with
    | false => simp
    | true => simp [Expr.Plain.mem_free h.2]
  | .call a es, h => by
    rw [Expr.free, Expr.references, mem_append, refersFree_append, h.1.mem_free,
      PlainExprs.mem_free h.2]
  | .new a es, h => by
    have callee : (⟨.read, g⟩ ∈ a.free ↔ RefersFree g a.references) := Expr.Plain.mem_free h.1
    have args := PlainExprs.mem_free (g := g) h.2
    rw [Expr.free, mem_append, callee, args]
    -- A constructor that is a name is referred to in another manner, but is free alike.
    cases a with
    | ident n => simp [Expr.references, RefersFree, exists_or, or_and_right]
    | _ => simp [Expr.references, or_assoc]
  | .unary _ a, h => by
    rw [Expr.free, Expr.references]
    exact Expr.Plain.mem_free (e := a) h
  | .binary a _ b, h | .logical a _ b, h => by
    rw [Expr.free, Expr.references, mem_append, refersFree_append, h.1.mem_free,
      h.2.mem_free]
  | .ternary a b c, h => by
    simp only [Expr.free, Expr.references, mem_append, refersFree_append, h.1.mem_free,
      h.2.1.mem_free, h.2.2.mem_free]
  | .arrow ps a, h => by
    rw [Expr.free, Expr.references, mem_read_without, refersFree_within, h.2.mem_free]

theorem PlainExprs.mem_free {g : String} : ∀ {es : List Expr}, PlainExprs es →
    (⟨.read, g⟩ ∈ exprsFree es ↔ RefersFree g (exprsReferences es))
  | [], _ => by simp [exprsFree, exprsReferences]
  | e :: es, h => by
    rw [exprsFree, exprsReferences, mem_append, refersFree_append, h.1.mem_free,
      h.2.mem_free]

theorem PlainProps.mem_free {g : String} : ∀ {ps : List (String × Expr)}, PlainProps ps →
    (⟨.read, g⟩ ∈ propsFree ps ↔ RefersFree g (propsReferences ps))
  | [], _ => by simp [propsFree, propsReferences]
  | (_, e) :: ps, h => by
    rw [propsFree, propsReferences, mem_append, refersFree_append, h.1.mem_free,
      h.2.mem_free]

end

end JexlScript.Script
