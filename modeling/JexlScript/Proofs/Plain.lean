import JexlScript.Proofs.AlphaEq
import JexlScript.Proofs.NameLists
import JexlScript.Inline.Substitution

/-!
# Plain scripts

The scripts of routines are plain: every function in them is an arrow with
single names as parameters and an expression as its body, and statements declare
names only in the outermost list. In a plain script the declarations that are
collected for a scope are just those of its own list of statements.
-/

namespace JexlScript.Script

open List

/-- Parameters that are single names. -/
def PlainParams (ps : List Param) : Prop := ∀ p ∈ ps, ∃ n, p = .name n

mutual

/-- An expression whose functions are arrows with single names and an expression as the body. -/
def Expr.Plain : Expr → Prop
  | .ident _ | .lit _ | .undefined => True
  | .array es => PlainExprs es
  | .object ps => PlainProps ps
  | .member a p _ _ => a.Plain ∧ p.Plain
  | .call a es => a.Plain ∧ PlainExprs es
  | .new a es => a.Plain ∧ PlainExprs es
  | .unary _ a => a.Plain
  | .binary a _ b => a.Plain ∧ b.Plain
  | .logical a _ b => a.Plain ∧ b.Plain
  | .ternary a b c => a.Plain ∧ b.Plain ∧ c.Plain
  | .arrow ps a => PlainParams ps ∧ a.Plain
  | .arrowBlock .. | .function .. => False

def PlainExprs : List Expr → Prop
  | [] => True
  | e :: es => e.Plain ∧ PlainExprs es

def PlainProps : List (String × Expr) → Prop
  | [] => True
  | (_, e) :: ps => e.Plain ∧ PlainProps ps

end

mutual

/-- A statement of a plain routine. Branches declare nothing, and there are no functions or
blocks. -/
def Stmt.Plain : Stmt → Prop
  | .ret a | .expr a | .assign _ a => a.Plain
  | .retNothing | .bare _ => True
  | .cond a ys ns =>
    a.Plain ∧ (PlainStmts ys ∧ stmtDeclarations ys = []) ∧ PlainStmts ns ∧ stmtDeclarations ns = []
  | .block _ | .function .. => False

def PlainStmts : List Stmt → Prop
  | [] => True
  | s :: ss => s.Plain ∧ PlainStmts ss

end

/-! ## Parts of plain expressions -/

theorem plainExprs_iff {es : List Expr} : PlainExprs es ↔ ∀ e ∈ es, e.Plain := by
  induction es with
  | nil => simp [PlainExprs]
  | cons e es ih => simp [PlainExprs, ih]

theorem plainProps_iff {ps : List (String × Expr)} : PlainProps ps ↔ ∀ p ∈ ps, p.2.Plain := by
  induction ps with
  | nil => simp [PlainProps]
  | cons p ps ih => simp [PlainProps, ih]

/-- The parts of a plain expression are plain expressions. -/
theorem Expr.Plain.parts {e : Expr} (h : e.Plain) :
    ∀ m ∈ e.children, ∃ a : Expr, m = .expr a ∧ a.Plain := by
  cases e with
  | arrow ps a =>
    have names : patternNodes ps = [] := by
      refine filterMap_eq_nil_iff.mpr fun p member => ?_
      obtain ⟨n, rfl⟩ := h.1 p member
      rfl
    simp [children, names, h.2]
  | arrowBlock | function => exact h.elim
  | _ => simp_all [Plain, children, plainExprs_iff, plainProps_iff] <;> grind

/-- Induction over a plain expression, part by part. -/
theorem Expr.Plain.ofParts {P : Node → Prop}
    (step : ∀ e : Expr, e.Plain → (∀ m ∈ e.children, P m) → P (.expr e)) {e : Expr}
    (h : e.Plain) : P (.expr e) := by
  have all (n : Node) : (∃ e : Expr, n = .expr e ∧ e.Plain) → P n := by
    induction n using Node.ofParts with
    | step n ih =>
      rintro ⟨e, rfl, plain⟩
      exact step e plain fun m part => ih m part (plain.parts m part)
  exact all (.expr e) ⟨e, rfl, h⟩

/-! ## Declarations of plain scripts -/

/-- The declarations that are collected for the scope of a node. -/
def Node.declarations : Node → List String
  | .expr e => e.declarations
  | .stmt s => s.declarations
  | .pattern _ => []
  | .program p => stmtDeclarations p.body

/-- What stands later comes first, since the walk keeps a stack. -/
theorem Node.declarations_eq (n : Node) :
    n.declarations = n.declared ++ n.openParts.reverse.flatMap Node.declarations := by
  -- Lists of parts are gone through from the end, as a stack does.
  have exprs (es : List Expr) :
      exprDeclarations es = (es.map Node.expr).reverse.flatMap Node.declarations := by
    induction es with
    | nil => rfl
    | cons e es ih => simp [exprDeclarations, ih, Node.declarations]
  have props (ps : List (String × Expr)) : propDeclarations ps =
      (ps.map fun p => Node.expr p.2).reverse.flatMap Node.declarations := by
    induction ps with
    | nil => rfl
    | cons p ps ih => simp [propDeclarations, ih, Node.declarations]
  have stmts (ss : List Stmt) :
      stmtDeclarations ss = (ss.map Node.stmt).reverse.flatMap Node.declarations := by
    induction ss with
    | nil => rfl
    | cons s ss ih => simp [stmtDeclarations, ih, Node.declarations]
  have patterns (ps : List Param) :
      (patternNodes ps).reverse.flatMap Node.declarations = [] := by
    refine flatMap_eq_nil_iff.mpr fun n member => ?_
    obtain ⟨names, rfl⟩ := eq_pattern_of_mem (mem_reverse.mp member)
    rfl
  cases n with
  | expr e =>
    cases e <;> simp [declarations, Expr.declarations, declared, openParts, isArrow, children,
      Expr.children, exprs, props, stmts, patterns, Stmt.declarations]
  | stmt s =>
    cases s <;> simp [declarations, Stmt.declarations, declared, openParts, isArrow, children,
      Stmt.children, stmts, patterns]
  | pattern names => rfl
  | program p => simp [declarations, declared, openParts, isArrow, children, stmts]

/-- A plain expression declares nothing. -/
theorem Expr.Plain.declarations_eq_nil {e : Expr} (h : e.Plain) : e.declarations = [] := by
  refine h.ofParts (P := fun n => n.declarations = []) fun e _ ih => ?_
  rw [Node.declarations_eq, append_eq_nil_iff, flatMap_eq_nil_iff]
  exact ⟨rfl, fun m opened => ih m ((Node.openParts_sublist _).subset (mem_reverse.mp opened))⟩

/-- What is collected from a plain statement is what it binds itself. -/
theorem Stmt.Plain.declarations_eq {s : Stmt} (h : s.Plain) : s.declarations = s.bound := by
  cases s with
  | ret a | expr a => exact Expr.Plain.declarations_eq_nil (e := a) h
  | retNothing | bare t => rfl
  | assign t a =>
    rw [Stmt.declarations, Expr.Plain.declarations_eq_nil (e := a) h, append_nil]
    rfl
  | cond a ys ns =>
    obtain ⟨plain, ⟨_, yes⟩, _, no⟩ := h
    rw [Stmt.declarations, plain.declarations_eq_nil, yes, no]
    rfl
  | block ss | function n ps ss => exact absurd h id

/-- Collected from a plain list are the names that it binds. -/
theorem PlainStmts.mem_declarations {x : String} : ∀ {ss : List Stmt}, PlainStmts ss →
    (x ∈ stmtDeclarations ss ↔ x ∈ blockNames ss)
  | [], _ => Iff.rfl
  | s :: ss, h => by
    rw [stmtDeclarations, blockNames, mem_append, mem_append, h.1.declarations_eq,
      h.2.mem_declarations, or_comm]

theorem Stmt.Plain.bound_subset {s : Stmt} (h : s.Plain) : s.bound ⊆ s.names := by
  intro x hx
  cases s with
  | assign t a =>
    rw [Stmt.bound, Target.declared] at hx
    split at hx
    · exact mem_cons.mpr (.inl (mem_singleton.mp hx))
    · exact absurd hx not_mem_nil
  | bare t =>
    rw [Stmt.bound, Target.declared] at hx
    split at hx
    · exact hx
    · exact absurd hx not_mem_nil
  | function n ps ss => exact absurd h id
  | _ => exact absurd hx not_mem_nil

/-- What a plain list binds is among its names. -/
theorem PlainStmts.blockNames_subset : ∀ {ss : List Stmt}, PlainStmts ss →
    blockNames ss ⊆ stmtNames ss
  | [], _ => nil_subset _
  | s :: ss, h => by
    intro x hx
    rcases mem_append.mp hx with hx | hx
    · exact mem_append_left _ (h.1.bound_subset hx)
    · exact mem_append_right _ (PlainStmts.blockNames_subset h.2 hx)

/-- A list from which nothing is collected binds nothing. -/
theorem PlainStmts.blockNames_eq_nil {ss : List Stmt} (h : PlainStmts ss)
    (nothing : stmtDeclarations ss = []) : blockNames ss = [] := by
  refine eq_nil_iff_forall_not_mem.mpr fun x hx => ?_
  have := h.mem_declarations.mpr hx
  rw [nothing] at this
  exact absurd this not_mem_nil

/-! ## Parameters that are single names -/

theorem PlainParams.tail {p : Param} {ps : List Param} (h : PlainParams (p :: ps)) :
    PlainParams ps := fun q hq => h q (mem_cons_of_mem _ hq)

/-- Plain parameters are all named. -/
theorem PlainParams.filterMap_name? : ∀ {ps : List Param}, PlainParams ps →
    ps.filterMap Param.name? = paramNames ps
  | [], _ => rfl
  | p :: ps, h => by
    obtain ⟨n, rfl⟩ := h p mem_cons_self
    rw [paramNames_cons, ← h.tail.filterMap_name?]
    rfl

end JexlScript.Script
