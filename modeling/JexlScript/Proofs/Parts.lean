import JexlScript.Inline.Prune
import JexlScript.Script.Optional
import JexlScript.Script.Printer
import JexlScript.Script.Traversal
import Mathlib.Data.List.DropRight

/-!
# Trees by their parts

Expressions, statements and lists of them are read together as nodes with direct
parts. What a pass does to a node is said once, by its parts, and `Node.ofParts`
carries it to whole trees.
-/

namespace JexlScript.Script

open List

/-- Children are smaller than their node. -/
theorem Node.sizeOf_lt_of_mem_children {m n : Node} (h : m ∈ n.children) :
    sizeOf m < sizeOf n := by
  -- Each list of parts is at most as large as what it is made from.
  have some (ps : List Param) : 0 < sizeOf ps := by cases ps <;> simp +arith
  have pattern {ps : List Param} (h : m ∈ patternNodes ps) : sizeOf m ≤ sizeOf ps := by
    obtain ⟨p, member, is⟩ := mem_filterMap.mp h
    have smaller := sizeOf_lt_of_mem member
    cases p <;> cases is
    exact Nat.le_of_lt smaller
  have expr {es : List Expr} (h : m ∈ es.map Node.expr) : sizeOf m ≤ sizeOf es := by
    obtain ⟨e, member, rfl⟩ := mem_map.mp h
    have smaller := sizeOf_lt_of_mem member
    rw [Node.expr.sizeOf_spec]
    omega
  have stmt {ss : List Stmt} (h : m ∈ ss.map Node.stmt) : sizeOf m ≤ sizeOf ss := by
    obtain ⟨s, member, rfl⟩ := mem_map.mp h
    have smaller := sizeOf_lt_of_mem member
    rw [Node.stmt.sizeOf_spec]
    omega
  have prop {ps : List (String × Expr)} (h : m ∈ ps.map fun p => Node.expr p.2) :
      sizeOf m ≤ sizeOf ps := by
    obtain ⟨⟨k, e⟩, member, rfl⟩ := mem_map.mp h
    have smaller := sizeOf_lt_of_mem member
    rw [Prod.mk.sizeOf_spec] at smaller
    change 1 + sizeOf e ≤ _
    omega
  cases n with
  | expr e => cases e <;> grind [children, Expr.children]
  | stmt s => cases s <;> grind [children, Stmt.children]
  | pattern names => cases h
  | program p => cases p; grind [children]

theorem eq_pattern_of_mem {n : Node} {ps : List Param} (h : n ∈ patternNodes ps) :
    ∃ names, n = .pattern names := by
  obtain ⟨p, -, is⟩ := mem_filterMap.mp h
  cases p <;> cases is
  exact ⟨_, rfl⟩

/-- Induction over a tree, child by child. -/
theorem Node.ofParts {P : Node → Prop} (step : ∀ n, (∀ m ∈ n.children, P m) → P n) (n : Node) :
    P n :=
  step n fun m _ => m.ofParts step
termination_by sizeOf n
decreasing_by exact sizeOf_lt_of_mem_children ‹_›

theorem all_congr_of_mem {p q : Node → Bool} {ns : List Node} (h : ∀ n ∈ ns, p n = q n) :
    ns.all p = ns.all q := by
  induction ns with
  | nil => rfl
  | cons n ns ih =>
    obtain ⟨first, more⟩ := forall_mem_cons.mp h
    rw [all_cons, all_cons, first, ih more]

/-! ## Texts of literals -/

/-- Whether a node can be written, its children apart. Only a literal may fail to. -/
def Node.hasText : Node → Bool
  | .expr (.lit v) => v.isWritable
  | _ => true

theorem stmtsWritable_eq_all (ss : List Stmt) : stmtsWritable ss = ss.all Stmt.isWritable := by
  induction ss with
  | nil => rfl
  | cons s ss ih => rw [stmtsWritable, ih, all_cons]

/-- A node is writable if it has a text and its children are writable. -/
theorem Node.isWritable_eq (n : Node) :
    n.isWritable = (n.hasText && n.children.all Node.isWritable) := by
  have patterns (ps : List Param) : (patternNodes ps).all Node.isWritable = true := by
    induction ps with
    | nil => rfl
    | cons p ps ih => cases p <;> exact ih
  cases n with
  | expr e =>
    cases e <;> simp [isWritable, Expr.isWritable, hasText, children, Expr.children,
      exprsWritable_eq_all, propsWritable_eq_all, patterns, Stmt.isWritable, Bool.and_assoc,
      Function.comp_def]
  | stmt s =>
    cases s <;> simp [isWritable, Stmt.isWritable, hasText, children, Stmt.children,
      stmtsWritable_eq_all, patterns, Bool.and_assoc, Function.comp_def]
  | pattern names => rfl
  | program p => simp [isWritable, hasText, children, stmtsWritable_eq_all, Function.comp_def]

/-- A tree is writable if all its nodes have a text. -/
theorem Node.isWritable_eq_walk (n : Node) : n.isWritable = n.walk.all Node.hasText := by
  induction n using Node.ofParts with
  | step n ih => rw [isWritable_eq, walk_eq, all_cons, all_flatMap, all_congr_of_mem ih]

/-! ## Optional accesses -/

section

variable (defined : Path → Bool)

/-- A node with its accesses flagged by what is known to be defined. -/
def Node.withOptional (n : Node) : Node := Id.run (n.flag fun path => pure (defined path))

variable {defined}

theorem flagExprs_eq_map (es : List Expr) :
    Id.run (flagExprs (fun path => pure (defined path)) es) =
      es.map (Expr.withOptional defined) := by
  induction es with
  | nil => rfl
  | cons e es ih => simp [flagExprs, ih, Expr.withOptional]

theorem flagProps_eq_map (ps : List (String × Expr)) :
    Id.run (flagProps (fun path => pure (defined path)) ps) =
      ps.map fun p => (p.1, p.2.withOptional defined) := by
  induction ps with
  | nil => rfl
  | cons p ps ih => simp [flagProps, ih, Expr.withOptional]

theorem map_stmt_flagStmts (ss : List Stmt) :
    (Id.run (flagStmts (fun path => pure (defined path)) ss)).map Node.stmt =
      (ss.map Node.stmt).map (Node.withOptional defined) := by
  induction ss with
  | nil => rfl
  | cons s ss ih => simp [flagStmts, ih, Node.withOptional, Node.flag]

/-- Flags are set child by child. -/
theorem Node.children_withOptional (n : Node) :
    (n.withOptional defined).children = n.children.map (Node.withOptional defined) := by
  have patterns (ps : List Param) :
      (patternNodes ps).map (Node.withOptional defined) = patternNodes ps := by
    induction ps with
    | nil => rfl
    | cons p ps ih => cases p <;> simp_all [patternNodes, Node.withOptional, Node.flag]
  cases n with
  | expr e =>
    cases e <;>
      simp [Node.withOptional, Node.flag, Node.children, Expr.flag, Expr.children, Stmt.flag,
        flagExprs_eq_map, flagProps_eq_map, patterns, Expr.withOptional, Function.comp_def]
  | stmt s =>
    cases s <;>
      simp [Node.withOptional, Node.flag, Node.children, Stmt.flag, Stmt.children,
        map_stmt_flagStmts, patterns]
  | pattern names => rfl
  | program p => simp [Node.withOptional, Node.flag, Node.children, map_stmt_flagStmts]

/-- Flags do not make a tree unwritable. -/
theorem Node.isWritable_withOptional (n : Node) :
    (n.withOptional defined).isWritable = n.isWritable := by
  induction n using Node.ofParts with
  | step n ih =>
    have own : (n.withOptional defined).hasText = n.hasText := by
      rcases n with ⟨⟨⟩⟩ | _ | _ | _ <;> rfl
    rw [isWritable_eq, n.isWritable_eq, own, children_withOptional, all_map]
    exact congrArg (n.hasText && ·) (all_congr_of_mem ih)

end

/-! ## Dropped arguments -/

/-- A node without trailing placeholders in its calls. -/
def Node.prune : Node → Node
  | .expr e => .expr e.prune
  | .stmt s => .stmt s.prune
  | .pattern names => .pattern names
  | .program p => .program ⟨pruneStmts p.body⟩

theorem pruneExprs_eq_map (es : List Expr) : pruneExprs es = es.map Expr.prune := by
  induction es with
  | nil => rfl
  | cons e es ih => rw [pruneExprs, ih, map_cons]

theorem pruneProps_eq_map (ps : List (String × Expr)) :
    pruneProps ps = ps.map fun p => (p.1, p.2.prune) := by
  induction ps with
  | nil => rfl
  | cons p ps ih => rw [pruneProps, ih, map_cons]

theorem pruneStmts_eq_map (ss : List Stmt) : pruneStmts ss = ss.map Stmt.prune := by
  induction ss with
  | nil => rfl
  | cons s ss ih => rw [pruneStmts, ih, map_cons]

/-- Only a call loses children. -/
theorem Node.children_prune {n : Node} (other : ∀ f args, n ≠ .expr (.call f args)) :
    n.prune.children = n.children.map Node.prune := by
  have patterns (ps : List Param) : (patternNodes ps).map Node.prune = patternNodes ps := by
    induction ps with
    | nil => rfl
    | cons p ps ih => cases p <;> simp_all [patternNodes, Node.prune]
  cases n with
  | expr e =>
    cases e with
    | call f args => exact absurd rfl (other f args)
    | _ => simp [prune, children, Expr.prune, Expr.children, pruneExprs_eq_map,
        pruneProps_eq_map, patterns, Stmt.prune, Function.comp_def]
  | stmt s =>
    cases s <;> simp [prune, children, Stmt.prune, Stmt.children, pruneStmts_eq_map,
      patterns, Function.comp_def]
  | pattern names => rfl
  | program p => simp [prune, children, pruneStmts_eq_map, Function.comp_def]

/-- Dropping placeholders from the end is a known function on lists. -/
theorem dropTrailingUndefined_eq (es : List Expr) :
    dropTrailingUndefined es = es.rdropWhile Expr.isUndefined := by
  induction es with
  | nil => rfl
  | cons e es ih =>
    rw [dropTrailingUndefined, ih]
    simp only [List.rdropWhile, reverse_cons, dropWhile_append]
    cases es.reverse.dropWhile Expr.isUndefined with
    | nil => cases h : e.isUndefined <;> simp [h]
    | cons => simp

theorem rdropWhile_subset (es : List Expr) : es.rdropWhile Expr.isUndefined ⊆ es := by
  have kept := rdropWhile_prefix Expr.isUndefined es
  exact kept.subset

/-- A placeholder is writable, so dropping it does not matter. -/
theorem all_isWritable_dropTrailingUndefined : ∀ es : List Expr,
    (dropTrailingUndefined es).all Expr.isWritable = es.all Expr.isWritable
  | [] => rfl
  | e :: es => by
    have rest := all_isWritable_dropTrailingUndefined es
    rw [dropTrailingUndefined, all_cons, ← rest]
    cases dropTrailingUndefined es with
    | nil =>
      cases e <;> simp [Expr.isUndefined, Expr.isWritable]
    | cons => rfl

/-- Pruning does not change whether a tree is writable. -/
theorem Node.isWritable_prune (n : Node) : n.prune.isWritable = n.isWritable := by
  induction n using Node.ofParts with
  | step n ih =>
    have parts : n.prune.children.all isWritable = (n.children.map prune).all isWritable := by
      by_cases call : ∃ f args, n = .expr (.call f args)
      · obtain ⟨f, args, rfl⟩ := call
        simp only [prune, Expr.prune, children, Expr.children, all_cons, all_map,
          map_cons, map_map]
        congr 1
        exact (all_isWritable_dropTrailingUndefined _).trans (by
          rw [pruneExprs_eq_map, all_map]
          rfl)
      · rw [children_prune fun f args is => call ⟨f, args, is⟩]
    have own : n.prune.hasText = n.hasText := by
      rcases n with ⟨⟨⟩⟩ | _ | _ | _ <;> rfl
    rw [isWritable_eq, n.isWritable_eq, own, parts, all_map]
    exact congrArg (n.hasText && ·) (all_congr_of_mem ih)

end JexlScript.Script
