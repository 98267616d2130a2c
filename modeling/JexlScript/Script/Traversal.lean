import JexlScript.Script.Walk

/-!
# Going through a tree with a stack

A loop takes the node on top of a stack, visits it and pushes some of its parts,
until the stack is empty. `Node.visited` collects all nodes that way,
`Node.referenced` the names that are read or bound, and `Node.declaredNames` those
that a body declares outside its arrows.
-/

namespace JexlScript.Script

open List

theorem Node.walk_eq (n : Node) : n.walk = n :: n.children.flatMap Node.walk := by
  have exprs (es : List Expr) : walkExprs es = (es.map Node.expr).flatMap Node.walk := by
    induction es with
    | nil => rfl
    | cons e es ih => simp [walkExprs, ih, Node.walk]
  have props (ps : List (String × Expr)) :
      walkProps ps = (ps.map fun p => Node.expr p.2).flatMap Node.walk := by
    induction ps with
    | nil => rfl
    | cons p ps ih => simp [walkProps, ih, Node.walk]
  have stmts (ss : List Stmt) : walkStmts ss = (ss.map Node.stmt).flatMap Node.walk := by
    induction ss with
    | nil => rfl
    | cons s ss ih => simp [walkStmts, ih, Node.walk]
  have patterns (ps : List Param) : (patternNodes ps).flatMap Node.walk = patternNodes ps := by
    induction ps with
    | nil => rfl
    | cons p ps ih => cases p <;> simp_all [patternNodes, Node.walk]
  cases n with
  | expr e =>
    cases e <;> simp [walk, Expr.walk, children, Expr.children, exprs, props, stmts, patterns,
      Stmt.walk]
  | stmt s => cases s <;> simp [walk, Stmt.walk, children, Stmt.children, stmts, patterns]
  | pattern names => rfl
  | program p => simp [walk, children, stmts]

/-- A way to go through a tree with a stack. -/
structure Traversal (σ : Type) where
  /-- What a node adds to the result. -/
  visit : σ → Node → σ
  /-- The parts of a node that are pushed once it is visited. -/
  opens : Node → List Node
  opens_sublist : ∀ n, opens n <+ n.children
  /-- Whether the first part is pushed last, so that it is visited next. -/
  firstOnTop : Bool

/-- The number of nodes in the trees on a stack. -/
def pending (stack : List Node) : Nat := (stack.flatMap Node.walk).length

theorem pending_le_of_sublist {ns ms : List Node} (h : ns <+ ms) : pending ns ≤ pending ms := by
  induction h with
  | slnil => exact Nat.le_refl _
  | cons m _ ih => simp only [pending, flatMap_cons, length_append] at ih ⊢; omega
  | cons_cons m _ ih => simp only [pending, flatMap_cons, length_append] at ih ⊢; omega

namespace Traversal

variable {σ : Type} (t : Traversal σ)

/-- The pushed parts of a node, from the top. -/
def next (n : Node) : List Node :=
  if t.firstOnTop then t.opens n else (t.opens n).reverse

theorem next_perm (n : Node) : t.next n ~ t.opens n := by
  unfold next
  split
  · exact .refl _
  · exact reverse_perm _

theorem pending_next (n : Node) (stack : List Node) :
    pending (t.next n ++ stack) < pending (n :: stack) := by
  have parts : pending (t.next n) ≤ pending n.children := by
    rw [pending, ((t.next_perm n).flatMap_right _).length_eq]
    exact pending_le_of_sublist (t.opens_sublist n)
  simp only [pending, flatMap_append, flatMap_cons, length_append, n.walk_eq, length_cons] at *
  omega

/-- Every round leaves fewer nodes in the trees on the stack. -/
def run (result : σ) : List Node → σ
  | [] => result
  | n :: stack => run (t.visit result n) (t.next n ++ stack)
termination_by stack => pending stack
decreasing_by exact t.pending_next n stack

end Traversal

/-! ## All nodes -/

def Traversal.preorder : Traversal (List Node) where
  visit nodes n := nodes ++ [n]
  opens := Node.children
  opens_sublist n := .refl n.children
  firstOnTop := true

def Node.visited (n : Node) : List Node := Traversal.preorder.run [] [n]

/-! ## Names read or bound -/

/-- The parts of a node that names are read in: the property of a plain access is a key. -/
def Node.readParts : Node → List Node
  | .expr (.member obj _ false _) => [.expr obj]
  | n => n.children

theorem Node.readParts_sublist (n : Node) : n.readParts <+ n.children := by
  unfold readParts
  split
  · exact .cons_cons _ (nil_sublist _)
  · exact .refl _

/-- The names that a node itself reads, binds or assigns, other than as a function with
a name. -/
def Node.named : Node → List String
  | .expr (.ident n) => [n]
  | .expr (.arrow ps _) | .expr (.arrowBlock ps _) => paramNames ps
  | .stmt (.assign t _) | .stmt (.bare t) => [t.name]
  | _ => []

def Traversal.references : Traversal (List String) where
  visit names n := n.named.foldl Names.add names
  opens := Node.readParts
  opens_sublist := Node.readParts_sublist
  firstOnTop := false

def Node.referenced (n : Node) : List String := Traversal.references.run [] [n]

/-! ## Names declared in a body -/

def Node.isArrow : Node → Bool
  | .expr (.arrow ..) | .expr (.arrowBlock ..) => true
  | _ => false

def Node.declared : Node → List String
  | .stmt (.assign t _) | .stmt (.bare t) => t.declared
  | _ => []

/-- The parts of a node that are not inside an arrow. -/
def Node.openParts (n : Node) : List Node := if n.isArrow then [] else n.children

theorem Node.openParts_sublist (n : Node) : n.openParts <+ n.children := by
  unfold openParts
  split
  · exact nil_sublist _
  · exact .refl _

def Traversal.declarations : Traversal (List String) where
  visit names n := n.declared.foldl Names.add names
  opens := Node.openParts
  opens_sublist := Node.openParts_sublist
  firstOnTop := false

def Node.declaredNames (n : Node) : List String := Traversal.declarations.run [] [n]

end JexlScript.Script
