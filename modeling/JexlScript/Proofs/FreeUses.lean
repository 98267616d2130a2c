import JexlScript.Proofs.AlphaEq

/-!
# Free names

`Expr.free` lists the names that a script reads or assigns to and does not bind:
a parameter is bound in the body of its function, a declaration in the list of
statements that it stands in. A tree agrees with itself as soon as its free names
are linked to themselves (`Expr.alphaEq_self`).
-/

namespace JexlScript.Script

open List

/-! ## Uses of names -/

/-- What is done with a name. -/
inductive Role where
  | read
  | write
deriving DecidableEq, Repr

/-- A name with what is done with it. -/
structure Use where
  role : Role
  name : String
deriving DecidableEq, Repr

/-- The uses of names that are not bound here. -/
def without (own : List String) (uses : List Use) : List Use := uses.filter (·.name ∉ own)

theorem mem_without {own : List String} {uses : List Use} {u : Use} :
    u ∈ without own uses ↔ u ∈ uses ∧ u.name ∉ own := by
  simp [without]

mutual

/-- The names that an expression uses and does not bind. A function's declarations are bound
together with its parameters. -/
def Expr.free : Expr → List Use
  | .ident n => [⟨.read, n⟩]
  | .lit _ | .undefined => []
  | .array es => exprsFree es
  | .object ps => propsFree ps
  | .member a p computed _ => a.free ++ if computed then p.free else []
  | .call a es => a.free ++ exprsFree es
  | .new a es => a.free ++ exprsFree es
  | .unary _ a => a.free
  | .binary a _ b => a.free ++ b.free
  | .logical a _ b => a.free ++ b.free
  | .ternary a b c => a.free ++ b.free ++ c.free
  | .arrow ps a => without (paramNames ps) a.free
  | .arrowBlock ps ss => without (paramNames ps) (without (blockNames ss) (stmtsFree ss))
  | .function n ps ss =>
    without [n] (without (paramNames ps) (without (blockNames ss) (stmtsFree ss)))

def exprsFree : List Expr → List Use
  | [] => []
  | e :: es => e.free ++ exprsFree es

def propsFree : List (String × Expr) → List Use
  | [] => []
  | (_, e) :: ps => e.free ++ propsFree ps

/-- The names that a statement uses and does not bind in itself. What it declares is bound by the
list it stands in. -/
def Stmt.free : Stmt → List Use
  | .ret a => a.free
  | .retNothing => []
  | .expr a => a.free
  | .assign t a => ⟨.write, t.name⟩ :: a.free
  | .bare t => [⟨.write, t.name⟩]
  | .cond a ys ns =>
    a.free ++ without (blockNames ys) (stmtsFree ys) ++ without (blockNames ns) (stmtsFree ns)
  | .block ss => without (blockNames ss) (stmtsFree ss)
  | .function _ ps ss => without (paramNames ps) (without (blockNames ss) (stmtsFree ss))

def stmtsFree : List Stmt → List Use
  | [] => []
  | s :: ss => s.free ++ stmtsFree ss

end

theorem mem_exprsFree {u : Use} {es : List Expr} : u ∈ exprsFree es ↔ ∃ e ∈ es, u ∈ e.free := by
  induction es with
  | nil => simp [exprsFree]
  | cons e es ih => simp [exprsFree, ih]

theorem mem_propsFree {u : Use} {ps : List (String × Expr)} :
    u ∈ propsFree ps ↔ ∃ p ∈ ps, u ∈ p.2.free := by
  induction ps with
  | nil => simp [propsFree]
  | cons p ps ih => simp [propsFree, ih]

theorem mem_stmtsFree {u : Use} {ss : List Stmt} : u ∈ stmtsFree ss ↔ ∃ s ∈ ss, u ∈ s.free := by
  induction ss with
  | nil => simp [stmtsFree]
  | cons s ss ih => simp [stmtsFree, ih]

/-- The free names of a node. -/
def Node.free : Node → List Use
  | .expr e => e.free
  | .stmt s => s.free
  | .pattern _ => []
  | .program p => stmtsFree p.body

/-- Whether a node reads or assigns what it uses. -/
def Node.role? : Node → Option Role
  | .expr (.ident _) => some .read
  | .stmt (.assign ..) | .stmt (.bare _) => some .write
  | _ => none

attribute [local simp] Node.readParts Node.children Expr.children Stmt.children

/-- A free use is one of the node itself, or of a limb if the node does not own the name. -/
theorem Node.mem_free {n : Node} {u : Use} : u ∈ n.free ↔
    n.role? = some u.role ∧ u.name ∈ n.uses ∨ u.name ∉ n.owns ∧ ∃ m ∈ n.limbs, u ∈ m.free := by
  obtain ⟨role, x⟩ := u
  cases n with
  | expr e =>
    cases e with
    | member _ _ computed => cases computed <;> simp [free, Expr.free, role?]
    | _ =>
      simp [free, Expr.free, Stmt.free, role?, mem_without, mem_exprsFree, mem_propsFree] <;>
        grind
  | stmt s =>
    cases s <;> simp [free, Expr.free, Stmt.free, role?, mem_without, mem_stmtsFree] <;> grind
  | pattern => simp [free]
  | program p => simp [free, mem_stmtsFree, role?]

/-- The role of a node is part of its label. -/
theorem Node.role?_eq_of_label {m n : Node} (same : m.label = n.label) : m.role? = n.role? := by
  have of (n : Node) : n.label.role? = n.role? := by rcases n with ⟨⟨⟩⟩ | ⟨⟨⟩⟩ | _ | _ <;> rfl
  rw [← of m, same, of]

theorem Node.eq_ident_of_role? {n : Node} (read : n.role? = some .read) :
    ∃ x, n = .expr (.ident x) := by
  unfold role? at read
  split at read
  · exact ⟨_, rfl⟩
  all_goals cases read

/-! ## Free names among all names -/

/-- What a node has free is one of its names. -/
theorem Node.names_of_free {n : Node} {u : Use} (free : u ∈ n.free) :
    u.name ∈ n.names ∧ u.name ∉ n.owns ∨ u.name ∈ n.uses := by
  induction n using ofLimbs with
  | step n ih =>
    rcases mem_free.mp free with ⟨_, used⟩ | ⟨unbound, m, limb, used⟩
    · exact .inr used
    · rcases names_of_limb limb (ih m limb used) with named | used | own
      · exact .inl ⟨named, unbound⟩
      · exact .inr used
      · exact absurd own unbound

/-- Free names are names of the expression. -/
theorem Expr.name_mem_of_free {e : Expr} {u : Use} (free : u ∈ e.free) : u.name ∈ e.names :=
  (Node.names_of_free (n := .expr e) free).elim And.left names_of_uses

/-! ## Reflexivity -/

/-- What a limb uses is read or written there, or declared by the node or around
it. -/
theorem Node.uses_of_limb {m n : Node} (limb : m ∈ n.limbs) {x : String} (used : x ∈ m.uses) :
    (∃ u ∈ m.free, u.name = x) ∨ x ∈ n.owns ∨ x ∈ n.uses := by
  cases role : m.role? with
  | some r => exact .inl ⟨⟨r, x⟩, mem_free.mpr (.inl ⟨role, used⟩), rfl⟩
  | none =>
    -- what is left to use a name and is a limb is a declaration in a list of statements
    have declares : ∃ ss ps body, Stmt.function x ps body ∈ ss ∧
        (n = .stmt (.block ss) ∨ n = .program ⟨ss⟩) := by
      have declaration : (∃ ps body, m = .stmt (.function x ps body)) ∨ ∃ p, m = .program p := by
        clear limb
        rcases m with ⟨⟨⟩⟩ | ⟨⟨⟩⟩ | _ | _ <;> simp_all [role?]
      cases n with
      | expr e =>
        cases e with
        | member _ _ computed =>
          cases computed <;> grind [limbs, readParts, children, Expr.children]
        | _ => grind [limbs, readParts, children, Expr.children]
      | stmt s => cases s <;> grind [limbs, readParts, children, Stmt.children]
      | pattern => cases limb
      | program p => grind [limbs, readParts, children]
    obtain ⟨ss, ps, body, inside, parent⟩ := declares
    have bound : x ∈ blockNames ss := by
      rw [blockNames_eq]
      exact mem_flatMap.mpr ⟨_, inside, mem_cons_self⟩
    rcases parent with rfl | rfl
    · exact .inr (.inl bound)
    · exact .inr (.inr bound)

/-- A tree is equivalent to itself along links that link its free names to themselves. -/
theorem Node.alphaEq_self {links : Links} {n : Node}
    (h : ∀ x, (∃ u ∈ n.free, u.name = x) ∨ x ∈ n.uses → Linked links x x) :
    n.AlphaEq links n := by
  induction n using ofLimbs generalizing links with
  | step n ih =>
    refine alphaEq_iff.mpr ⟨rfl, forall₂_same.mpr fun x used => h x (.inr used),
      forall₂_same.mpr fun m limb => ih m limb fun x used =>
        linked_self_append linkNames_self ?_⟩
    rw [mem_fst_linkNames rfl]
    by_cases own : x ∈ n.owns
    · exact .inl own
    refine .inr (h x ?_)
    have free : (∃ u ∈ m.free, u.name = x) → ∃ u ∈ n.free, u.name = x := by
      rintro ⟨u, free, rfl⟩
      exact ⟨u, mem_free.mpr (.inr ⟨own, m, limb, free⟩), rfl⟩
    rcases used with inside | used
    · exact .inl (free inside)
    · rcases uses_of_limb limb used with inside | own' | used
      · exact .inl (free inside)
      · exact absurd own' own
      · exact .inr used

/-- Whether the free names of an expression are linked to themselves. -/
def SelfLinked (links : Links) (e : Expr) : Prop := ∀ u ∈ e.free, Linked links u.name u.name

/-- An expression is equivalent to itself along links that link its free names to themselves. -/
theorem Expr.alphaEq_self {links : Links} {e : Expr} (h : SelfLinked links e) :
    e.AlphaEq links e := by
  refine Node.alphaEq_self (n := .expr e) fun x used => ?_
  rcases used with ⟨u, free, rfl⟩ | used
  · exact h u free
  · cases e with
    | ident n => exact mem_singleton.mp used ▸ h ⟨.read, n⟩ mem_cons_self
    | _ => exact absurd used not_mem_nil

end JexlScript.Script
