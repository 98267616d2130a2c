import JexlScript.Proofs.Parts
import Mathlib.Data.List.Forall2
import Mathlib.Data.List.Zip

/-!
# Trees up to the names they bind

Two trees are alpha-equivalent when they differ only in the names of their
parameters and declarations. A parameter is bound in the body of its function, a
declaration in the whole list of statements it stands in; names taken out of an
object say which properties are read, so they must agree. The links between the
bound names of the two trees are kept innermost first, and of two parameters
with one name the later counts. `Node.alphaEq_iff` says it node by node, and
inductions over a tree go through the limbs of a node.
-/

namespace JexlScript.Script

open List

/-! ## Links between bound names -/

/-- Bound names of one tree with those of another, innermost first. -/
abbrev Links := List (String × String)

/-- Whether two names stand for the same binder, or for none and are the same. -/
def Linked : Links → String → String → Prop
  | [], x, y => x = y
  | (a, b) :: links, x, y => x = a ∧ y = b ∨ x ≠ a ∧ y ≠ b ∧ Linked links x y

/-- Of several binders with one name the last counts, so it comes first. -/
def linkNames (xs ys : List String) : Links := (xs.zip ys).reverse

/-- Whether parameters are of the same kinds. A pattern also fixes the properties it reads. -/
def ParamsFit : List Param → List Param → Prop
  | [], [] => True
  | .name _ :: ps, .name _ :: qs => ParamsFit ps qs
  | .pattern ns :: ps, .pattern ms :: qs => ns = ms ∧ ParamsFit ps qs
  | _, _ => False

def linkParams (ps qs : List Param) : Links := linkNames (paramNames ps) (paramNames qs)

/-- The names that a statement declares in the list it stands in. -/
def Stmt.bound : Stmt → List String
  | .assign t _ | .bare t => t.declared
  | .function n _ _ => [n]
  | .ret _ | .retNothing | .expr _ | .cond .. | .block _ => []

def blockNames : List Stmt → List String
  | [] => []
  | s :: ss => s.bound ++ blockNames ss

def linkBlocks (ss ts : List Stmt) : Links := linkNames (blockNames ss) (blockNames ts)

/-- The name of a target is linked; how it is assigned to must be the same. -/
def Target.AlphaEq (links : Links) (t u : Target) : Prop :=
  Linked links t.name u.name ∧ t.declare = u.declare ∧ t.op = u.op

/-! ## Alpha-equivalence -/

mutual

/-- Two expressions differ at most in the names that they bind, where the links
hold around them. -/
inductive Expr.AlphaEq : Links → Expr → Expr → Prop
  | ident {links x y} : Linked links x y → Expr.AlphaEq links (.ident x) (.ident y)
  | lit {links v} : Expr.AlphaEq links (.lit v) (.lit v)
  | undefined {links} : Expr.AlphaEq links .undefined .undefined
  | array {links es fs} : AlphaEqExprs links es fs → Expr.AlphaEq links (.array es) (.array fs)
  | object {links ps qs} : AlphaEqProps links ps qs → Expr.AlphaEq links (.object ps) (.object qs)
  | index {links a b p q o} : Expr.AlphaEq links a b → Expr.AlphaEq links p q →
      Expr.AlphaEq links (.member a p true o) (.member b q true o)
  /-- The property of a plain access is not a name that could be bound. -/
  | dot {links a b p o} : Expr.AlphaEq links a b →
      Expr.AlphaEq links (.member a p false o) (.member b p false o)
  | call {links a b es fs} : Expr.AlphaEq links a b → AlphaEqExprs links es fs →
      Expr.AlphaEq links (.call a es) (.call b fs)
  | new {links a b es fs} : Expr.AlphaEq links a b → AlphaEqExprs links es fs →
      Expr.AlphaEq links (.new a es) (.new b fs)
  | unary {links op a b} : Expr.AlphaEq links a b → Expr.AlphaEq links (.unary op a) (.unary op b)
  | binary {links op a b c d} : Expr.AlphaEq links a c → Expr.AlphaEq links b d →
      Expr.AlphaEq links (.binary a op b) (.binary c op d)
  | logical {links op a b c d} : Expr.AlphaEq links a c → Expr.AlphaEq links b d →
      Expr.AlphaEq links (.logical a op b) (.logical c op d)
  | ternary {links a b c d e f} :
      Expr.AlphaEq links a d → Expr.AlphaEq links b e → Expr.AlphaEq links c f →
      Expr.AlphaEq links (.ternary a b c) (.ternary d e f)
  | arrow {links ps qs a b} : ParamsFit ps qs → Expr.AlphaEq (linkParams ps qs ++ links) a b →
      Expr.AlphaEq links (.arrow ps a) (.arrow qs b)
  | arrowBlock {links ps qs ss ts} : ParamsFit ps qs →
      AlphaEqStmts (linkBlocks ss ts ++ (linkParams ps qs ++ links)) ss ts →
      Expr.AlphaEq links (.arrowBlock ps ss) (.arrowBlock qs ts)
  /-- A function in the place of a value binds its own name for its body only. -/
  | function {links n m ps qs ss ts} : ParamsFit ps qs →
      AlphaEqStmts (linkBlocks ss ts ++ (linkParams ps qs ++ (n, m) :: links)) ss ts →
      Expr.AlphaEq links (.function n ps ss) (.function m qs ts)

/-- Two lists of expressions agree one by one. -/
inductive AlphaEqExprs : Links → List Expr → List Expr → Prop
  | nil {links} : AlphaEqExprs links [] []
  | cons {links e f es fs} : Expr.AlphaEq links e f → AlphaEqExprs links es fs →
      AlphaEqExprs links (e :: es) (f :: fs)

/-- Two lists of properties agree one by one. -/
inductive AlphaEqProps : Links → List (String × Expr) → List (String × Expr) → Prop
  | nil {links} : AlphaEqProps links [] []
  | cons {links k e f ps qs} : Expr.AlphaEq links e f → AlphaEqProps links ps qs →
      AlphaEqProps links ((k, e) :: ps) ((k, f) :: qs)

/-- Two statements differ at most in the names that they bind. What a statement
binds in the list it stands in is among the links. -/
inductive Stmt.AlphaEq : Links → Stmt → Stmt → Prop
  | ret {links a b} : Expr.AlphaEq links a b → Stmt.AlphaEq links (.ret a) (.ret b)
  | retNothing {links} : Stmt.AlphaEq links .retNothing .retNothing
  | expr {links a b} : Expr.AlphaEq links a b → Stmt.AlphaEq links (.expr a) (.expr b)
  | assign {links t u a b} : Target.AlphaEq links t u → Expr.AlphaEq links a b →
      Stmt.AlphaEq links (.assign t a) (.assign u b)
  | bare {links t u} : Target.AlphaEq links t u → Stmt.AlphaEq links (.bare t) (.bare u)
  | cond {links a b ys zs ns ms} : Expr.AlphaEq links a b →
      AlphaEqStmts (linkBlocks ys zs ++ links) ys zs →
      AlphaEqStmts (linkBlocks ns ms ++ links) ns ms →
      Stmt.AlphaEq links (.cond a ys ns) (.cond b zs ms)
  | block {links ss ts} : AlphaEqStmts (linkBlocks ss ts ++ links) ss ts →
      Stmt.AlphaEq links (.block ss) (.block ts)
  | function {links n m ps qs ss ts} : Linked links n m → ParamsFit ps qs →
      AlphaEqStmts (linkBlocks ss ts ++ (linkParams ps qs ++ links)) ss ts →
      Stmt.AlphaEq links (.function n ps ss) (.function m qs ts)

/-- Two lists of statements agree one by one. -/
inductive AlphaEqStmts : Links → List Stmt → List Stmt → Prop
  | nil {links} : AlphaEqStmts links [] []
  | cons {links s t ss ts} : Stmt.AlphaEq links s t → AlphaEqStmts links ss ts →
      AlphaEqStmts links (s :: ss) (t :: ts)

end

/-! ## Linked names -/

/-- A name is looked for among the inner links first, on both sides. -/
theorem linked_append {inner links : Links} {x y : String} :
    Linked (inner ++ links) x y ↔
      Linked inner x y ∧ x ∈ inner.map Prod.fst ∧ y ∈ inner.map Prod.snd ∨
        x ∉ inner.map Prod.fst ∧ y ∉ inner.map Prod.snd ∧ Linked links x y := by
  induction inner with
  | nil => simp
  | cons p inner ih =>
    obtain ⟨a, b⟩ := p
    simp only [cons_append, Linked, ih, map_cons, mem_cons, not_or]
    grind

theorem mem_fst_linkNames {xs ys : List String} (same : xs.length = ys.length) {x : String} :
    x ∈ (linkNames xs ys).map Prod.fst ↔ x ∈ xs := by
  rw [linkNames, map_reverse, mem_reverse, map_fst_zip (by omega)]

theorem mem_snd_linkNames {xs ys : List String} (same : xs.length = ys.length) {y : String} :
    y ∈ (linkNames xs ys).map Prod.snd ↔ y ∈ ys := by
  rw [linkNames, map_reverse, mem_reverse, map_snd_zip (by omega)]

/-- Inner links that rename by `r` link a name to its image, if no other name there shares it. -/
theorem linked_image_append {r : String → String} {inner links : Links} {x : String}
    (graph : ∀ p ∈ inner, p.2 = r p.1) (inj : ∀ p ∈ inner, r p.1 = r x → p.1 = x)
    (h : x ∈ inner.map Prod.fst ∨ Linked links x (r x)) : Linked (inner ++ links) x (r x) := by
  induction inner with
  | nil => simpa using h
  | cons p inner ih =>
    obtain ⟨a, b⟩ := p
    obtain rfl : b = r a := graph (a, b) mem_cons_self
    by_cases hx : x = a
    · exact .inl ⟨hx, congrArg r hx⟩
    · refine .inr ⟨hx, fun hr => hx (inj _ mem_cons_self hr.symm).symm, ih ?_ ?_ ?_⟩
      · exact fun p hp => graph p (mem_cons_of_mem _ hp)
      · exact fun p hp => inj p (mem_cons_of_mem _ hp)
      · simpa [hx] using h

theorem linked_self_append {inner links : Links} {x : String}
    (diagonal : ∀ p ∈ inner, p.1 = p.2) (h : x ∈ inner.map Prod.fst ∨ Linked links x x) :
    Linked (inner ++ links) x x :=
  linked_image_append (r := id) (fun p hp => (diagonal p hp).symm) (fun _ _ hp => hp) h

/-- Entering a scope that renames its own names by `r` keeps a name linked to its image. -/
theorem linked_linkNames_map {r : String → String} {own : List String} {links : Links} {x : String}
    (inj : ∀ p ∈ own, r p = r x → p = x) (h : x ∉ own → Linked links x (r x)) :
    Linked (linkNames own (own.map r) ++ links) x (r x) := by
  have same : own.length = (own.map r).length := (length_map r).symm
  refine linked_image_append (fun p hp => ?_) (fun p hp => inj p.1 ?_) ?_
  · rw [linkNames, mem_reverse] at hp
    obtain ⟨i, hi, hxi⟩ := mem_iff_getElem.mp hp
    rw [← hxi, getElem_zip, getElem_map]
  · exact (mem_fst_linkNames same).mp (mem_map_of_mem hp)
  · rw [mem_fst_linkNames same]
    by_cases hx : x ∈ own
    · exact .inl hx
    · exact .inr (h hx)

theorem linkNames_self {xs : List String} : ∀ p ∈ linkNames xs xs, p.1 = p.2 := by
  intro p hp
  rw [linkNames, mem_reverse] at hp
  obtain ⟨i, hi, hxi⟩ := mem_iff_getElem.mp hp
  rw [← hxi, getElem_zip]

/-! ## Parameter lists and lists of statements -/

/-- The names of a parameter come before those of the parameters after it. -/
theorem paramNames_cons (p : Param) (ps : List Param) :
    paramNames (p :: ps) = p.names ++ paramNames ps := rfl

/-- Parameters that fit bind the same number of names. -/
theorem ParamsFit.length_eq : ∀ {ps qs : List Param}, ParamsFit ps qs →
    (paramNames ps).length = (paramNames qs).length
  | [], [], _ => rfl
  | .name _ :: ps, .name _ :: qs, h => by
    have rest := @ParamsFit.length_eq ps qs h
    simp only [paramNames_cons, length_append, rest, Param.names, length_singleton]
  | .pattern _ :: ps, .pattern _ :: qs, h => by
    obtain ⟨rfl, h⟩ := h
    simp only [paramNames_cons, length_append, h.length_eq]

theorem Target.AlphaEq.declared_length {t u : Target} {links : Links} (h : t.AlphaEq links u) :
    t.declared.length = u.declared.length := by
  rw [Target.declared, Target.declared, h.2.1]
  split <;> rfl

/-- Equivalent statements declare the same number of names. -/
theorem Stmt.AlphaEq.bound_length {s t : Stmt} {links : Links} (h : s.AlphaEq links t) :
    s.bound.length = t.bound.length := by
  cases h with
  | assign target _ => exact target.declared_length
  | bare target => exact target.declared_length
  | _ => rfl

theorem AlphaEqStmts.length_eq : ∀ {links : Links} {ss ts : List Stmt},
    AlphaEqStmts links ss ts → (blockNames ss).length = (blockNames ts).length
  | _, _, _, .nil => rfl
  | _, _, _, .cons h hs => by
    simp only [blockNames, length_append, h.bound_length, hs.length_eq]

/-! ## Nodes by their scopes

A node is known by its label, the names that it uses, those that it binds, and its limbs, in
which these are bound. -/

/-- A function is an arrow that knows its name, and a branch of a condition is a block. -/
@[simp] def Node.limbs : Node → List Node
  | .expr (.arrow _ body) => [.expr body]
  | .expr (.arrowBlock _ body) => [.stmt (.block body)]
  | .expr (.function _ ps body) | .stmt (.function _ ps body) => [.expr (.arrowBlock ps body)]
  | .stmt (.cond c yes no) => [.expr c, .stmt (.block yes), .stmt (.block no)]
  | n => n.readParts

/-- The names that a node binds in its limbs. -/
@[simp] def Node.owns : Node → List String
  | .expr (.arrow ps _) | .expr (.arrowBlock ps _) => paramNames ps
  | .expr (.function n _ _) => [n]
  | .stmt (.block ss) => blockNames ss
  | _ => []

/-- The names of a node that are linked where the node stands, outside of what it owns. -/
@[simp] def Node.uses : Node → List String
  | .expr (.ident n) | .stmt (.function n _ _) => [n]
  | .stmt (.assign t _) | .stmt (.bare t) => [t.name]
  | .program p => blockNames p.body
  | _ => []

/-- A parameter without the name that it may be renamed to. -/
def Param.label : Param → Param
  | .name _ => .name ""
  | .pattern names => .pattern names

/-- An expression without its limbs and the names that it uses or binds. -/
@[simp] def Expr.label : Expr → Expr
  | .ident _ => .ident ""
  | .lit v => .lit v
  | .undefined => .undefined
  | .array _ => .array []
  | .object ps => .object (ps.map fun p => (p.1, .undefined))
  | .member _ p computed o => .member .undefined (if computed then .undefined else p) computed o
  | .call .. => .call .undefined []
  | .new .. => .new .undefined []
  | .unary op _ => .unary op .undefined
  | .binary _ op _ => .binary .undefined op .undefined
  | .logical _ op _ => .logical .undefined op .undefined
  | .ternary .. => .ternary .undefined .undefined .undefined
  | .arrow ps _ => .arrow (ps.map Param.label) .undefined
  | .arrowBlock ps _ => .arrowBlock (ps.map Param.label) []
  | .function .. => .function "" [] []

/-- What remains of a statement without its limbs and the names it may rename. -/
@[simp] def Stmt.label : Stmt → Stmt
  | .ret _ => .ret .undefined
  | .retNothing => .retNothing
  | .expr _ => .expr .undefined
  | .assign t _ => .assign { t with name := "" } .undefined
  | .bare t => .bare { t with name := "" }
  | .cond .. => .cond .undefined [] []
  | .block _ => .block []
  | .function .. => .function "" [] []

/-- What equivalent nodes have in common: their kind and all that is never renamed. -/
@[simp] def Node.label : Node → Node
  | .expr e => .expr e.label
  | .stmt s => .stmt s.label
  | .pattern names => .pattern names
  | .program _ => .program ⟨[]⟩

/-- Limbs are smaller than what they belong to. -/
theorem Node.sizeOf_lt_of_mem_limbs {m n : Node} (h : m ∈ n.limbs) : sizeOf m < sizeOf n := by
  have params (ps : List Param) : 0 < sizeOf ps := by cases ps <;> simp +arith
  have name (x : String) : 0 < sizeOf x := by cases x; simp +arith
  have test (e : Expr) : 0 < sizeOf e := by cases e <;> simp +arith
  unfold limbs at h
  split at h
  case h_6 => exact sizeOf_lt_of_mem_children ((readParts_sublist _).subset h)
  all_goals grind

/-- Induction over a tree, limb by limb. -/
theorem Node.ofLimbs {P : Node → Prop} (step : ∀ n, (∀ m ∈ n.limbs, P m) → P n) (n : Node) :
    P n :=
  step n fun m _ => m.ofLimbs step
termination_by sizeOf n
decreasing_by exact sizeOf_lt_of_mem_limbs ‹_›

/-- Equivalence of nodes. The declarations of a program are linked from outside. -/
@[simp] def Node.AlphaEq (links : Links) : Node → Node → Prop
  | .expr e, .expr f => e.AlphaEq links f
  | .stmt s, .stmt t => s.AlphaEq links t
  | .pattern ns, .pattern ms => ns = ms
  | .program p, .program q =>
    Forall₂ (Linked links) (blockNames p.body) (blockNames q.body) ∧
      AlphaEqStmts links p.body q.body
  | _, _ => False

section

variable {links : Links}

/-- Parameters fit if they have the same labels. -/
theorem paramsFit_iff : ∀ {ps qs : List Param},
    ParamsFit ps qs ↔ ps.map Param.label = qs.map Param.label
  | [], [] => ⟨fun _ => rfl, fun _ => trivial⟩
  | [], _ :: _ => ⟨nofun, nofun⟩
  | p :: _, [] => ⟨by cases p <;> exact nofun, nofun⟩
  | p :: ps, q :: qs => by
    cases p <;> cases q <;> simp [ParamsFit, Param.label, @paramsFit_iff ps qs]

theorem alphaEqExprs_iff : ∀ {es fs : List Expr},
    AlphaEqExprs links es fs ↔ Forall₂ (fun e f => e.AlphaEq links f) es fs
  | [], [] => ⟨fun _ => .nil, fun _ => .nil⟩
  | [], _ :: _ | _ :: _, [] => ⟨nofun, nofun⟩
  | _ :: _, _ :: _ => ⟨fun (.cons h hs) => .cons h (alphaEqExprs_iff.mp hs),
      fun (.cons h hs) => .cons h (alphaEqExprs_iff.mpr hs)⟩

theorem alphaEqProps_iff : ∀ {ps qs : List (String × Expr)}, AlphaEqProps links ps qs ↔
    ps.map (fun p => (p.1, Expr.undefined)) = qs.map (fun p => (p.1, .undefined)) ∧
      Forall₂ (fun p q => p.2.AlphaEq links q.2) ps qs
  | [], [] => ⟨fun _ => ⟨rfl, .nil⟩, fun _ => .nil⟩
  | [], _ :: _ | _ :: _, [] => ⟨nofun, nofun⟩
  | (k, e) :: ps, (l, f) :: qs => by
    rw [map_cons, map_cons, cons_eq_cons, forall₂_cons, and_and_and_comm,
      ← @alphaEqProps_iff ps qs]
    constructor
    · rintro (_ | ⟨h, hs⟩)
      exact ⟨⟨rfl, h⟩, hs⟩
    · rintro ⟨⟨key, h⟩, hs⟩
      cases key
      exact .cons h hs

theorem alphaEqStmts_iff : ∀ {ss ts : List Stmt},
    AlphaEqStmts links ss ts ↔ Forall₂ (fun s t => s.AlphaEq links t) ss ts
  | [], [] => ⟨fun _ => .nil, fun _ => .nil⟩
  | [], _ :: _ | _ :: _, [] => ⟨nofun, nofun⟩
  | _ :: _, _ :: _ => ⟨fun (.cons h hs) => .cons h (alphaEqStmts_iff.mp hs),
      fun (.cons h hs) => .cons h (alphaEqStmts_iff.mpr hs)⟩

theorem alphaEq_block {ss ts : List Stmt} : Stmt.AlphaEq links (.block ss) (.block ts) ↔
    AlphaEqStmts (linkBlocks ss ts ++ links) ss ts :=
  ⟨fun | .block h => h, .block⟩

/-- The declarations of a block are linked inside of the parameters around it. -/
theorem alphaEq_arrowBlock {ps qs : List Param} {ss ts : List Stmt} :
    Expr.AlphaEq links (.arrowBlock ps ss) (.arrowBlock qs ts) ↔
      ParamsFit ps qs ∧ AlphaEqStmts (linkBlocks ss ts ++ (linkParams ps qs ++ links)) ss ts :=
  ⟨fun | .arrowBlock fit h => ⟨fit, h⟩, fun h => .arrowBlock h.1 h.2⟩

attribute [local simp] Node.readParts Node.children Expr.children Stmt.children linkNames
  linkParams linkBlocks Target.AlphaEq alphaEq_block alphaEq_arrowBlock

attribute [local simp ←] alphaEqExprs_iff alphaEqProps_iff alphaEqStmts_iff paramsFit_iff

/-- Nodes are equivalent if label, uses and limbs agree, the limbs with their owners' names
linked. -/
theorem Node.alphaEq_iff {m n : Node} : m.AlphaEq links n ↔ m.label = n.label ∧
    Forall₂ (Linked links) m.uses n.uses ∧
      Forall₂ (AlphaEq (linkNames m.owns n.owns ++ links)) m.limbs n.limbs := by
  rcases m with e | s | ns | p <;> rcases n with f | t | ms | q <;>
    try exact ⟨False.elim, fun h => Node.noConfusion h.1⟩
  · constructor
    · intro h
      cases h <;> simp_all
    · intro h
      -- Only equal constructors have equal labels, so of all pairs the diagonal is left.
      cases e <;> cases f <;> try exact Expr.noConfusion (expr.inj h.1)
      all_goals
        revert h
        simp
      -- The property of a plain access is a part of the label, a computed one a limb.
      case member.member _ _ computed _ _ _ _ _ =>
        rintro key rfl rfl
        cases computed <;> simp_all <;> intros <;> constructor <;> assumption
      all_goals
        intros
        subst_vars
        constructor <;> assumption
  · constructor
    · intro h
      cases h <;> simp_all
    · intro h
      cases s <;> cases t <;> try exact Stmt.noConfusion (stmt.inj h.1)
      all_goals
        revert h
        simp
      all_goals
        intros
        constructor <;> simp_all
  · simp
  · simp

/-- Equivalent nodes own the same number of names. -/
theorem Node.AlphaEq.owns_length {m n : Node} (h : m.AlphaEq links n) :
    m.owns.length = n.owns.length := by
  rcases m with e | s | _ | _ <;> rcases n with f | t | _ | _ <;> try contradiction
  · cases h with
    | arrow fit h | arrowBlock fit h => exact fit.length_eq
    | _ => rfl
  · cases h with
    | block h => exact h.length_eq
    | _ => rfl
  · rfl
  · rfl

end

/-! ## Names of parts -/

theorem exprNames_eq (es : List Expr) : exprNames es = (es.map Node.expr).flatMap Node.names := by
  induction es with
  | nil => rfl
  | cons e es ih => simp [exprNames, ih, Node.names]

theorem propNames_eq (ps : List (String × Expr)) :
    propNames ps = (ps.map fun p => Node.expr p.2).flatMap Node.names := by
  induction ps with
  | nil => rfl
  | cons p ps ih => simp [propNames, ih, Node.names]

theorem stmtNames_eq (ss : List Stmt) : stmtNames ss = (ss.map Node.stmt).flatMap Node.names := by
  induction ss with
  | nil => rfl
  | cons s ss ih => simp [stmtNames, ih, Node.names]

/-- The names of a block are those its statements bind, in order. -/
theorem blockNames_eq (ss : List Stmt) : blockNames ss = ss.flatMap Stmt.bound := by
  induction ss with
  | nil => rfl
  | cons s ss ih => rw [blockNames, ih, flatMap_cons]

/-- What an expression uses is among its names. -/
theorem Expr.names_of_uses {e : Expr} {x : String} (used : x ∈ (Node.expr e).uses) :
    x ∈ e.names := by
  cases e <;> simp_all [names]

/-- What a limb reads or uses is read or used by the node, or bound by it. -/
theorem Node.names_of_limb {m n : Node} (limb : m ∈ n.limbs) {x : String}
    (used : x ∈ m.names ∧ x ∉ m.owns ∨ x ∈ m.uses) : x ∈ n.names ∨ x ∈ n.uses ∨ x ∈ n.owns := by
  -- Targets of assignments are uses of their statement, but count as names or bound ones.
  have stmt {s : Stmt} (h : x ∈ (Node.stmt s).uses) : x ∈ s.names ∨ x ∈ s.bound := by
    cases s <;> simp_all [Stmt.names, Stmt.bound]
  have function {ps body} (h : m ∈ [Node.expr (.arrowBlock ps body)]) : x ∈ stmtNames body := by
    obtain rfl := mem_singleton.mp h
    simp only [names, Expr.names, owns, uses, mem_append] at used
    grind
  -- Only blocks of functions have names that their limb owns already.
  cases n with
  | expr e =>
    cases e with
    | member _ _ computed =>
      cases computed <;>
        grind [limbs, readParts, children, Expr.children, names, Expr.names, Expr.names_of_uses]
    | function => exact .inl (function limb)
    | _ =>
      grind [limbs, readParts, children, Expr.children, names, Expr.names, exprNames_eq,
        propNames_eq, Stmt.names, owns, uses, Expr.names_of_uses]
  | stmt s =>
    cases s with
    | function => exact .inl (function limb)
    | _ =>
      grind [limbs, readParts, children, Stmt.children, names, Stmt.names, stmtNames_eq, owns, uses,
        blockNames_eq, Expr.names_of_uses]
  | pattern => cases limb
  | program p => grind [limbs, readParts, children, names, stmtNames_eq, uses, blockNames_eq]

/-! ## Trees that agree with one tree -/

/-- The links between three trees: those of the first with the second, of the
first with the third, and of the second with the third. -/
inductive Composed : Links → Links → Links → Prop
  | nil : Composed [] [] []
  | cons {a b c : String} {l l' l'' : Links} :
      Composed l l' l'' → Composed ((a, b) :: l) ((a, c) :: l') ((b, c) :: l'')

/-- Links compose: what two names are linked to by one name is linked itself. -/
theorem Composed.linked {l l' l'' : Links} (composed : Composed l l' l'') {x y z : String}
    (h : Linked l x y) (h' : Linked l' x z) : Linked l'' y z := by
  induction composed with
  | nil => exact (Eq.symm h).trans h'
  | cons _ ih =>
    rcases h with ⟨hx, hy⟩ | ⟨hx, hy, h⟩
    · rcases h' with ⟨_, hz⟩ | ⟨hx', _, _⟩
      · exact .inl ⟨hy, hz⟩
      · exact absurd hx hx'
    · rcases h' with ⟨hx', _⟩ | ⟨_, hz, h'⟩
      · exact absurd hx' hx
      · exact .inr ⟨hy, hz, ih h h'⟩

theorem Composed.append {k k' k'' l l' l'' : Links} (inner : Composed k k' k'')
    (outer : Composed l l' l'') : Composed (k ++ l) (k' ++ l') (k'' ++ l'') := by
  induction inner with
  | nil => exact outer
  | cons _ ih => exact .cons ih

/-- Lists of names of one length are linked through any third one. -/
theorem composed_linkNames : ∀ {xs ys zs : List String}, xs.length = ys.length →
    xs.length = zs.length → Composed (linkNames xs ys) (linkNames xs zs) (linkNames ys zs)
  | [], [], [], _, _ => .nil
  | x :: xs, y :: ys, z :: zs, hxy, hxz => by
    simp only [linkNames, zip_cons_cons, reverse_cons]
    exact (composed_linkNames (Nat.succ.inj hxy) (Nat.succ.inj hxz)).append (.cons .nil)

/-- Two relations from one list join to a relation of the lists they lead to. -/
theorem forall₂_joined {α β : Type} {R S : α → β → Prop} {T : β → β → Prop} {xs : List α}
    {ys zs : List β} (h : Forall₂ R xs ys) (h' : Forall₂ S xs zs)
    (joins : ∀ x ∈ xs, ∀ y z, R x y → S x z → T y z) : Forall₂ T ys zs := by
  induction h generalizing zs with
  | nil =>
    cases h'
    exact .nil
  | cons first _ ih =>
    obtain _ | ⟨first', more'⟩ := h'
    exact .cons (joins _ mem_cons_self _ _ first first')
      (ih more' fun x hx => joins x (mem_cons_of_mem _ hx))

/-- Two trees equivalent to a third are equivalent, along the composed links. -/
theorem Node.AlphaEq.joined {l l' l'' : Links} {m n k : Node} (composed : Composed l l' l'')
    (h : m.AlphaEq l n) (h' : m.AlphaEq l' k) : n.AlphaEq l'' k := by
  induction m using ofLimbs generalizing l l' l'' n k with
  | step m ih =>
    have inner := (composed_linkNames h.owns_length h'.owns_length).append composed
    obtain ⟨same, uses, limbs⟩ := alphaEq_iff.mp h
    obtain ⟨same', uses', limbs'⟩ := alphaEq_iff.mp h'
    exact alphaEq_iff.mpr ⟨same.symm.trans same',
      forall₂_joined uses uses' fun _ _ _ _ => composed.linked,
      forall₂_joined limbs limbs' fun m hm _ _ => ih m hm inner⟩

end JexlScript.Script
