import JexlScript.Inline.Prune
import JexlScript.Proofs.FreeUses

/-!
# Replacing free names

`Expr.replace` puts expressions in the place of names, all at once and only where
a name is not bound around it. Nothing is renamed on the way, so a name of a
replacement may end up bound; it does not where the tree binds no name of any
replacement, and then alpha-equivalent trees stay so. `Expr.binders` lists the
names that a tree binds anywhere in it.
-/

namespace JexlScript.Script

open List

/-! ## Replacement -/

/-- What is put in the place of each name, if anything. -/
abbrev Replacement := String → Option Expr

/-- Names that are bound around a place are not replaced there. -/
def Replacement.hide (σ : Replacement) (own : List String) : Replacement :=
  fun x => if x ∈ own then none else σ x

theorem Replacement.hide_nil (σ : Replacement) : σ.hide [] = σ :=
  funext fun _ => if_neg not_mem_nil

mutual

/-- Replaces the free names of an expression. -/
def Expr.replace (σ : Replacement) : Expr → Expr
  | .ident x => (σ x).getD (.ident x)
  | .lit v => .lit v
  | .undefined => .undefined
  | .array es => .array (replaceExprs σ es)
  | .object ps => .object (replaceProps σ ps)
  | .member a p computed o =>
    .member (a.replace σ) (if computed then p.replace σ else p) computed o
  | .call a es => .call (a.replace σ) (replaceExprs σ es)
  | .new a es => .new (a.replace σ) (replaceExprs σ es)
  | .unary op a => .unary op (a.replace σ)
  | .binary a op b => .binary (a.replace σ) op (b.replace σ)
  | .logical a op b => .logical (a.replace σ) op (b.replace σ)
  | .ternary a b c => .ternary (a.replace σ) (b.replace σ) (c.replace σ)
  | .arrow ps a => .arrow ps (a.replace (σ.hide (paramNames ps)))
  | .arrowBlock ps ss =>
    .arrowBlock ps (replaceStmts ((σ.hide (paramNames ps)).hide (blockNames ss)) ss)
  | .function n ps ss =>
    .function n ps (replaceStmts (((σ.hide [n]).hide (paramNames ps)).hide (blockNames ss)) ss)

def replaceExprs (σ : Replacement) : List Expr → List Expr
  | [] => []
  | e :: es => e.replace σ :: replaceExprs σ es

def replaceProps (σ : Replacement) : List (String × Expr) → List (String × Expr)
  | [] => []
  | (k, e) :: ps => (k, e.replace σ) :: replaceProps σ ps

/-- Replaces the free names of a statement. -/
def Stmt.replace (σ : Replacement) : Stmt → Stmt
  | .ret a => .ret (a.replace σ)
  | .retNothing => .retNothing
  | .expr a => .expr (a.replace σ)
  | .assign t a => .assign t (a.replace σ)
  | .bare t => .bare t
  | .cond a ys ns =>
    .cond (a.replace σ) (replaceStmts (σ.hide (blockNames ys)) ys)
      (replaceStmts (σ.hide (blockNames ns)) ns)
  | .block ss => .block (replaceStmts (σ.hide (blockNames ss)) ss)
  | .function n ps ss =>
    .function n ps (replaceStmts ((σ.hide (paramNames ps)).hide (blockNames ss)) ss)

def replaceStmts (σ : Replacement) : List Stmt → List Stmt
  | [] => []
  | s :: ss => s.replace σ :: replaceStmts σ ss

end

/-! ## Names bound anywhere -/

mutual

/-- The names that an expression binds anywhere in it. -/
def Expr.binders : Expr → List String
  | .ident _ | .lit _ | .undefined => []
  | .array es => exprBinders es
  | .object ps => propBinders ps
  | .member a p computed _ => if computed then a.binders ++ p.binders else a.binders
  | .call a es => a.binders ++ exprBinders es
  | .new a es => a.binders ++ exprBinders es
  | .unary _ a => a.binders
  | .binary a _ b => a.binders ++ b.binders
  | .logical a _ b => a.binders ++ b.binders
  | .ternary a b c => a.binders ++ b.binders ++ c.binders
  | .arrow ps a => paramNames ps ++ a.binders
  | .arrowBlock ps ss => paramNames ps ++ stmtBinders ss
  | .function n ps ss => [n] ++ (paramNames ps ++ stmtBinders ss)

def exprBinders : List Expr → List String
  | [] => []
  | e :: es => e.binders ++ exprBinders es

def propBinders : List (String × Expr) → List String
  | [] => []
  | (_, e) :: ps => e.binders ++ propBinders ps

/-- The names that a statement binds anywhere in it. -/
def Stmt.binders : Stmt → List String
  | .ret a => a.binders
  | .retNothing => []
  | .expr a => a.binders
  | .assign t a => t.declared ++ a.binders
  | .bare t => t.declared
  | .cond a ys ns => a.binders ++ stmtBinders ys ++ stmtBinders ns
  | .block ss => stmtBinders ss
  | .function n ps ss => [n] ++ (paramNames ps ++ stmtBinders ss)

def stmtBinders : List Stmt → List String
  | [] => []
  | s :: ss => s.binders ++ stmtBinders ss

end

theorem Stmt.bound_subset_binders (s : Stmt) : s.bound ⊆ s.binders := by
  intro x hx
  cases s with
  | assign t a => exact mem_append_left _ hx
  | bare t => exact hx
  | function n ps ss => exact mem_append_left _ hx
  | _ => exact absurd hx not_mem_nil

/-- What a block declares it binds. -/
theorem blockNames_subset_binders (ss : List Stmt) : blockNames ss ⊆ stmtBinders ss := by
  induction ss with
  | nil => exact nil_subset _
  | cons s ss ih =>
    intro x hx
    rcases mem_append.mp hx with hx | hx
    · exact mem_append_left _ (s.bound_subset_binders hx)
    · exact mem_append_right _ (ih hx)

theorem blockNames_map {f : Stmt → Stmt} (same : ∀ s, (f s).bound = s.bound) (ss : List Stmt) :
    blockNames (ss.map f) = blockNames ss := by
  simp only [blockNames_eq, flatMap_map, same]

/-- None of some names is among others. -/
def Avoids (names xs : List String) : Prop := xs.Disjoint names

/-! ## Replacement by limbs -/

attribute [local simp] Node.readParts Node.children Expr.children Stmt.children

section

variable (σ : Replacement)

/-- Replaces the free names of a node. -/
def Node.replace : Node → Node
  | .expr e => .expr (e.replace σ)
  | .stmt s => .stmt (s.replace σ)
  | .pattern names => .pattern names
  | .program p => .program ⟨replaceStmts σ p.body⟩

theorem replaceExprs_eq_map (es : List Expr) : replaceExprs σ es = es.map (Expr.replace σ) := by
  induction es with
  | nil => rfl
  | cons e es ih => rw [replaceExprs, ih, map_cons]

theorem replaceProps_eq_map (ps : List (String × Expr)) :
    replaceProps σ ps = ps.map fun p => (p.1, p.2.replace σ) := by
  induction ps with
  | nil => rfl
  | cons p ps ih => rw [replaceProps, ih, map_cons]

theorem replaceStmts_eq_map (ss : List Stmt) : replaceStmts σ ss = ss.map (Stmt.replace σ) := by
  induction ss with
  | nil => rfl
  | cons s ss ih => rw [replaceStmts, ih, map_cons]

/-- Only identifiers are replaced. Any other node keeps all that is its own, and its limbs are
replaced. -/
theorem Node.replace_spec {n : Node} (other : ∀ x, n ≠ .expr (.ident x)) :
    (n.replace σ).label = n.label ∧ (n.replace σ).uses = n.uses ∧ (n.replace σ).owns = n.owns ∧
      (n.replace σ).limbs = n.limbs.map (replace (σ.hide n.owns)) := by
  have bound (σ : Replacement) (s : Stmt) : (s.replace σ).bound = s.bound := by cases s <;> rfl
  cases n with
  | expr e =>
    cases e with
    | ident x => exact absurd rfl (other x)
    | member _ _ computed => cases computed <;> simp [replace, Expr.replace, Replacement.hide_nil]
    | _ => simp [replace, Expr.replace, Stmt.replace, replaceExprs_eq_map, replaceProps_eq_map,
        Replacement.hide_nil, Function.comp_def]
  | stmt s =>
    cases s <;> simp [replace, Expr.replace, Stmt.replace, replaceStmts_eq_map,
      Replacement.hide_nil, blockNames_map (bound _), Function.comp_def]
  | pattern => exact ⟨rfl, rfl, rfl, rfl⟩
  | program p =>
    simp [replace, replaceStmts_eq_map, Replacement.hide_nil, blockNames_map (bound _),
      Function.comp_def]

end

/-- The names that a node binds anywhere in it. -/
def Node.binders : Node → List String
  | .expr e => e.binders
  | .stmt s => s.binders
  | .pattern _ => []
  | .program p => stmtBinders p.body

theorem exprBinders_eq (es : List Expr) : exprBinders es = es.flatMap Expr.binders := by
  induction es with
  | nil => rfl
  | cons e es ih => rw [exprBinders, ih, flatMap_cons]

theorem propBinders_eq (ps : List (String × Expr)) :
    propBinders ps = ps.flatMap fun p => p.2.binders := by
  induction ps with
  | nil => rfl
  | cons p ps ih => rw [propBinders, ih, flatMap_cons]

theorem stmtBinders_eq (ss : List Stmt) : stmtBinders ss = ss.flatMap Stmt.binders := by
  induction ss with
  | nil => rfl
  | cons s ss ih => rw [stmtBinders, ih, flatMap_cons]

/-- The names that a node binds in the list of statements around it. -/
def Node.bound : Node → List String
  | .stmt s => s.bound
  | .expr _ | .pattern _ | .program _ => []

/-- A name is bound somewhere in a node by the node itself, around it or in a
limb. -/
theorem Node.mem_binders {n : Node} {x : String} :
    x ∈ n.binders ↔ x ∈ n.owns ∨ x ∈ n.bound ∨ ∃ m ∈ n.limbs, x ∈ m.binders := by
  cases n with
  | expr e =>
    cases e with
    | member _ _ computed => cases computed <;> simp [binders, bound, Expr.binders]
    | _ => simp [binders, bound, Expr.binders, Stmt.binders, exprBinders_eq, propBinders_eq]
  | stmt s =>
    cases s with
    | block body =>
      have inside := @blockNames_subset_binders body x
      simp [binders, bound, Stmt.binders, Stmt.bound, stmtBinders_eq] at inside ⊢
      exact inside
    | _ => simp [binders, bound, Stmt.bound, Stmt.binders, Expr.binders]
  | pattern => simp [binders, bound]
  | program p => simp [binders, bound, stmtBinders_eq]

/-- What a node binds it binds itself or in a limb. -/
theorem Avoids.node {names : List String} {n : Node} (h : Avoids names n.binders) :
    Avoids names n.owns ∧ ∀ m ∈ n.limbs, Avoids names m.binders :=
  ⟨fun _ hx => h (Node.mem_binders.mpr (.inl hx)),
    fun m hm _ hx => h (Node.mem_binders.mpr (.inr (.inr ⟨m, hm, hx⟩)))⟩

/-- Replacing brings in no binder but those of the replacements. -/
theorem Node.mem_binders_replace {n : Node} {σ : Replacement} {x : String}
    (inside : x ∈ (n.replace σ).binders) :
    x ∈ n.binders ∨ ∃ y a, σ y = some a ∧ x ∈ a.binders := by
  induction n using ofLimbs generalizing σ with
  | step n ih =>
    by_cases ident : ∃ y, n = .expr (.ident y)
    · obtain ⟨y, rfl⟩ := ident
      change x ∈ ((σ y).getD (.ident y)).binders at inside
      cases found : σ y with
      | none => exact absurd (found ▸ inside) not_mem_nil
      | some a => exact .inr ⟨y, a, found, by rwa [found] at inside⟩
    -- Other nodes bind what they did, and a limb is replaced with fewer names.
    · obtain ⟨_, _, own, below⟩ := replace_spec σ (not_exists.mp ident)
      have bound : (n.replace σ).bound = n.bound := by rcases n with _ | ⟨⟨⟩⟩ | _ | _ <;> rfl
      rw [mem_binders, own, bound, below] at inside
      rcases inside with own | bound | ⟨_, below, inside⟩
      · exact .inl (mem_binders.mpr (.inl own))
      · exact .inl (mem_binders.mpr (.inr (.inl bound)))
      · obtain ⟨m, limb, rfl⟩ := mem_map.mp below
        rcases ih m limb inside with inside | ⟨y, a, found, inside⟩
        · exact .inl (mem_binders.mpr (.inr (.inr ⟨m, limb, inside⟩)))
        · refine .inr ⟨y, a, ?_, inside⟩
          rw [Replacement.hide] at found
          split at found
          · cases found
          · exact found

/-! ## Replacement in alpha-equivalent trees -/

/-- All replacements refer to some names only. -/
def Replacement.Within (σ : Replacement) (names : List String) : Prop :=
  ∀ x a, σ x = some a → a.free.map Use.name ⊆ names

/-- Two replacements agree on linked names, and what they put in refers to the same on both sides.
-/
def Replacement.Agree (names : List String) (links : Links) (σ τ : Replacement) : Prop :=
  ∀ x y, Linked links x y →
    σ x = τ y ∧ ∀ a, σ x = some a → a.free.map Use.name ⊆ names ∧ SelfLinked links a

section

variable {names : List String} {links : Links} {σ τ : Replacement}

/-- They still agree below binders that bind no name of a replacement. -/
theorem Replacement.Agree.hide {xs ys : List String} (agree : Replacement.Agree names links σ τ)
    (same : xs.length = ys.length) (hx : Avoids names xs) (hy : Avoids names ys) :
    Replacement.Agree names (linkNames xs ys ++ links) (σ.hide xs) (τ.hide ys) := by
  intro x y linked
  rcases linked_append.mp linked with ⟨_, inxs, inys⟩ | ⟨notxs, notys, outer⟩
  · rw [mem_fst_linkNames same] at inxs
    rw [mem_snd_linkNames same] at inys
    simp [Replacement.hide, inxs, inys]
  · rw [mem_fst_linkNames same] at notxs
    rw [mem_snd_linkNames same] at notys
    obtain ⟨eq, given⟩ := agree x y outer
    rw [Replacement.hide, Replacement.hide, if_neg notxs, if_neg notys]
    refine ⟨eq, fun a ha => ⟨(given a ha).1, fun u free =>
      linked_append.mpr (.inr ⟨?_, ?_, (given a ha).2 u free⟩)⟩⟩
    · rw [mem_fst_linkNames same]
      exact fun hzx => hx hzx ((given a ha).1 (mem_map_of_mem free))
    · rw [mem_snd_linkNames same]
      exact fun hzy => hy hzy ((given a ha).1 (mem_map_of_mem free))

theorem forall₂_map_of_mem {α β : Type} {R : α → α → Prop} {S : β → β → Prop} {f g : α → β}
    {xs ys : List α} (h : Forall₂ R xs ys)
    (maps : ∀ x ∈ xs, ∀ y ∈ ys, R x y → S (f x) (g y)) : Forall₂ S (xs.map f) (ys.map g) := by
  induction h with
  | nil => exact .nil
  | cons first _ ih =>
    exact .cons (maps _ mem_cons_self _ mem_cons_self first)
      (ih fun x hx y hy => maps x (mem_cons_of_mem _ hx) y (mem_cons_of_mem _ hy))

/-- Of two equivalent nodes both or none are identifiers. -/
theorem Node.AlphaEq.ident_or {m n : Node} (h : m.AlphaEq links n) :
    (∃ x y, m = .expr (.ident x) ∧ n = .expr (.ident y) ∧ Linked links x y) ∨
      (∀ x, m ≠ .expr (.ident x)) ∧ ∀ x, n ≠ .expr (.ident x) := by
  rcases m with e | s | _ | _ <;> rcases n with f | t | _ | _ <;> try contradiction
  · cases h <;> simp_all
  all_goals simp

/-- Replacements that agree keep trees equivalent, if these bind no name of a replacement. -/
theorem Node.AlphaEq.replace {m n : Node} (h : m.AlphaEq links n)
    (agree : Replacement.Agree names links σ τ) (hm : Avoids names m.binders)
    (hn : Avoids names n.binders) : (m.replace σ).AlphaEq links (n.replace τ) := by
  induction m using ofLimbs generalizing links n σ τ with
  | step m ih =>
    rcases h.ident_or with ⟨x, y, rfl, rfl, linked⟩ | ⟨other, other'⟩
    · obtain ⟨eq, given⟩ := agree x y linked
      change ((σ x).getD (.ident x)).AlphaEq links ((τ y).getD (.ident y))
      rw [← eq]
      cases found : σ x with
      | none => exact .ident linked
      | some a => exact Expr.alphaEq_self (given a found).2
    · obtain ⟨same, uses, limbs⟩ := alphaEq_iff.mp h
      obtain ⟨label, used, own, below⟩ := replace_spec σ other
      obtain ⟨label', used', own', below'⟩ := replace_spec τ other'
      have inner := agree.hide h.owns_length hm.node.1 hn.node.1
      refine alphaEq_iff.mpr ⟨by rw [label, label', same], by rwa [used, used'], ?_⟩
      rw [own, own', below, below']
      exact forall₂_map_of_mem limbs fun a ha b hb h =>
        ih a ha h inner (hm.node.2 a ha) (hn.node.2 b hb)

end

/-! ## Pruning alpha-equivalent trees

Placeholders are known by the name `undefined`, so pruning looks at a name. It
does the same to alpha-equivalent trees where neither binds that name. -/

/-- `undefined` is linked to itself only. -/
def KeepsUndefined (links : Links) : Prop :=
  ∀ x y, Linked links x y → (x = "undefined" ↔ y = "undefined")

theorem keepsUndefined_nil : KeepsUndefined [] := fun _ _ h => by rw [show _ = _ from h]

section

variable {links : Links}

/-- It stays so below binders of other names. -/
theorem KeepsUndefined.append {xs ys : List String} (keeps : KeepsUndefined links)
    (same : xs.length = ys.length) (hx : Avoids ["undefined"] xs) (hy : Avoids ["undefined"] ys) :
    KeepsUndefined (linkNames xs ys ++ links) := by
  intro x y linked
  rcases linked_append.mp linked with ⟨_, inxs, inys⟩ | ⟨_, _, outer⟩
  · rw [mem_fst_linkNames same] at inxs
    rw [mem_snd_linkNames same] at inys
    exact ⟨fun h => absurd (mem_singleton.mpr h) (hx inxs),
      fun h => absurd (mem_singleton.mpr h) (hy inys)⟩
  · exact keeps x y outer

/-- Of two equivalent expressions both or none are `undefined`. -/
theorem Expr.AlphaEq.isUndefined_eq {e f : Expr} (keeps : KeepsUndefined links)
    (h : e.AlphaEq links f) : e.isUndefined = f.isUndefined := by
  cases h with
  | ident linked =>
    rw [Expr.isUndefined, Expr.isUndefined, Bool.eq_iff_iff, beq_iff_eq, beq_iff_eq]
    exact keeps _ _ linked
  | _ => rfl

/-- So equivalent arguments lose the same number of items at their end. -/
theorem AlphaEqExprs.dropTrailingUndefined (keeps : KeepsUndefined links) {es fs : List Expr}
    (h : AlphaEqExprs links es fs) :
    AlphaEqExprs links (dropTrailingUndefined es) (dropTrailingUndefined fs) := by
  rw [alphaEqExprs_iff] at h ⊢
  induction h with
  | nil => exact .nil
  | @cons e f es fs h _ rest =>
    rw [Script.dropTrailingUndefined, Script.dropTrailingUndefined, h.isUndefined_eq keeps]
    generalize Script.dropTrailingUndefined es = kept at rest ⊢
    generalize Script.dropTrailingUndefined fs = kept' at rest ⊢
    cases rest with
    | nil =>
      simp only
      split
      · exact .nil
      · exact .cons h .nil
    | cons h' hs' => exact .cons h (.cons h' hs')

/-- Pruning changes the arguments of calls only. -/
theorem Node.prune_spec (n : Node) :
    n.prune.label = n.label.prune ∧ n.prune.uses = n.uses ∧ n.prune.owns = n.owns ∧
      ((∀ f args, n ≠ .expr (.call f args)) → n.prune.limbs = n.limbs.map prune) := by
  have bound (s : Stmt) : s.prune.bound = s.bound := by cases s <;> rfl
  cases n with
  | expr e =>
    cases e with
    | member _ _ computed => cases computed <;> simp [prune, Expr.prune]
    | _ => simp [prune, Expr.prune, Stmt.prune, pruneExprs_eq_map, pruneProps_eq_map,
        pruneStmts_eq_map, dropTrailingUndefined, Function.comp_def]
  | stmt s =>
    cases s <;> simp [prune, Expr.prune, Stmt.prune, pruneStmts_eq_map, blockNames_map bound,
      Function.comp_def]
  | pattern => simp [prune]
  | program p => simp [prune, pruneStmts_eq_map, blockNames_map bound, Function.comp_def]

/-- Of two equivalent nodes both or none are calls. -/
theorem Node.AlphaEq.call_or {m n : Node} (h : m.AlphaEq links n) :
    (∃ f args f' args', m = .expr (.call f args) ∧ n = .expr (.call f' args')) ∨
      (∀ f args, m ≠ .expr (.call f args)) ∧ ∀ f args, n ≠ .expr (.call f args) := by
  rcases m with e | s | _ | _ <;> rcases n with f | t | _ | _ <;> try contradiction
  · cases h <;> simp
  all_goals simp

/-- Pruned trees stay equivalent, if they do not bind `undefined`. -/
theorem Node.AlphaEq.prune {m n : Node} (h : m.AlphaEq links n) (keeps : KeepsUndefined links)
    (hm : Avoids ["undefined"] m.binders) (hn : Avoids ["undefined"] n.binders) :
    m.prune.AlphaEq links n.prune := by
  induction m using ofLimbs generalizing links n with
  | step m ih =>
    obtain ⟨same, uses, limbs⟩ := alphaEq_iff.mp h
    obtain ⟨label, used, own, below⟩ := m.prune_spec
    obtain ⟨label', used', own', below'⟩ := n.prune_spec
    have inner := keeps.append h.owns_length hm.node.1 hn.node.1
    have pruned := forall₂_map_of_mem limbs fun a ha b hb h =>
      ih a ha h inner (hm.node.2 a ha) (hn.node.2 b hb)
    rcases h.call_or with ⟨f, args, f', args', rfl, rfl⟩ | ⟨other, other'⟩
    · obtain _ | ⟨callee, given⟩ := pruned
      refine Expr.AlphaEq.call callee (AlphaEqExprs.dropTrailingUndefined keeps ?_)
      rw [pruneExprs_eq_map, pruneExprs_eq_map, alphaEqExprs_iff]
      simpa [prune, linkNames] using given
    · refine alphaEq_iff.mpr ⟨by rw [label, label', same], by rwa [used, used'], ?_⟩
      rwa [own, own', below other, below' other']

end

end JexlScript.Script
