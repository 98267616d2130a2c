import JexlScript.Proofs.CaptureAvoidance
import JexlScript.Proofs.Parts

/-!
# Free names along the way

Nothing that is done to a script on its way frees a name: bodies that differ in
the names they bind have the same free names, replacing a name brings in the free
names of what replaces it and no others, dropping arguments can only lose names,
and making accesses optional keeps them. `Template.inline?_free` adds this up for
an inlined function.
-/

namespace JexlScript.Script

open List

attribute [local simp] Node.readParts Node.children Expr.children Stmt.children

/-! ## Other names for what is bound -/

/-- Every use of the second list is linked to one in the first, in the same role. -/
def LinkedUses (links : Links) (us vs : List Use) : Prop :=
  ∀ v ∈ vs, ∃ x, ⟨v.role, x⟩ ∈ us ∧ Linked links x v.name

theorem exists_of_forall₂ {α : Type} {R : α → α → Prop} {xs ys : List α} (h : Forall₂ R xs ys)
    {y : α} (member : y ∈ ys) : ∃ x ∈ xs, R x y := by
  induction h with
  | nil => cases member
  | cons first _ ih => grind

/-- Equivalent trees use linked names freely. -/
theorem Node.AlphaEq.linkedUses {links : Links} {m n : Node} (h : m.AlphaEq links n) :
    LinkedUses links m.free n.free := by
  induction m using ofLimbs generalizing links n with
  | step m ih =>
    obtain ⟨same, uses, limbs⟩ := alphaEq_iff.mp h
    intro v member
    rcases mem_free.mp member with ⟨role, used⟩ | ⟨unbound, k, limb, used⟩
    · obtain ⟨x, used, linked⟩ := exists_of_forall₂ uses used
      exact ⟨x, mem_free.mpr (.inl ⟨(role?_eq_of_label same).trans role, used⟩), linked⟩
    · obtain ⟨k', limb, h'⟩ := exists_of_forall₂ limbs limb
      obtain ⟨x, used, linked⟩ := ih k' limb h' v used
      rcases linked_append.mp linked with ⟨_, _, bound⟩ | ⟨outer, _, linked⟩
      · exact absurd ((mem_snd_linkNames h.owns_length).mp bound) unbound
      · rw [mem_fst_linkNames h.owns_length] at outer
        exact ⟨x, mem_free.mpr (.inr ⟨outer, k', limb, used⟩), linked⟩

/-- Without links equivalent expressions have the same free names. -/
theorem Expr.AlphaEq.free_subset {e f : Expr} (h : e.AlphaEq [] f) : f.free ⊆ e.free := by
  intro u member
  obtain ⟨x, used, rfl⟩ := Node.AlphaEq.linkedUses (m := .expr e) (n := .expr f) h u member
  exact used

/-! ## Replaced names -/

/-- Each use after a replacement was there before and is kept, or comes with what replaced a name.
-/
def ReplacedUses (σ : Replacement) (us vs : List Use) : Prop :=
  ∀ v ∈ vs, (v ∈ us ∧ (v.role = .read → σ v.name = none)) ∨
    ∃ x a, ⟨.read, x⟩ ∈ us ∧ σ x = some a ∧ v ∈ a.free

/-- Replacing the free names of a tree brings in the free names of what replaces them. -/
theorem Node.replacedUses (σ : Replacement) (n : Node) :
    ReplacedUses σ n.free (n.replace σ).free := by
  induction n using ofLimbs generalizing σ with
  | step n ih =>
    intro v member
    by_cases name : ∃ x, n = .expr (.ident x)
    · obtain ⟨x, rfl⟩ := name
      change v ∈ ((σ x).getD (.ident x)).free at member
      cases replaced : σ x with
      | none =>
        rw [replaced] at member
        cases mem_singleton.mp member
        exact .inl ⟨mem_singleton.mpr rfl, fun _ => replaced⟩
      | some a =>
        rw [replaced] at member
        exact .inr ⟨x, a, mem_singleton.mpr rfl, replaced, member⟩
    -- Any other node keeps its own uses, and the limbs are replaced with its own names hidden.
    · obtain ⟨label, uses, owns, limbs⟩ := replace_spec σ (not_exists.mp name)
      rcases mem_free.mp member with ⟨role, used⟩ | ⟨unbound, k, limb, used⟩
      · rw [role?_eq_of_label label] at role
        exact .inl ⟨mem_free.mpr (.inl ⟨role, uses ▸ used⟩),
          fun read => absurd (eq_ident_of_role? (read ▸ role)) name⟩
      · rw [limbs] at limb
        obtain ⟨m, part, rfl⟩ := mem_map.mp limb
        rw [owns] at unbound
        rcases ih m part _ v used with ⟨used, kept⟩ | ⟨x, a, used, replaced, brought⟩
        · exact .inl ⟨mem_free.mpr (.inr ⟨unbound, m, part, used⟩),
            fun read => (if_neg unbound).symm.trans (kept read)⟩
        · by_cases bound : x ∈ n.owns
          · cases (if_pos bound).symm.trans replaced
          · exact .inr ⟨x, a, mem_free.mpr (.inr ⟨bound, m, part, used⟩),
              (if_neg bound).symm.trans replaced, brought⟩

/-! ## Dropped arguments -/

/-- Pruning adds no limbs. -/
theorem Node.limbs_prune {k n : Node} (limb : k ∈ n.prune.limbs) : ∃ m ∈ n.limbs, m.prune = k := by
  by_cases call : ∃ f args, n = .expr (.call f args)
  · obtain ⟨f, args, rfl⟩ := call
    rcases mem_cons.mp limb with rfl | given
    · exact ⟨.expr f, mem_cons_self, rfl⟩
    · rw [dropTrailingUndefined_eq, pruneExprs_eq_map] at given
      obtain ⟨_, kept, rfl⟩ := mem_map.mp given
      obtain ⟨a, inside, rfl⟩ := mem_map.mp (rdropWhile_subset _ kept)
      exact ⟨.expr a, mem_cons_of_mem _ (mem_map_of_mem inside), rfl⟩
  · rw [n.prune_spec.2.2.2 fun f args same => call ⟨f, args, same⟩] at limb
    exact mem_map.mp limb

/-- Pruning can lose free names and gains none. -/
theorem Node.free_prune (n : Node) : n.prune.free ⊆ n.free := by
  induction n using ofLimbs with
  | step n ih =>
    obtain ⟨_, uses, owns, _⟩ := n.prune_spec
    have role : n.prune.role? = n.role? := by rcases n with ⟨⟨⟩⟩ | ⟨⟨⟩⟩ | _ | _ <;> rfl
    intro u member
    rw [mem_free, uses, owns, role] at member
    rcases member with own | ⟨unbound, k, limb, used⟩
    · exact mem_free.mpr (.inl own)
    · obtain ⟨m, part, rfl⟩ := limbs_prune limb
      exact mem_free.mpr (.inr ⟨unbound, m, part, ih m part used⟩)

/-! ## Optional accesses -/

section

variable {defined : Path → Bool}

/-- Making accesses optional changes nothing that free names depend on. -/
theorem Node.withOptional_spec (n : Node) : (n.withOptional defined).role? = n.role? ∧
    (n.withOptional defined).uses = n.uses ∧ (n.withOptional defined).owns = n.owns ∧
      (n.withOptional defined).limbs = n.limbs.map (withOptional defined) := by
  have block (ss : List Stmt) :
      blockNames (Id.run (flagStmts (fun path => pure (defined path)) ss)) = blockNames ss := by
    induction ss with
    | nil => rfl
    | cons s ss ih => exact congrArg₂ (· ++ ·) (by cases s <;> rfl) ih
  cases n with
  | expr e =>
    cases e with
    | member _ _ computed => cases computed <;> exact ⟨rfl, rfl, rfl, rfl⟩
    | _ => simp [withOptional, flag, Expr.flag, Stmt.flag, role?, flagExprs_eq_map,
        flagProps_eq_map, Expr.withOptional, Function.comp_def]
  | stmt s =>
    cases s <;> simp [withOptional, flag, Expr.flag, Stmt.flag, role?, map_stmt_flagStmts, block]
  | pattern => exact ⟨rfl, rfl, rfl, rfl⟩
  | program p => exact ⟨rfl, block p.body, rfl, map_stmt_flagStmts _⟩

/-- Making accesses optional keeps the free names. -/
theorem Node.free_withOptional (n : Node) (u : Use) :
    u ∈ (n.withOptional defined).free ↔ u ∈ n.free := by
  induction n using ofLimbs with
  | step n ih =>
    obtain ⟨role, uses, owns, limbs⟩ := @withOptional_spec defined n
    rw [mem_free, mem_free, role, uses, owns, limbs]
    grind

end

/-! ## Names assigned to -/

/-- A free assignment stands at the node itself or in a child. -/
theorem Node.write_mem_free {n : Node} {x : String} (write : ⟨.write, x⟩ ∈ n.free) :
    n.assigned? = some x ∨ ∃ m ∈ n.children, ⟨.write, x⟩ ∈ m.free := by
  cases n with
  | expr e =>
    cases e with
    | member a p computed _ =>
      cases computed <;> simp_all [free, Expr.free, children, Expr.children]
    | _ =>
      simp_all [free, Expr.free, children, Expr.children, mem_without, mem_exprsFree,
        mem_propsFree, Stmt.free]
  | stmt s =>
    cases s <;>
      simp_all [free, Stmt.free, children, Stmt.children, mem_without, mem_stmtsFree, assigned?] <;>
      grind
  | pattern names => cases write
  | program p => simp_all [free, children, mem_stmtsFree]

/-- A free assignment is met on a walk. -/
theorem Node.assigned_of_write {n : Node} {x : String} (write : ⟨.write, x⟩ ∈ n.free) :
    ∃ m ∈ n.walk, m.assigned? = some x := by
  induction n using Node.ofParts with
  | step n ih =>
    rw [walk_eq]
    rcases write_mem_free write with own | ⟨m, part, inner⟩
    · exact ⟨n, mem_cons_self, own⟩
    · obtain ⟨k, inside, assigned⟩ := ih m part inner
      exact ⟨k, mem_cons_of_mem _ (mem_flatMap.mpr ⟨m, part, inside⟩), assigned⟩

end JexlScript.Script

namespace JexlScript.Inline

open List Script

/-! ## Inlined functions -/

/-- The free names of a body, which has no parameters of its own. -/
def Body.free (b : Body) : List Use := b.toFunction.free

/-- The free names of a function. -/
def Template.free (t : Template) : List Use := without (paramNames t.params) t.body.free

/-- Unwrapping a body frees no name. -/
theorem Body.free_toExpr (b : Body) : b.toExpr.free ⊆ b.free := by
  intro u member
  cases b with
  | expr e => exact mem_without.mpr ⟨member, not_mem_nil⟩
  | block ss =>
    by_cases single : ∃ e, ss = [.ret e]
    · obtain ⟨e, rfl⟩ := single
      have inside : u ∈ without [] (stmtsFree [.ret e]) :=
        mem_without.mpr ⟨mem_append_left _ member, not_mem_nil⟩
      exact mem_without.mpr ⟨inside, not_mem_nil⟩
    · rw [Body.toExpr_block_of_ne fun e same => single ⟨e, same⟩] at member
      exact (mem_append.mp member).resolve_right not_mem_nil

/-- A free assignment of a body is met on its walk. -/
theorem Body.write_assigned {b : Body} {n : String} (write : ⟨.write, n⟩ ∈ b.free) :
    ∃ node ∈ b.walk, node.assigned? = some n := by
  cases b with
  | expr e => exact Node.assigned_of_write (n := .expr e) (mem_without.mp write).1
  | block ss => exact Node.assigned_of_write (n := .stmt (.block ss)) (mem_without.mp write).1

/-- Every parameter is replaced, so a name that is not is no parameter. -/
theorem not_mem_paramNames_of_argument?_eq_none {params : List Param} {args : List Expr}
    {x : String} (plain : PlainParams params) (kept : argument? params args x = none) :
    x ∉ paramNames params := by
  intro member
  obtain ⟨p, inside, named⟩ := mem_flatMap.mp member
  obtain ⟨n, rfl⟩ := plain p inside
  obtain rfl : x = n := mem_singleton.mp named
  obtain ⟨i, found⟩ := mem_iff_getElem?.mp inside
  have numbered : (Param.name x, i) ∈ params.zipIdx.reverse := by
    simpa [mem_zipIdx_iff_getElem?] using found
  rw [argument?, Option.map_eq_none_iff, find?_eq_none] at kept
  exact kept _ numbered (by simp)

/-- A free name of an inlined function is free in the function or in an argument. -/
theorem Template.inline?_free {t : Template} (plainParams : PlainParams t.params)
    (plain : t.body.Plain) {args : List Expr} {e : Expr} (inlined : t.inline? args = some e) :
    ∀ u ∈ e.free, u ∈ t.free ∨ ∃ a ∈ args, u ∈ a.free := by
  obtain ⟨b, variant, _, result⟩ := Template.inline?_spec plainParams plain args
  rw [inlined] at result
  split at result
  · cases result
  next assigns =>
  cases result
  intro u member
  -- back through unwrapping and dropping to the replaced variant
  have pruned := Body.free_toExpr _ member
  rw [Body.free, Body.toFunction_prune, Body.toFunction_replace] at pruned
  have used := Node.free_prune (.expr _) pruned
  rcases Node.replacedUses _ (.expr _) u used with ⟨own, kept⟩ | ⟨x, a, _, replaced, brought⟩
  · refine .inl (mem_without.mpr ⟨Expr.AlphaEq.free_subset variant.alpha own, ?_⟩)
    obtain ⟨role, n⟩ := u
    cases role with
    | read => exact not_mem_paramNames_of_argument?_eq_none plainParams (kept rfl)
    | write =>
      intro parameter
      obtain ⟨node, inside, assigned⟩ :=
        Body.write_assigned (Expr.AlphaEq.free_subset variant.alpha own)
      refine assigns (any_eq_true.mpr ⟨node, inside, ?_⟩)
      simpa [assigned] using parameter
  · rcases mem_args_of_argument? replaced with inside | rfl
    · exact .inr ⟨a, inside, brought⟩
    · cases brought

end JexlScript.Inline
