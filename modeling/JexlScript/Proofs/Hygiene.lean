import JexlScript.Proofs.FreshName
import JexlScript.Proofs.Plain
import JexlScript.Proofs.Replacement

/-!
# Substitution avoids capture

Substitution in a plain tree does two things at once: it renames the binders that
share their name with something an argument mentions, and it puts arguments in
the place of parameters. Taken apart, the first gives an alpha-equivalent tree
that binds no name of an argument, whatever is replaced; the second is replacing
the free names of that tree.
-/

namespace JexlScript.Inline

open List Script

/-! ## Renamings -/

/-- New names for binders, innermost first. -/
abbrev Renaming := List (String × String)

/-- What a name becomes; it stays as it is if nothing is said about it. -/
def renamed (N : Renaming) (x : String) : String := (N.lookup x).getD x

theorem renamed_of_some {N : Renaming} {x y : String} (h : N.lookup x = some y) :
    renamed N x = y := by
  rw [renamed, h, Option.getD_some]

theorem renamed_of_none {N : Renaming} {x : String} (h : N.lookup x = none) :
    renamed N x = x := by
  rw [renamed, h, Option.getD_none]

/-- The state in which a renaming is chosen: the reserved names `V` and those of
the body `B` are taken, and so are the new names, none of which the body uses.
Each is a variant of the name that it stands for. -/
structure Fits (V B : List String) (N : Renaming) (taken : List String) : Prop where
  reserved : V ⊆ taken
  body : B ⊆ taken
  renames : ∀ x y, N.lookup x = some y → y ∈ taken ∧ y ∉ B ∧ ∃ i, y = variantName x i

/-- A renaming still fits when more names are taken. -/
theorem Fits.grow {V B taken taken' : List String} {N : Renaming} (h : Fits V B N taken)
    (grows : taken ⊆ taken') : Fits V B N taken' :=
  ⟨fun _ hx => grows (h.reserved hx), fun _ hx => grows (h.body hx),
    fun x y hxy => ⟨grows (h.renames x y hxy).1, (h.renames x y hxy).2⟩⟩

/-- What entering a scope does to the renaming: the names of the scope lose what
they were renamed to outside, and those that are reserved get new ones. -/
structure Entered (V own : List String) (N N' : Renaming) (taken taken' : List String) :
    Prop where
  grows : taken ⊆ taken'
  outer : ∀ x, x ∉ own → N'.lookup x = N.lookup x
  kept : ∀ x ∈ own, x ∉ V → N'.lookup x = none
  fresh : ∀ x ∈ own, x ∈ V → ∃ i, N'.lookup x = some (variantName x i) ∧
    variantName x i ∉ taken ∧ variantName x i ∈ taken'
  distinct : ∀ x ∈ own, ∀ z ∈ own, x ∈ V → z ∈ V →
    N'.lookup x = N'.lookup z → x = z

/-- A table without the entries for some names. -/
def hideKeys {β : Type} (own : List String) (table : List (String × β)) : List (String × β) :=
  table.filter fun (name, _) => !own.contains name

/-- What is hidden is not found, and nothing else changes. -/
theorem lookup_hideKeys {β : Type} (own : List String) (table : List (String × β)) (x : String) :
    (hideKeys own table).lookup x = if x ∈ own then none else table.lookup x := by
  induction table with
  | nil => rw [hideKeys, filter_nil, lookup_nil, ite_self]
  | cons entry table ih =>
    obtain ⟨name, value⟩ := entry
    rw [hideKeys] at ih ⊢
    by_cases hown : name ∈ own
    · rw [filter_cons_of_neg (by simp [hown]), ih]
      split
      · rfl
      · rename_i hx
        have hne : x ≠ name := fun h => hx (h ▸ hown)
        exact (lookup_cons_ne hne).symm
    · rw [filter_cons_of_pos (by simp [hown])]
      by_cases hx : x = name
      · rw [hx, lookup_cons_self, lookup_cons_self, if_neg hown]
      · rw [lookup_cons_ne hx, lookup_cons_ne hx, ih]

/-- Entering a scope renames what clashes and hides the replacements of what is bound. -/
theorem enter_spec {ps : List Param} (plain : PlainParams ps) (declared : List String)
    (V : List String) (N : Renaming) (taken : List String) : ∃ N' taken',
      Entered V (paramNames ps ++ declared) N N' taken taken' ∧
      ∀ R, (Scope.enter ⟨R, N, V⟩ ps declared) taken =
        (⟨hideKeys (paramNames ps ++ declared) R, N', V⟩, taken') := by
  generalize hown : paramNames ps ++ declared = own
  by_cases empty : own = []
  · subst empty
    refine ⟨N, taken, ⟨List.Subset.refl _, fun _ _ => rfl, ?_, ?_, ?_⟩, fun R => ?_⟩
    · exact fun x hx => absurd hx not_mem_nil
    · exact fun x hx => absurd hx not_mem_nil
    · exact fun x hx => absurd hx not_mem_nil
    · have whole : hideKeys [] R = R := filter_eq_self.mpr fun _ _ => rfl
      rw [Scope.enter, hown, whole]
      rfl
  -- Renamings from outside are hidden before new names are chosen.
  · obtain ⟨N', taken', spec, runs⟩ := protectAll_spec V own (hideKeys own N) taken
    have hidden : ∀ x ∈ own, (hideKeys own N).lookup x = none := by
      intro x hx
      rw [lookup_hideKeys, if_pos hx]
    refine ⟨N', taken', ⟨spec.grows, ?_, ?_, spec.fresh, spec.distinct⟩, fun R => ?_⟩
    · intro x hx
      rw [spec.other x hx, lookup_hideKeys, if_neg hx]
    · intro x hx hr
      rw [spec.kept x hr, hidden x hx]
    · rw [Scope.enter, plain.filterMap_name?, hown, if_neg (by simpa using empty)]
      exact runs (hideKeys own R)

section

variable {V B own taken taken' : List String} {N N' : Renaming}

/-- A renaming that fits still does so inside a scope. -/
theorem Fits.entered (fits : Fits V B N taken) (h : Entered V own N N' taken taken') :
    Fits V B N' taken' := by
  refine ⟨fun x hx => h.grows (fits.reserved hx), fun x hx => h.grows (fits.body hx), ?_⟩
  intro x y hxy
  by_cases hown : x ∈ own
  · by_cases hr : x ∈ V
    · obtain ⟨i, found, free, isTaken⟩ := h.fresh x hown hr
      obtain rfl : variantName x i = y := Option.some.inj (found.symm.trans hxy)
      exact ⟨isTaken, fun hy => free (fits.body hy), i, rfl⟩
    · rw [h.kept x hown hr] at hxy
      exact absurd hxy (by simp)
  · rw [h.outer x hown] at hxy
    obtain ⟨isTaken, notBody, variant⟩ := fits.renames x y hxy
    exact ⟨h.grows isTaken, notBody, variant⟩

/-- A renamed name is a variant of the name. -/
theorem Fits.variant (fits : Fits V B N taken) (x : String) : Variant x (renamed N x) := by
  cases found : N.lookup x with
  | none => exact .inl (renamed_of_none found)
  | some y =>
    rw [renamed_of_some found]
    exact .inr (fits.renames x y found).2.2

theorem Fits.variants (fits : Fits V B N taken) (xs : List String) :
    ∀ y ∈ xs.map (renamed N), ∃ x ∈ xs, Variant x y := by
  intro y hy
  obtain ⟨x, hx, rfl⟩ := mem_map.mp hy
  exact ⟨x, hx, fits.variant x⟩

/-- What a name of the body becomes is taken, and is no other name of the body. -/
theorem Fits.renamed_mem (fits : Fits V B N taken) {x : String} (hx : x ∈ B) :
    renamed N x ∈ taken ∧ (renamed N x ∈ B → renamed N x = x) := by
  cases found : N.lookup x with
  | none =>
    rw [renamed_of_none found]
    exact ⟨fits.body hx, fun _ => rfl⟩
  | some y =>
    rw [renamed_of_some found]
    exact ⟨(fits.renames x y found).1, fun hy => absurd hy (fits.renames x y found).2.1⟩

/-- A name of the scope is renamed apart from every other name of the body. -/
theorem Entered.renamed_inj (h : Entered V own N N' taken taken') (fits : Fits V B N taken)
    (sub : own ⊆ B) {p x : String} (hp : p ∈ own) (hx : x ∈ B)
    (same : renamed N' p = renamed N' x) : p = x := by
  -- What a name of the body is renamed to, unless it is one of the scope that gets a new name.
  have old : (x ∈ own → x ∉ V) → renamed N' x ∈ taken ∧ (renamed N' x ∈ B → renamed N' x = x) := by
    intro hfree
    by_cases hown : x ∈ own
    · rw [renamed_of_none (h.kept x hown (hfree hown))]
      exact ⟨fits.body hx, fun _ => rfl⟩
    · rw [renamed, h.outer x hown]
      exact fits.renamed_mem hx
  by_cases hpV : p ∈ V
  · obtain ⟨y, found, free, _⟩ := h.fresh p hp hpV
    by_cases hxnew : x ∈ own ∧ x ∈ V
    · obtain ⟨z, found', _, _⟩ := h.fresh x hxnew.1 hxnew.2
      rw [renamed_of_some found, renamed_of_some found'] at same
      exact h.distinct p hp x hxnew.1 hpV hxnew.2 (by rw [found, found', same])
    · have := (old fun ho hv => hxnew ⟨ho, hv⟩).1
      rw [← same, renamed_of_some found] at this
      exact absurd this free
  · rw [renamed_of_none (h.kept p hp hpV)] at same
    by_cases hxnew : x ∈ own ∧ x ∈ V
    · obtain ⟨z, found, free, _⟩ := h.fresh x hxnew.1 hxnew.2
      rw [renamed_of_some found] at same
      exact absurd (same ▸ fits.body (sub hp)) free
    · have := (old fun ho hv => hxnew ⟨ho, hv⟩).2
      rw [same, this (same ▸ sub hp)]

/-- What a scope binds is renamed to nothing that is reserved. -/
theorem Entered.renamed_not_mem (h : Entered V own N N' taken taken') (fits : Fits V B N taken)
    {p : String} (hp : p ∈ own) : renamed N' p ∉ V := by
  by_cases hV : p ∈ V
  · obtain ⟨y, found, free, _⟩ := h.fresh p hp hV
    rw [renamed_of_some found]
    exact fun hy => free (fits.reserved hy)
  · rwa [renamed_of_none (h.kept p hp hV)]

/-- Names stay linked to what they become when a scope is entered. -/
theorem Entered.linked (h : Entered V own N N' taken taken') (fits : Fits V B N taken)
    (sub : own ⊆ B) {bound : List String} (members : ∀ x, x ∈ bound ↔ x ∈ own) {links : Links}
    {x : String} (hx : x ∈ B) (outside : Linked links x (renamed N x)) :
    Linked (linkNames bound (bound.map (renamed N')) ++ links) x (renamed N' x) := by
  refine linked_linkNames_map (fun p hp => ?_) fun hown => ?_
  · exact h.renamed_inj fits sub ((members p).mp hp) hx
  · rw [members] at hown
    rwa [renamed, h.outer x hown]

end

/-! ## Replacements that follow a renaming -/

/-- Renamed names are not replaced, and all others are replaced by what the table says. -/
def Tracks (R : List (String × Expr)) (N : Renaming) (σ : Replacement) (names : List String) :
    Prop :=
  ∀ x ∈ names, (∀ y, N.lookup x = some y → σ y = none) ∧ (N.lookup x = none → σ x = R.lookup x)

theorem Tracks.mono {R : List (String × Expr)} {N : Renaming} {σ : Replacement}
    {names names' : List String} (h : Tracks R N σ names) (sub : names' ⊆ names) :
    Tracks R N σ names' := fun x hx => h x (sub hx)

/-- A replacement keeps track of the table when a scope is entered, if it hides the new names of
the scope. -/
theorem Entered.tracks {V B own taken taken' names bound : List String} {N N' : Renaming}
    {R : List (String × Expr)} {σ : Replacement} (h : Entered V own N N' taken taken')
    (fits : Fits V B N taken) (sub : own ⊆ B) (members : ∀ x, x ∈ bound ↔ x ∈ own)
    (inBody : names ⊆ B) (tracks : Tracks R N σ names) :
    Tracks (hideKeys own R) N' (σ.hide (bound.map (renamed N'))) names := by
  intro x hx
  have image : x ∈ own → renamed N' x ∈ bound.map (renamed N') := fun hown =>
    mem_map_of_mem ((members x).mpr hown)
  constructor
  · intro y found
    rw [Replacement.hide]
    by_cases hown : x ∈ own
    · rw [if_pos (renamed_of_some found ▸ image hown)]
    · rw [h.outer x hown] at found
      rw [(tracks x hx).1 y found, ite_self]
  · intro found
    rw [Replacement.hide, lookup_hideKeys]
    by_cases hown : x ∈ own
    · rw [if_pos hown, if_pos (renamed_of_none found ▸ image hown)]
    · rw [if_neg hown, if_neg, (tracks x hx).2 (h.outer x hown ▸ found)]
      -- A name of the scope that had the new name of this one would be this one.
      intro hin
      obtain ⟨p, hp, same⟩ := mem_map.mp hin
      rw [members] at hp
      exact hown (h.renamed_inj fits sub hp (inBody hx)
        (same.trans (renamed_of_none found).symm) ▸ hp)

/-! ## Kinds of trees

Expressions, lists of them, statements and lists of those are substituted in by
five functions that recurse alike. What they have in common is said once, about a
kind of trees with its operations. -/

/-- A kind of trees with what substitution is compared with. -/
structure Layer (α : Type) where
  names : α → List String
  /-- The names bound in the list of statements around the tree. -/
  bound : α → List String
  binders : α → List String
  AlphaEq : Links → α → α → Prop
  replace : Replacement → α → α
  subst : Scope → α → Naming α

namespace Layer

/-- Expressions bind nothing where they stand. -/
def exprs : Layer Expr :=
  ⟨Expr.names, fun _ => [], Expr.binders, Expr.AlphaEq, Expr.replace, substExpr⟩

def exprLists : Layer (List Expr) :=
  ⟨exprNames, fun _ => [], exprBinders, AlphaEqExprs, replaceExprs, substExprs⟩

def propLists : Layer (List (String × Expr)) :=
  ⟨propNames, fun _ => [], propBinders, AlphaEqProps, replaceProps, substProps⟩

/-- Statements bind what they declare in the list they stand in. -/
def stmts : Layer Stmt :=
  ⟨Stmt.names, Stmt.bound, Stmt.binders, Stmt.AlphaEq, Stmt.replace, substStmt⟩

def stmtLists : Layer (List Stmt) :=
  ⟨stmtNames, blockNames, stmtBinders, AlphaEqStmts, replaceStmts, substStmts⟩

/-- Two trees side by side, where what the first one takes is taken for the second. -/
def prod {α β : Type} (A : Layer α) (B : Layer β) : Layer (α × β) where
  names p := A.names p.1 ++ B.names p.2
  bound p := A.bound p.1 ++ B.bound p.2
  binders p := A.binders p.1 ++ B.binders p.2
  AlphaEq links p q := A.AlphaEq links p.1 q.1 ∧ B.AlphaEq links p.2 q.2
  replace σ p := (A.replace σ p.1, B.replace σ p.2)
  subst scope p := do
    let a ← A.subst scope p.1
    let b ← B.subst scope p.2
    pure (a, b)

/-- `b` is `a` with the binders renamed that would capture a reserved name:
outside of them it is `a` under the renaming `N`, it binds variants of what `a`
binds and no reserved name, and substituting in `a` is replacing the free names
of `b`. -/
structure Renamed {α : Type} (L : Layer α) (V : List String) (N : Renaming) (taken : List String)
    (a b : α) (taken' : List String) : Prop where
  grows : taken ⊆ taken'
  bound : L.bound b = (L.bound a).map (renamed N)
  avoids : (L.binders b).Disjoint V
  variant : ∀ y ∈ L.binders b, ∃ x ∈ L.binders a, Variant x y
  alpha : ∀ links, (∀ x ∈ L.names a, Linked links x (renamed N x)) → L.AlphaEq links a b
  runs : ∀ R σ, Tracks R N σ (L.names a) →
    (L.subst ⟨R, N, V⟩ a) taken = (L.replace σ b, taken')

section

variable {α β γ : Type} {A : Layer α} {B : Layer β} {V t₁ t₂ t₃ : List String}
  {N : Renaming}

theorem variants_append {xs xs' ys ys' : List String}
    (hxs : ∀ y ∈ ys, ∃ x ∈ xs, Variant x y) (hxs' : ∀ y ∈ ys', ∃ x ∈ xs', Variant x y) :
    ∀ y ∈ ys ++ ys', ∃ x ∈ xs ++ xs', Variant x y := by
  intro y hy
  rcases mem_append.mp hy with hy | hy
  · obtain ⟨x, hx, variant⟩ := hxs y hy
    exact ⟨x, mem_append_left _ hx, variant⟩
  · obtain ⟨x, hx, variant⟩ := hxs' y hy
    exact ⟨x, mem_append_right _ hx, variant⟩

/-- Trees side by side are renamed one after the other. -/
theorem Renamed.prod {a a' : α} {b b' : β} (ha : A.Renamed V N t₁ a a' t₂)
    (hb : B.Renamed V N t₂ b b' t₃) : (A.prod B).Renamed V N t₁ (a, b) (a', b') t₃ where
  grows := fun _ hx => hb.grows (ha.grows hx)
  bound := by
    show A.bound a' ++ B.bound b' = (A.bound a ++ B.bound b).map (renamed N)
    rw [ha.bound, hb.bound, map_append]
  avoids := disjoint_append_left.mpr ⟨ha.avoids, hb.avoids⟩
  variant := variants_append ha.variant hb.variant
  alpha := fun links h =>
    ⟨ha.alpha links fun x hx => h x (mem_append_left _ hx),
      hb.alpha links fun x hx => h x (mem_append_right _ hx)⟩
  runs := by
    intro R σ tracks
    have first := ha.runs R σ (tracks.mono fun x hx => mem_append_left _ hx)
    have second := hb.runs R σ (tracks.mono fun x hx => mem_append_right _ hx)
    show ((fun p => ((p.1, (B.subst ⟨R, N, V⟩ b p.2).1), (B.subst ⟨R, N, V⟩ b p.2).2))
      (A.subst ⟨R, N, V⟩ a t₁) : (α × β) × List String) = _
    rw [first]
    show ((A.replace σ a', (B.subst ⟨R, N, V⟩ b t₂).1), (B.subst ⟨R, N, V⟩ b t₂).2) = _
    rw [second]
    rfl

/-- What is renamed inside of a constructor that binds nothing is renamed as a whole. -/
theorem Renamed.map {a b : α} (h : A.Renamed V N t₁ a b t₂) (C : Layer γ) (mk : α → γ)
    (names : C.names (mk a) = A.names a)
    (bound : C.bound (mk b) = (C.bound (mk a)).map (renamed N))
    (binders : ∀ c, C.binders (mk c) = A.binders c)
    (alpha : ∀ links, A.AlphaEq links a b → C.AlphaEq links (mk a) (mk b))
    (replace : ∀ σ, C.replace σ (mk b) = mk (A.replace σ b))
    (subst : ∀ scope t, (C.subst scope (mk a)) t =
      (mk (A.subst scope a t).1, (A.subst scope a t).2)) :
    C.Renamed V N t₁ (mk a) (mk b) t₂ where
  grows := h.grows
  bound := bound
  avoids := binders b ▸ h.avoids
  variant := by
    rw [binders, binders]
    exact h.variant
  alpha := fun links linked => alpha links (h.alpha links (names ▸ linked))
  runs := by
    intro R σ tracks
    rw [subst, h.runs R σ (names ▸ tracks), replace]

end

/-- Whether a tree is renamed by some variant under any renaming that fits. -/
def Renames {α : Type} (L : Layer α) (V B : List String) (a : α) : Prop :=
  L.names a ⊆ B → ∀ N taken, Fits V B N taken → ∃ b taken', L.Renamed V N taken a b taken'

section

variable {α β : Type} {L : Layer α} {M : Layer β} {V B : List String}

/-- Trees side by side have a variant if both have. -/
theorem Renames.prod {a : α} {b : β} (ha : L.Renames V B a) (hb : M.Renames V B b) :
    (L.prod M).Renames V B (a, b) := by
  intro sub N taken fits
  obtain ⟨a', _, renamed⟩ := ha (append_subset.mp sub).1 N taken fits
  obtain ⟨b', _, renamed'⟩ := hb (append_subset.mp sub).2 N _ (fits.grow renamed.grows)
  exact ⟨_, _, renamed.prod renamed'⟩

/-- An expression that binds nothing has a variant if its parts have. -/
theorem Renames.toExpr {a : α} (h : L.Renames V B a) (mk : α → Expr)
    (alpha : ∀ {links b}, L.AlphaEq links a b → (mk a).AlphaEq links (mk b))
    (names : (mk a).names = L.names a) (binders : ∀ b, (mk b).binders = L.binders b)
    (replace : ∀ σ b, (mk b).replace σ = mk (L.replace σ b))
    (subst : ∀ scope t, (substExpr scope (mk a)) t =
      (mk (L.subst scope a t).1, (L.subst scope a t).2)) : exprs.Renames V B (mk a) := by
  intro sub N taken fits
  obtain ⟨b, _, renamed⟩ := h (names ▸ sub) N taken fits
  exact ⟨_, _, renamed.map exprs mk names rfl binders (fun _ => alpha) (replace · b) subst⟩

end

end Layer

/-! ## Renaming a plain tree -/

/-- Parameters by their new names. -/
def renameParams (N : Renaming) (ps : List Param) : List Param :=
  ps.map (Scope.renameParam ⟨[], N, []⟩)

/-- Renamed parameters are of the same kinds. -/
theorem paramsFit_renameParams (N : Renaming) : ∀ ps, ParamsFit ps (renameParams N ps)
  | [] => trivial
  | .name _ :: ps => paramsFit_renameParams N ps
  | .pattern _ :: ps => ⟨rfl, paramsFit_renameParams N ps⟩

/-- Plain parameters are renamed name by name. -/
theorem paramNames_renameParams (N : Renaming) : ∀ {ps}, PlainParams ps →
    paramNames (renameParams N ps) = (paramNames ps).map (renamed N)
  | [], _ => rfl
  | p :: ps, h => by
    obtain ⟨n, rfl⟩ := h p mem_cons_self
    rw [paramNames_cons, map_append, ← paramNames_renameParams N h.tail]
    rfl

/-- The renaming of a parameter does not depend on what is replaced. -/
theorem map_renameParam (R : List (String × Expr)) (N : Renaming) (V : List String)
    (ps : List Param) : ps.map (Scope.renameParam ⟨R, N, V⟩) = renameParams N ps :=
  map_congr_left fun p _ => by cases p <;> rfl

theorem declared_renamed (t : Target) (N : Renaming) :
    Target.declared { t with name := renamed N t.name } = t.declared.map (renamed N) := by
  rw [Target.declared, Target.declared]
  split <;> rfl

section

variable {V B : List String}

/-- An identifier becomes its new name, or is replaced if it has none. -/
theorem renamed_ident (N : Renaming) (taken : List String) (x : String) :
    Layer.exprs.Renamed V N taken (.ident x) (.ident (renamed N x)) taken where
  grows := List.Subset.refl _
  bound := rfl
  avoids := fun _ hx => absurd hx not_mem_nil
  variant := fun _ hx => absurd hx not_mem_nil
  alpha := fun _ linked => .ident (linked x mem_cons_self)
  runs := by
    intro R σ tracks
    obtain ⟨new, old⟩ := tracks x mem_cons_self
    show (Scope.resolve ⟨R, N, V⟩ x, taken) = ((σ (renamed N x)).getD (.ident (renamed N x)), taken)
    cases found : N.lookup x with
    | none => rw [Scope.resolve, found, renamed_of_none found, old found]
    | some y => rw [Scope.resolve, found, renamed_of_some found, new y found, Option.getD_none]

/-- An arrow has a variant if its body has: its parameters are renamed apart first. -/
theorem renames_arrow {ps : List Param} {a : Expr}
    (plain : (Expr.arrow ps a).Plain) (body : Layer.exprs.Renames V B a) :
    Layer.exprs.Renames V B (.arrow ps a) := by
  intro sub N taken fits
  obtain ⟨N', taken₁, entered, enters⟩ := enter_spec plain.1 [] V N taken
  rw [append_nil] at entered enters
  -- The parameters get new names first, and the body is renamed below them.
  have inB : paramNames ps ⊆ B := fun x hx => sub (mem_append_left _ hx)
  have bodyInB : a.names ⊆ B := fun x hx => sub (mem_append_right _ hx)
  obtain ⟨b, taken₂, h⟩ := body bodyInB N' taken₁ (fits.entered entered)
  have new := paramNames_renameParams N' plain.1
  refine ⟨.arrow (renameParams N' ps) b, taken₂, ?_, rfl, ?_, ?_, ?_, ?_⟩
  · exact fun x hx => h.grows (entered.grows hx)
  · refine disjoint_append_left.mpr ⟨?_, h.avoids⟩
    rw [new]
    intro y hy
    obtain ⟨p, hp, rfl⟩ := mem_map.mp hy
    exact entered.renamed_not_mem fits hp
  · refine Layer.variants_append ?_ h.variant
    rw [new]
    exact (fits.entered entered).variants (paramNames ps)
  · intro links linked
    refine .arrow (paramsFit_renameParams N' ps) (h.alpha _ fun x hx => ?_)
    rw [linkParams, new]
    exact entered.linked fits inB (fun _ => Iff.rfl) (bodyInB hx)
      (linked x (mem_append_right _ hx))
  · intro R σ tracks
    have inner := entered.tracks fits inB (fun _ => Iff.rfl) bodyInB
      (tracks.mono fun x hx => mem_append_right _ hx)
    have runs := h.runs _ _ inner
    -- An arrow with an expression for its body declares nothing but its parameters.
    have nothing : declaredInExpr a = [] := by
      rw [declaredInExpr, plain.2.declarations_eq_nil]
      rfl
    show ((fun p => (Expr.arrow (ps.map p.1.renameParam) (substExpr p.1 a p.2).1,
      (substExpr p.1 a p.2).2)) (Scope.enter ⟨R, N, V⟩ ps (declaredInExpr a) taken) :
        Expr × List String) = _
    rw [nothing, enters]
    show (Expr.arrow (ps.map (Scope.renameParam ⟨_, N', V⟩)) (Layer.exprs.subst ⟨_, N', V⟩ a taken₁).1,
      (Layer.exprs.subst ⟨_, N', V⟩ a taken₁).2) = _
    rw [runs, map_renameParam, ← new]
    rfl

/-- A leaf is its own variant. -/
theorem renames_leaf {α : Type} {L : Layer α} {a : α}
    (bound : L.bound a = []) (binders : L.binders a = [])
    (alpha : ∀ links, L.AlphaEq links a a) (replace : ∀ σ, L.replace σ a = a)
    (subst : ∀ scope t, (L.subst scope a) t = (a, t)) : L.Renames V B a :=
  fun _ _ taken _ => ⟨a, taken, List.Subset.refl _, by rw [bound, map_nil],
    binders ▸ disjoint_nil_left _, by simp [binders], fun links _ => alpha links,
    fun _ _ _ => by rw [subst, replace]⟩

mutual

/-- Every plain expression has a variant that avoids the reserved names. -/
theorem exists_renamed : ∀ (e : Expr), e.Plain → Layer.exprs.Renames V B e
  | .ident x, _ => fun _ N taken _ => ⟨_, _, renamed_ident N taken x⟩
  | .lit _, _ => renames_leaf rfl rfl (fun _ => Expr.AlphaEq.lit) (fun _ => rfl) fun _ _ => rfl
  | .undefined, _ =>
    renames_leaf rfl rfl (fun _ => Expr.AlphaEq.undefined) (fun _ => rfl) fun _ _ => rfl
  | .array es, plain => (exists_renamedExprs es plain).toExpr .array .array rfl (fun _ => rfl)
      (fun _ _ => rfl) fun _ _ => rfl
  | .object ps, plain => (exists_renamedProps ps plain).toExpr .object .object rfl (fun _ => rfl)
      (fun _ _ => rfl) fun _ _ => rfl
  | .member a p true o, plain =>
    ((exists_renamed a plain.1).prod (exists_renamed p plain.2)).toExpr
      (fun p => .member p.1 p.2 true o) (fun h => .index h.1 h.2) rfl (fun _ => rfl)
      (fun _ _ => rfl) fun _ _ => rfl
  | .member a p false o, plain => (exists_renamed a plain.1).toExpr (.member · p false o) .dot rfl
      (fun _ => rfl) (fun _ _ => rfl) fun _ _ => rfl
  | .call a es, plain => ((exists_renamed a plain.1).prod (exists_renamedExprs es plain.2)).toExpr
      (fun p => .call p.1 p.2) (fun h => .call h.1 h.2) rfl (fun _ => rfl) (fun _ _ => rfl)
      fun _ _ => rfl
  | .new a es, plain => ((exists_renamed a plain.1).prod (exists_renamedExprs es plain.2)).toExpr
      (fun p => .new p.1 p.2) (fun h => .new h.1 h.2) rfl (fun _ => rfl) (fun _ _ => rfl)
      fun _ _ => rfl
  | .unary op a, plain => (exists_renamed a plain).toExpr (.unary op) .unary rfl (fun _ => rfl)
      (fun _ _ => rfl) fun _ _ => rfl
  | .binary a op b, plain => ((exists_renamed a plain.1).prod (exists_renamed b plain.2)).toExpr
      (fun p => .binary p.1 op p.2) (fun h => .binary h.1 h.2) rfl (fun _ => rfl) (fun _ _ => rfl)
      fun _ _ => rfl
  | .logical a op b, plain => ((exists_renamed a plain.1).prod (exists_renamed b plain.2)).toExpr
      (fun p => .logical p.1 op p.2) (fun h => .logical h.1 h.2) rfl (fun _ => rfl)
      (fun _ _ => rfl) fun _ _ => rfl
  | .ternary a b c, plain =>
    (((exists_renamed a plain.1).prod (exists_renamed b plain.2.1)).prod
      (exists_renamed c plain.2.2)).toExpr (fun p => .ternary p.1.1 p.1.2 p.2)
      (fun h => .ternary h.1.1 h.1.2 h.2) rfl (fun _ => rfl) (fun _ _ => rfl) fun _ _ => rfl
  | .arrow _ a, plain => renames_arrow plain (exists_renamed a plain.2)

theorem exists_renamedExprs : ∀ (es : List Expr), PlainExprs es → Layer.exprLists.Renames V B es
  | [], _ => renames_leaf rfl rfl (fun _ => AlphaEqExprs.nil) (fun _ => rfl) fun _ _ => rfl
  | e :: es, plain => by
    intro sub N taken fits
    obtain ⟨_, _, h⟩ :=
      (exists_renamed e plain.1).prod (exists_renamedExprs es plain.2) sub N taken fits
    exact ⟨_, _, h.map .exprLists (fun p => p.1 :: p.2) rfl rfl (fun _ => rfl)
      (fun _ h => AlphaEqExprs.cons h.1 h.2) (fun _ => rfl) fun _ _ => rfl⟩

theorem exists_renamedProps : ∀ (ps : List (String × Expr)), PlainProps ps →
    Layer.propLists.Renames V B ps
  | [], _ => renames_leaf rfl rfl (fun _ => AlphaEqProps.nil) (fun _ => rfl) fun _ _ => rfl
  | (k, e) :: ps, plain => by
    intro sub N taken fits
    obtain ⟨_, _, h⟩ :=
      (exists_renamed e plain.1).prod (exists_renamedProps ps plain.2) sub N taken fits
    exact ⟨_, _, h.map .propLists (fun p => (k, p.1) :: p.2) rfl rfl (fun _ => rfl)
      (fun _ h => AlphaEqProps.cons h.1 h.2) (fun _ => rfl) fun _ _ => rfl⟩

end

/-- A declaration by its new name avoids the reserved names. -/
theorem declared_avoids {N : Renaming} {t : Target} (free : ∀ x ∈ t.declared, renamed N x ∉ V) :
    (Target.declared { t with name := renamed N t.name }).Disjoint V := by
  rw [declared_renamed]
  intro y hy
  obtain ⟨x, hx, rfl⟩ := mem_map.mp hy
  exact free x hx

theorem Fits.declared_variants {N : Renaming} {taken : List String} (fits : Fits V B N taken)
    (t : Target) : ∀ y ∈ Target.declared { t with name := renamed N t.name },
      ∃ x ∈ t.declared, Variant x y := by
  rw [declared_renamed]
  exact fits.variants t.declared

/-- An assignment is renamed target and value. -/
theorem renamed_assign {N : Renaming} {t₁ t₂ : List String} {t : Target} {a b : Expr}
    (h : Layer.exprs.Renamed V N t₁ a b t₂) (fits : Fits V B N t₁)
    (free : ∀ x ∈ t.declared, renamed N x ∉ V) :
    Layer.stmts.Renamed V N t₁ (.assign t a) (.assign { t with name := renamed N t.name } b) t₂ where
  grows := h.grows
  bound := declared_renamed t N
  avoids := disjoint_append_left.mpr ⟨declared_avoids free, h.avoids⟩
  variant := Layer.variants_append (fits.declared_variants t) h.variant
  alpha := fun links linked =>
    .assign ⟨linked _ mem_cons_self, rfl, rfl⟩
      (h.alpha links fun x hx => linked x (mem_cons_of_mem _ hx))
  runs := by
    intro R σ tracks
    have runs := h.runs R σ (tracks.mono fun x hx => mem_cons_of_mem _ hx)
    show (Stmt.assign (Scope.renameTarget ⟨R, N, V⟩ t) (Layer.exprs.subst ⟨R, N, V⟩ a t₁).1,
      (Layer.exprs.subst ⟨R, N, V⟩ a t₁).2) = _
    rw [runs]
    rfl

theorem renamed_bare {N : Renaming} {taken : List String} {t : Target}
    (fits : Fits V B N taken) (free : ∀ x ∈ t.declared, renamed N x ∉ V) :
    Layer.stmts.Renamed V N taken (.bare t) (.bare { t with name := renamed N t.name }) taken where
  grows := List.Subset.refl _
  bound := declared_renamed t N
  avoids := declared_avoids free
  variant := fits.declared_variants t
  alpha := fun _ linked => .bare ⟨linked _ mem_cons_self, rfl, rfl⟩
  runs := fun _ _ _ => rfl

/-- The branches of a condition declare nothing, so they are renamed as they stand. -/
theorem renamed_cond {N : Renaming} {t₁ t₂ t₃ t₄ : List String} {a b : Expr}
    {ys ys' ns ns' : List Stmt} (h : Layer.exprs.Renamed V N t₁ a b t₂)
    (hys : Layer.stmtLists.Renamed V N t₂ ys ys' t₃) (nothingYes : blockNames ys = [])
    (hns : Layer.stmtLists.Renamed V N t₃ ns ns' t₄) (nothingNo : blockNames ns = []) :
    Layer.stmts.Renamed V N t₁ (.cond a ys ns) (.cond b ys' ns') t₄ := by
  have yes : blockNames ys' = [] := by
    have := hys.bound
    rwa [show Layer.stmtLists.bound ys = [] from nothingYes, map_nil] at this
  have no : blockNames ns' = [] := by
    have := hns.bound
    rwa [show Layer.stmtLists.bound ns = [] from nothingNo, map_nil] at this
  refine ((h.prod hys).prod hns).map .stmts (fun p => Stmt.cond p.1.1 p.1.2 p.2) rfl rfl
    (fun _ => rfl) (fun _ h => ?_) (fun σ => ?_) (fun _ _ => rfl)
  · refine Stmt.AlphaEq.cond h.1.1 ?_ ?_
    · rw [linkBlocks, nothingYes, yes]
      exact h.1.2
    · rw [linkBlocks, nothingNo, no]
      exact h.2
  · show Stmt.cond (b.replace σ) (replaceStmts (σ.hide (blockNames ys')) ys')
      (replaceStmts (σ.hide (blockNames ns')) ns') = _
    rw [yes, no, Replacement.hide_nil]
    rfl

mutual

/-- Every plain statement has one, if what it declares has been renamed already. -/
theorem exists_renamedStmt : ∀ (s : Stmt), s.Plain → s.names ⊆ B →
    ∀ (N : Renaming) (taken : List String), Fits V B N taken →
    (∀ x ∈ s.bound, renamed N x ∉ V) → ∃ t taken', Layer.stmts.Renamed V N taken s t taken'
  | .ret a, plain, sub, N, taken, fits, _ => by
    obtain ⟨b, _, h⟩ := exists_renamed a plain sub N taken fits
    exact ⟨.ret b, _, h.map .stmts Stmt.ret rfl rfl (fun _ => rfl) (fun _ => Stmt.AlphaEq.ret)
      (fun _ => rfl) (fun _ _ => rfl)⟩
  | .expr a, plain, sub, N, taken, fits, _ => by
    obtain ⟨b, _, h⟩ := exists_renamed a plain sub N taken fits
    exact ⟨.expr b, _, h.map .stmts Stmt.expr rfl rfl (fun _ => rfl) (fun _ => Stmt.AlphaEq.expr)
      (fun _ => rfl) (fun _ _ => rfl)⟩
  | .retNothing, _, sub, N, taken, fits, _ =>
    renames_leaf rfl rfl (fun _ => Stmt.AlphaEq.retNothing) (fun _ => rfl) (fun _ _ => rfl) sub N
      taken fits
  | .assign t a, plain, sub, N, taken, fits, free => by
    obtain ⟨b, _, h⟩ := exists_renamed a plain (cons_subset.mp sub).2 N taken fits
    exact ⟨_, _, renamed_assign h fits free⟩
  | .bare _, _, _, _, _, fits, free => ⟨_, _, renamed_bare fits free⟩
  | .cond a ys ns, plain, sub, N, taken, fits, _ => by
    obtain ⟨plainTest, ⟨plainYes, nothingYes⟩, plainNo, nothingNo⟩ := plain
    -- Branches declare nothing, so no new scope is entered in them.
    have yes := plainYes.blockNames_eq_nil nothingYes
    have no := plainNo.blockNames_eq_nil nothingNo
    obtain ⟨sub₁, subNo⟩ := append_subset.mp sub
    obtain ⟨subTest, subYes⟩ := append_subset.mp sub₁
    obtain ⟨b, _, h⟩ := exists_renamed a plainTest subTest N taken fits
    obtain ⟨ys', _, hys⟩ := exists_renamedStmts ys plainYes subYes N _ (fits.grow h.grows)
      (by simp [yes])
    obtain ⟨ns', _, hns⟩ := exists_renamedStmts ns plainNo subNo N _
      (fits.grow (h.prod hys).grows) (by simp [no])
    exact ⟨_, _, renamed_cond h hys yes hns no⟩

theorem exists_renamedStmts : ∀ (ss : List Stmt), PlainStmts ss → stmtNames ss ⊆ B →
    ∀ (N : Renaming) (taken : List String), Fits V B N taken →
    (∀ x ∈ blockNames ss, renamed N x ∉ V) →
    ∃ ts taken', Layer.stmtLists.Renamed V N taken ss ts taken'
  | [], _, sub, N, taken, fits, _ =>
    renames_leaf rfl rfl (fun _ => AlphaEqStmts.nil) (fun _ => rfl) (fun _ _ => rfl) sub N taken
      fits
  | s :: ss, plain, sub, N, taken, fits, free => by
    obtain ⟨freeHead, freeTail⟩ := forall_mem_append.mp free
    obtain ⟨t, _, h⟩ := exists_renamedStmt s plain.1 (append_subset.mp sub).1 N taken fits
      freeHead
    obtain ⟨ts, _, hs⟩ := exists_renamedStmts ss plain.2 (append_subset.mp sub).2 N _
      (fits.grow h.grows) freeTail
    refine ⟨t :: ts, _, (h.prod hs).map .stmtLists (fun p => p.1 :: p.2) rfl ?_ (fun _ => rfl)
      (fun _ h => AlphaEqStmts.cons h.1 h.2) (fun _ => rfl) (fun _ _ => rfl)⟩
    exact (h.prod hs).bound

end

end

end JexlScript.Inline
