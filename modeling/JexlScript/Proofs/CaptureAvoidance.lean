import JexlScript.Inline.Program
import JexlScript.Script.Printer
import JexlScript.Proofs.Hygiene
import JexlScript.Proofs.RoutineBody

/-!
# Inlining is capture-avoiding substitution

Capture-avoiding substitution is replacement in a variant of the body that binds
no free name of an argument. All such variants give the same tree up to the names
it binds, so it does not matter which one is taken. Inlining a routine replaces
the parameters in one of them, drops the trailing placeholders of calls and
unwraps the body. A placeholder is known by its name, so that a variable called
`undefined` is dropped like one; the result does not depend on the variant as long
as no such variable is bound.
-/

namespace JexlScript.Inline

open List Script

/-! ## Bodies up to the names they bind -/

namespace Body

/-- A body as a function without parameters, whose binders and free names are those of the body. -/
def toFunction : Body → Expr
  | .expr e => .arrow [] e
  | .block ss => .arrowBlock [] ss

/-- Bodies are equivalent if the functions they make are. -/
def AlphaEq (b c : Body) : Prop := b.toFunction.AlphaEq [] c.toFunction

/-- The names bound anywhere in a body. -/
def binders (b : Body) : List String := b.toFunction.binders

/-- Replaces the free names of a body; a block hides what it declares. -/
def replace (σ : Replacement) : Body → Body
  | .expr e => .expr (e.replace σ)
  | .block ss => .block (replaceStmts (σ.hide (blockNames ss)) ss)

/-- Replacing in a body is replacing in its function, which has no parameters to hide names. -/
theorem toFunction_replace (σ : Replacement) (b : Body) :
    (b.replace σ).toFunction = b.toFunction.replace σ := by
  cases b with
  | expr e =>
    show Expr.arrow [] (e.replace σ) = .arrow [] (e.replace (σ.hide []))
    rw [Replacement.hide_nil]
  | block ss =>
    show Expr.arrowBlock [] (replaceStmts (σ.hide (blockNames ss)) ss) =
      .arrowBlock [] (replaceStmts ((σ.hide []).hide (blockNames ss)) ss)
    rw [Replacement.hide_nil]

/-- Pruning a body is pruning its function. -/
theorem toFunction_prune (b : Body) : b.prune.toFunction = b.toFunction.prune := by
  cases b <;> rfl

/-- Two bodies equivalent to a third are equivalent. -/
theorem AlphaEq.joined {a b c : Body} (h : a.AlphaEq b) (h' : a.AlphaEq c) : b.AlphaEq c :=
  Node.AlphaEq.joined (m := .expr _) (n := .expr _) (k := .expr _) .nil h h'

/-- Replacement keeps bodies equivalent that bind no name of what is put in. -/
theorem AlphaEq.replace {b c : Body} {σ : Replacement} {names : List String} (h : b.AlphaEq c)
    (within : σ.Within names) (hb : b.binders.Disjoint names) (hc : c.binders.Disjoint names) :
    (b.replace σ).AlphaEq (c.replace σ) := by
  rw [AlphaEq, toFunction_replace, toFunction_replace]
  refine Node.AlphaEq.replace (m := .expr _) (n := .expr _) h ?_ hb hc
  rintro x _ rfl
  exact ⟨rfl, fun a ha => ⟨within x a ha, fun _ _ => rfl⟩⟩

/-- Pruning goes by the name `undefined`, so neither body may bind it. -/
theorem AlphaEq.prune {b c : Body} (h : b.AlphaEq c) (hb : "undefined" ∉ b.binders)
    (hc : "undefined" ∉ c.binders) : b.prune.AlphaEq c.prune := by
  rw [AlphaEq, toFunction_prune, toFunction_prune]
  exact Node.AlphaEq.prune (m := .expr _) (n := .expr _) h keepsUndefined_nil
    (disjoint_singleton.mpr hb) (disjoint_singleton.mpr hc)

/-- Only a block of a single `return` is unwrapped; any other is called on the spot. -/
theorem toExpr_block_of_ne {ss : List Stmt} (h : ∀ e, ss ≠ [.ret e]) :
    (Body.block ss).toExpr = .call (.arrowBlock [] ss) [] := by
  rw [toExpr]
  exact h

/-- Equivalent bodies are unwrapped alike, since a `return` is equivalent to a `return` only. -/
theorem AlphaEq.toExpr {b c : Body} (h : b.AlphaEq c) : b.toExpr.AlphaEq [] c.toExpr := by
  match b, c, h with
  | .expr _, .expr _, .arrow _ h => exact h
  | .block ss, .block ts, .arrowBlock fit h =>
    by_cases single : ∃ e, ss = [.ret e]
    · obtain ⟨e, rfl⟩ := single
      match ts, h with
      | [.ret _], .cons (.ret h) .nil => exact h
    · have notSingle : ∀ f, ts ≠ [.ret f] := by
        rintro f rfl
        match ss, h with
        | [.ret e], .cons (.ret _) .nil => exact single ⟨e, rfl⟩
      rw [toExpr_block_of_ne fun e he => single ⟨e, he⟩, toExpr_block_of_ne notSingle]
      exact .call (.arrowBlock fit h) .nil

end Body

/-- A variant of a body that binds no free name of the arguments. -/
structure CaptureFree (body : Body) (args : List Expr) (variant : Body) : Prop where
  alpha : body.AlphaEq variant
  avoids : variant.binders.Disjoint ((exprsFree args).map Use.name)

/-! ## Parameters and arguments -/

/-- What a name is replaced by: the argument in the place of the last parameter
of that name, `undefined` where there are not so many. -/
def argument? (params : List Param) (args : List Expr) : Replacement := fun x =>
  (params.zipIdx.reverse.find? fun p => p.1 = .name x).map fun p => args.getD p.2 .undefined

/-- Of two parameters with one name the later one gets its argument. -/
theorem argument?_cons (p : Param) (params : List Param) (args : List Expr) (x : String) :
    argument? (p :: params) args x = (argument? params args.tail x).or
      (if p = .name x then some (args.head?.getD .undefined) else none) := by
  have head : args.getD 0 .undefined = args.head?.getD .undefined := by cases args <;> rfl
  have tail : ∀ i, args.getD (i + 1) .undefined = args.tail.getD i .undefined := by
    cases args <;> simp
  have shift : ((params.zipIdx 1).reverse.find? fun q => q.1 = .name x) =
      (params.zipIdx.reverse.find? fun q => q.1 = .name x).map fun q => (q.1, q.2 + 1) := by
    rw [zipIdx_succ, ← map_reverse, find?_map]
    rfl
  have last : ([(p, 0)].find? fun q => q.1 = .name x).map (fun q => args.getD q.2 .undefined) =
      if p = .name x then some (args.head?.getD .undefined) else none := by
    by_cases hp : p = .name x
    · rw [find?_cons_of_pos (by simp [hp]), if_pos hp, Option.map_some, head]
    · rw [find?_cons_of_neg (by simp [hp]), if_neg hp, find?_nil, Option.map_none]
  rw [argument?, zipIdx_cons, reverse_cons, find?_append, Option.map_or, last, shift,
    Option.map_map]
  congr 2
  exact funext fun q => tail q.2

/-- The table of arguments gives each parameter its argument. -/
theorem lookup_bindArgs (x : String) : ∀ (params : List Param) (args : List Expr),
    (bindArgs params args).lookup x = argument? params args x
  | [], _ => rfl
  | .name n :: params, args => by
    rw [bindArgs, lookup_append, lookup_bindArgs x params args.tail, argument?_cons]
    congr 1
    by_cases h : x = n
    · rw [h, lookup_cons_self, if_pos rfl]
    · rw [lookup_cons_ne h, if_neg fun hn => h (Param.name.inj hn).symm, lookup_nil]
  | .pattern _ :: params, args => by
    rw [bindArgs, lookup_bindArgs x params args.tail, argument?_cons, if_neg (by simp),
      Option.or_none]

/-! ## Substitution in a body -/

/-- A body that is a plain expression or a list of plain statements. -/
def Body.Plain : Body → Prop
  | .expr e => e.Plain
  | .block ss => PlainStmts ss

/-- Nothing is renamed at the start. -/
theorem fits_nil (V B : List String) : Fits V B [] (V ++ B) :=
  ⟨subset_append_left _ _, subset_append_right _ _, fun _ _ h => by simp at h⟩

/-- At the start a replacement is looked up in the table as it is. -/
theorem tracks_nil (R : List (String × Expr)) (names : List String) :
    Tracks R [] (R.lookup ·) names :=
  fun _ _ => ⟨fun _ h => by simp at h, fun _ => rfl⟩

/-- Substitution in a body renames to some `b` that avoids the reserved names, and replaces in
`b`. Which `b` does not depend on what is replaced. -/
theorem Body.subst_spec (V : List String) : ∀ {body : Body}, body.Plain → ∃ b : Body,
    body.AlphaEq b ∧ b.binders.Disjoint V ∧ (∀ y ∈ b.binders, ∃ x ∈ body.binders, Variant x y) ∧
      ∀ R, (Id.run ((body.subst ⟨R, [], V⟩).run (V ++ body.names))).1 = b.replace (R.lookup ·)
  | .expr e, plain => by
    obtain ⟨f, taken, h⟩ := exists_renamed e plain (List.Subset.refl _) [] _ (fits_nil V e.names)
    refine ⟨.expr f, .arrow trivial (h.alpha _ fun _ _ => rfl), h.avoids, h.variant, fun R => ?_⟩
    -- An expression binds nothing at its own level, so entering it changes nothing.
    have nothing : declaredInExpr e = [] := by
      rw [declaredInExpr, Expr.Plain.declarations_eq_nil plain]
      rfl
    show (Body.expr (substExpr (Scope.enter ⟨R, [], V⟩ [] (declaredInExpr e) (V ++ e.names)).1 e
      (Scope.enter ⟨R, [], V⟩ [] (declaredInExpr e) (V ++ e.names)).2).1) = _
    rw [nothing]
    exact congrArg (fun r => Body.expr r.1) (h.runs R _ (tracks_nil R _))
  | .block ss, plain => by
    have fits := fits_nil V (stmtNames ss)
    obtain ⟨N, taken, entered, enters⟩ := enter_spec (fun p hp => absurd hp not_mem_nil)
      (declaredInBlock ss) V [] (V ++ stmtNames ss)
    -- What the block declares is what the scope is entered with.
    have members : ∀ x, x ∈ blockNames ss ↔ x ∈ paramNames [] ++ declaredInBlock ss := by
      intro x
      rw [paramNames, flatMap_nil, nil_append, declaredInBlock, Names.mem_distinct,
        PlainStmts.mem_declarations plain]
    have inBody : paramNames [] ++ declaredInBlock ss ⊆ stmtNames ss := fun x hx =>
      PlainStmts.blockNames_subset plain ((members x).mpr hx)
    obtain ⟨ts, taken', h⟩ := exists_renamedStmts ss plain (List.Subset.refl _) N taken
      (fits.entered entered) fun x hx => entered.renamed_not_mem fits ((members x).mp hx)
    have bound : blockNames ts = (blockNames ss).map (renamed N) := h.bound
    refine ⟨.block ts, .arrowBlock trivial (h.alpha _ fun x hx => ?_), h.avoids, h.variant,
      fun R => ?_⟩
    · rw [linkBlocks, bound]
      exact entered.linked fits inBody members hx rfl
    · have tracks := entered.tracks fits inBody members (List.Subset.refl _)
        (tracks_nil R (stmtNames ss))
      show (Body.block (substStmts
        (Scope.enter ⟨R, [], V⟩ [] (declaredInBlock ss) (V ++ stmtNames ss)).1 ss
        (Scope.enter ⟨R, [], V⟩ [] (declaredInBlock ss) (V ++ stmtNames ss)).2).1) = _
      rw [enters]
      refine (congrArg (fun r => Body.block r.1) (h.runs _ _ tracks)).trans ?_
      rw [← bound]
      rfl

/-! ## Inlining -/

/-- The table of arguments has the plain parameters for its keys. -/
theorem map_fst_bindArgs : ∀ (params : List Param) (args : List Expr),
    (bindArgs params args).map Prod.fst = (params.filterMap Param.name?).reverse
  | [], _ => rfl
  | .name n :: params, args => by
    rw [bindArgs, map_append, map_fst_bindArgs params args.tail,
      filterMap_cons_some (f := Param.name?) (b := n) rfl, reverse_cons]
    rfl
  | .pattern _ :: params, args => by
    rw [bindArgs, map_fst_bindArgs params args.tail, filterMap_cons_none (f := Param.name?) rfl]

theorem Body.assigns_reverse (body : Body) (names : List String) :
    body.assigns names.reverse = body.assigns names := by
  simp only [Body.assigns, contains_reverse]

/-- Free names of arguments are among their names, which are what is reserved. -/
theorem free_subset_exprNames (args : List Expr) :
    (exprsFree args).map Use.name ⊆ exprNames args := by
  intro x inside
  obtain ⟨u, free, rfl⟩ := mem_map.mp inside
  obtain ⟨a, given, free⟩ := mem_exprsFree.mp free
  rw [exprNames_eq]
  exact mem_flatMap.mpr ⟨_, mem_map_of_mem given, Expr.name_mem_of_free free⟩

/-- Inlining replaces the parameters in a variant of the body that binds its own
names, and numbered ones in the place of those that the arguments mention. -/
theorem Template.inline?_spec {t : Template} (plainParams : PlainParams t.params)
    (plain : t.body.Plain) (args : List Expr) : ∃ b, CaptureFree t.body args b ∧
      (∀ y ∈ b.binders, y ∉ exprNames args ∧ ∃ x ∈ t.body.binders, Variant x y) ∧
      t.inline? args = if t.body.assigns (paramNames t.params) then none
        else some (b.replace (argument? t.params args)).prune.toExpr := by
  obtain ⟨b, alpha, avoids, variant, runs⟩ := Body.subst_spec (exprNames args) plain
  refine ⟨b, ⟨alpha, fun y bound free => avoids bound (free_subset_exprNames args free)⟩,
    fun y bound => ⟨avoids bound, variant y bound⟩, ?_⟩
  have replaced : ((bindArgs t.params args).lookup ·) = argument? t.params args :=
    funext fun x => lookup_bindArgs x t.params args
  rw [Template.inline?, map_fst_bindArgs, Body.assigns_reverse, plainParams.filterMap_name?]
  simp only [runs, replaced]

/-- A parameter is replaced by an argument, or by a placeholder where there is none. -/
theorem mem_args_of_argument? {params : List Param} {args : List Expr} {x : String} {a : Expr}
    (replaced : argument? params args x = some a) : a ∈ args ∨ a = .undefined := by
  obtain ⟨⟨p, i⟩, _, rfl⟩ := Option.map_eq_some_iff.mp replaced
  rw [getD_eq_getElem?_getD]
  cases found : args[i]? with
  | none => exact .inr rfl
  | some a => exact .inl (mem_of_getElem? found)

/-- A replacement by arguments brings in free names of arguments only. -/
theorem argument?_within (params : List Param) (args : List Expr) :
    (argument? params args).Within ((exprsFree args).map Use.name) := by
  intro x a replaced
  rcases mem_args_of_argument? replaced with given | rfl
  · exact map_subset _ fun u free => mem_exprsFree.mpr ⟨a, given, free⟩
  · exact nil_subset _

/-- It does not matter in which capture-free variant parameters are replaced. -/
theorem CaptureFree.replace_alphaEq {body b c : Body} {params : List Param} {args : List Expr}
    (hb : CaptureFree body args b) (hc : CaptureFree body args c) :
    (b.replace (argument? params args)).AlphaEq (c.replace (argument? params args)) :=
  (hb.alpha.joined hc.alpha).replace (argument?_within params args) hb.avoids hc.avoids

/-- `undefined` stays unbound if neither the body nor an argument binds it. -/
theorem undefined_not_mem_replace {b : Body} {params : List Param} {args : List Expr}
    (body : "undefined" ∉ b.binders) (given : "undefined" ∉ exprBinders args) :
    "undefined" ∉ (b.replace (argument? params args)).binders := by
  intro bound
  rw [Body.binders, Body.toFunction_replace] at bound
  rcases Node.mem_binders_replace (n := .expr _) bound with own | ⟨x, a, replaced, inside⟩
  · exact body own
  · rcases mem_args_of_argument? replaced with argument | rfl
    · rw [exprBinders_eq] at given
      exact given (mem_flatMap.mpr ⟨a, argument, inside⟩)
    · exact absurd inside not_mem_nil

/-- Whether a program defines a function whose parameters and body are plain. -/
def StartsPlain (program : Program) : Prop :=
  ∃ t, Template.ofProgram? program = some t ∧ PlainParams t.params ∧ t.body.Plain

/-- A lambda expression is lowered to a plain arrow. -/
theorem lambda_startsPlain (params : Routine.Params Routine.Expr) (body : Routine.Expr)
    (span : Routine.Span) : Routine.Gives StartsPlain (do
      let e ← (Routine.Expr.lambda params body span).lower []
      .ok ⟨[.expr e]⟩) := by
  have arrow : Routine.Gives
      (fun e => ∃ (names : List String) (a : Expr), e = .arrow (names.map .name) a ∧ a.Plain)
      ((Routine.Expr.lambda params body span).lower []) := by
    rw [Routine.Expr.lower]
    exact Routine.Gives.bind' fun names => (body.lower_plain _).bind fun a plain =>
      .ok ⟨names, a, rfl, plain⟩
  refine arrow.bind ?_
  rintro _ ⟨names, a, rfl, plain⟩
  exact .ok ⟨_, rfl, Routine.plainParams_names names, plain⟩

/-- What a routine is lowered to starts with a plain function. -/
theorem startsPlain_of_toProgram {source : String} {program : Program}
    (h : Routine.toProgram source = .ok program) : StartsPlain program := by
  have first : ∀ ss, Routine.Gives StartsPlain (Routine.lowerFirst ss) := by
    intro ss
    rw [Routine.lowerFirst.eq_def]
    split
    · exact .error _
    · exact .error _
    · refine (Routine.lowerDefinition_plain _ _ _).bind ?_
      rintro _ ⟨ps, ss, rfl, plainParams, plain⟩
      exact .ok ⟨_, rfl, plainParams, plain⟩
    · exact lambda_startsPlain _ _ _
    · exact lambda_startsPlain _ _ _
    · exact .error _
  rw [Routine.toProgram] at h
  split at h
  · exact absurd h (by simp)
  · split at h
    · exact first _ program h
    · exact absurd h (by simp)

/-- Inlining the program of a routine is capture-avoiding substitution: unless
the routine assigns to a parameter, the result is its body with the arguments in
the place of the parameters, taken in a variant that binds no free name of an
argument, without the trailing placeholders of calls and unwrapped. The variant
binds the names of the body, numbered where an argument mentions them. Whatever
variant is taken, the substituted body is the same up to the names it binds, and
so is the result where nothing is called `undefined`. -/
theorem inlineProgram?_captureAvoiding {source : String} {program : Program}
    (h : Routine.toProgram source = .ok program) (args : List Expr) :
    ∃ t b, Template.ofProgram? program = some t ∧ CaptureFree t.body args b ∧
      (∀ y ∈ b.binders, y ∉ exprNames args ∧ ∃ x ∈ t.body.binders, Variant x y) ∧
      inlineProgram? program args =
        (if t.body.assigns (paramNames t.params) then none
          else some (b.replace (argument? t.params args)).prune.toExpr) ∧
      ∀ c, CaptureFree t.body args c →
        (c.replace (argument? t.params args)).AlphaEq (b.replace (argument? t.params args)) ∧
        ("undefined" ∉ t.body.binders → "undefined" ∉ exprBinders args →
          "undefined" ∉ c.binders →
          (c.replace (argument? t.params args)).prune.toExpr.AlphaEq []
            (b.replace (argument? t.params args)).prune.toExpr) := by
  obtain ⟨t, found, plainParams, plain⟩ := startsPlain_of_toProgram h
  obtain ⟨b, free, bound, inlined⟩ := Template.inline?_spec plainParams plain args
  refine ⟨t, b, found, free, bound, ?_, fun c free' => ?_⟩
  · rw [inlineProgram?, found]
    exact inlined
  · have same := @CaptureFree.replace_alphaEq _ _ _ t.params _ free' free
    refine ⟨same, fun body given variant => ?_⟩
    -- a numbered name is none of the placeholders
    have own : "undefined" ∉ b.binders := by
      intro inside
      obtain ⟨x, source, named⟩ := (bound _ inside).2
      exact named.ne_undefined (fun is => body (is ▸ source)) rfl
    exact (same.prune (undefined_not_mem_replace variant given)
      (undefined_not_mem_replace own given)).toExpr

/-- The parameter `v` of an inner function gives way to the argument `v`. -/
theorem inlineProgram?_captureAvoiding_map : ∃ program t b,
    Routine.toProgram "lambda xs, y: xs.map(lambda v: v + y)" = .ok program ∧
      Template.ofProgram? program = some t ∧ CaptureFree t.body [.ident "vs", .ident "v"] b ∧
      inlineProgram? program [.ident "vs", .ident "v"] =
        some (b.replace (argument? t.params [.ident "vs", .ident "v"])).prune.toExpr ∧
      (b.replace (argument? t.params [.ident "vs", .ident "v"])).prune.toExpr.text =
        "vs.map((v_1) => v_1 + v)".toList := by
  have runs : ((Routine.toProgram "lambda xs, y: xs.map(lambda v: v + y)").toOption.bind
      (inlineProgram? · [.ident "vs", .ident "v"])).map Expr.text =
        some "vs.map((v_1) => v_1 + v)".toList := by
    rw [Routine.toProgram, if_neg (by simp)]
    decide +kernel
  obtain ⟨e, found, written⟩ := Option.map_eq_some_iff.mp runs
  obtain ⟨program, read, inlined⟩ := Option.bind_eq_some_iff.mp found
  have parsed := Routine.toOption_eq_some read
  obtain ⟨t, b, template, free, _, result, _⟩ :=
    inlineProgram?_captureAvoiding parsed [.ident "vs", .ident "v"]
  rw [inlined] at result
  split at result
  · exact absurd result (by simp)
  · exact ⟨program, t, b, parsed, template, free, inlined.trans result,
      Option.some.inj result ▸ written⟩

/-- `f => undefined => f(undefined)`: a parameter that looks like a placeholder. -/
def handedOn : Program :=
  ⟨[.expr (.arrow [.name "f"]
    (.arrow [.name "undefined"] (.call (.ident "f") [.ident "undefined"])))]⟩

/-- The names in `f => x => g(y)`. -/
def handedNames? : Program → Option (List String)
  | ⟨[.expr (.arrow [.name f] (.arrow [.name x] (.call (.ident g) [.ident y])))]⟩ =>
    some [f, x, g, y]
  | _ => none

/-- An inner function whose parameter is called `undefined` does not hand it on: the
result is not the substitution in a variant that calls it otherwise. -/
theorem inlineProgram?_drops_parameter :
    Routine.toProgram "lambda f: lambda undefined: f(undefined)" = .ok handedOn ∧
      ∃ t c e, Template.ofProgram? handedOn = some t ∧ CaptureFree t.body [.ident "g"] c ∧
        inlineProgram? handedOn [.ident "g"] = some e ∧ e.text = "(undefined) => g()".toList ∧
        ¬ (c.replace (argument? t.params [.ident "g"])).prune.toExpr.AlphaEq [] e := by
  have computed : (Routine.toProgram "lambda f: lambda undefined: f(undefined)").toOption.bind
      handedNames? = some ["f", "undefined", "f", "undefined"] := by
    rw [Routine.toProgram, if_neg (by simp)]
    decide +kernel
  refine ⟨?_, ⟨[.name "f"],
    .expr (.arrow [.name "undefined"] (.call (.ident "f") [.ident "undefined"]))⟩,
    .expr (.arrow [.name "u"] (.call (.ident "f") [.ident "u"])),
    .arrow [.name "undefined"] (.call (.ident "g") []), rfl, ⟨?_, ?_⟩, rfl, rfl, ?_⟩
  · obtain ⟨program, read, names⟩ := Option.bind_eq_some_iff.mp computed
    unfold handedNames? at names
    split at names
    · cases names
      exact Routine.toOption_eq_some read
    · cases names
  -- The body is renamed to one that does not bind `undefined`, and there the argument stays.
  · have links : Linked [("undefined", "u")] "f" "f" ∧
        Linked [("undefined", "u")] "undefined" "u" := by
      simp [Linked]
    exact .arrow trivial (.arrow trivial (.call (.ident links.1) (.cons (.ident links.2) .nil)))
  · show ["u"].Disjoint ["g"]
    simp
  · change ¬ (Expr.arrow [.name "u"] (.call (.ident "g") [.ident "u"])).AlphaEq [] _
    intro same
    cases same with
    | arrow _ body =>
      cases body with
      | call _ given => cases given

end JexlScript.Inline
