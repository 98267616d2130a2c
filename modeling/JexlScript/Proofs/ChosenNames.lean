import JexlScript.Proofs.CaptureAvoidance
import JexlScript.Proofs.Statements.Declarations

/-!
# Names chosen over a whole inlining

The scopes of a body share one list of taken names. Each plain parameter and each
declaration that an argument mentions asks for a name and gets the first variant of its
own that is not on the list, which it joins. So no name is chosen twice, none that an
argument or the body uses.

The functions of a body ask in reading order. Each asks for its parameters, in their
order, and then for its declarations, in the order in which the walk with a stack finds
them: what stands later in the body comes first.
-/

namespace JexlScript.Script

open List

/-! ## Names by node -/

/-- A node and all that names are read in, in reading order. -/
def Node.reach (n : Node) : List Node :=
  n :: n.readParts.attach.flatMap fun part => part.1.reach
termination_by sizeOf n
decreasing_by exact Node.sizeOf_lt_of_mem_children (n.readParts_sublist.subset part.2)

/-- A node reaches itself and then what its parts reach, in order. -/
theorem Node.reach_eq (n : Node) : n.reach = n :: n.readParts.flatMap Node.reach := by
  rw [Node.reach]
  simp

/-- The binders of a node that may get another name. -/
def Node.renamable : Node → List String
  | .expr (.arrow ps body) => ps.filterMap Param.name? ++ Inline.declaredInExpr body
  | .expr (.arrowBlock ps body) => ps.filterMap Param.name? ++ Inline.declaredInBlock body
  | _ => []

/-- The binders in a tree that clash with a reserved name: one function after the other in
reading order, and of each its parameters before its declarations, which come in the order
of the walk with a stack. -/
def Node.clashes (reserved : List String) (n : Node) : List String :=
  (n.reach.flatMap Node.renamable).filter reserved.contains

/-- The names of a node are asked for before those of its parts. -/
theorem Node.clashes_eq (reserved : List String) (n : Node) : n.clashes reserved =
    n.renamable.filter reserved.contains ++ n.readParts.flatMap (Node.clashes reserved) := by
  rw [clashes, reach_eq, flatMap_cons, filter_append, flatMap_assoc,
    filter_flatMap]
  rfl

/-- Patterns are never renamed, so they ask for nothing. -/
theorem Node.clashes_patternNodes (reserved : List String) (ps : List Param) :
    (patternNodes ps).flatMap (Node.clashes reserved) = [] := by
  refine flatMap_eq_nil_iff.mpr fun n member => ?_
  obtain ⟨names, rfl⟩ := eq_pattern_of_mem member
  rw [clashes, reach_eq]
  rfl

/-- The names of a tree are those that the nodes it reaches are named by. -/
theorem Node.names_eq (n : Node) : n.names = n.reach.flatMap Node.named := by
  have patterns (ps : List Param) : (patternNodes ps).flatMap Node.names = [] := by
    induction ps with
    | nil => rfl
    | cons p ps ih => cases p <;> exact ih
  induction n using Node.ofParts with
  | step n ih =>
    have parts : n.readParts.flatMap Node.names = n.readParts.flatMap fun m => m.reach.flatMap named :=
      flatMap_congr fun m part => ih m (n.readParts_sublist.subset part)
    rw [reach_eq, flatMap_cons, flatMap_assoc, ← parts]
    cases n with
    | expr e =>
      cases e with
      | member obj prop computed optional =>
        cases computed <;> simp [names, Expr.names, named, readParts, children, Expr.children]
      | _ => simp [names, Expr.names, named, readParts, children, Expr.children, exprNames_eq,
          propNames_eq, patterns, Stmt.names, stmtNames_eq]
    | stmt s => cases s <;> simp [names, Stmt.names, named, readParts, children, Stmt.children,
        stmtNames_eq, patterns]
    | pattern names => rfl
    | program p => simp [names, named, readParts, children, stmtNames_eq]

theorem Node.mem_names {n m : Node} (reached : m ∈ n.reach) {x : String} (named : x ∈ m.named) :
    x ∈ n.names := by
  rw [names_eq]
  exact mem_flatMap.mpr ⟨m, reached, named⟩

/-! ## Plain bodies have no functions with a name -/

/-- What is reached is also walked. -/
theorem Node.reach_subset (n : Node) : n.reach ⊆ n.walk := by
  induction n using Node.ofParts with
  | step n ih =>
    rw [reach_eq, walk_eq]
    refine cons_subset_cons _ fun m member => ?_
    obtain ⟨k, part, found⟩ := mem_flatMap.mp member
    have part := n.readParts_sublist.subset part
    exact mem_flatMap.mpr ⟨k, part, ih k part found⟩

mutual

/-- Plain statements declare no functions. -/
theorem Stmt.Plain.functionNames : ∀ {s : Stmt}, s.Plain → ∀ n ∈ s.walk, n.functionNames = []
  | .ret e, h | .expr e, h | .assign _ e, h =>
    forall_mem_cons.mpr ⟨rfl, fun n member => (Expr.Plain.inert (e := e) h n member).2⟩
  | .retNothing, _ | .bare _, _ => forall_mem_cons.mpr ⟨rfl, nofun⟩
  | .cond .., h => forall_mem_cons.mpr ⟨rfl, forall_mem_append.mpr
      ⟨forall_mem_append.mpr ⟨fun n member => (h.1.inert n member).2,
        PlainStmts.functionNames h.2.1.1⟩, PlainStmts.functionNames h.2.2.1⟩⟩

theorem PlainStmts.functionNames : ∀ {ss : List Stmt}, PlainStmts ss →
    ∀ n ∈ walkStmts ss, n.functionNames = []
  | [], _ => nofun
  | _ :: _, h => forall_mem_append.mpr ⟨h.1.functionNames, PlainStmts.functionNames h.2⟩

end

end JexlScript.Script

namespace JexlScript.Inline

open List Script

/-! ## Choosing names one after the other -/

/-- The names chosen one after the other, where each chosen one is taken for the next. -/
def freshNames : (taken names : List String) → List String
  | _, [] => []
  | taken, name :: names =>
    freshName taken name :: freshNames (freshName taken name :: taken) names

/-- Names chosen in a row are pairwise distinct and were not taken before. -/
theorem nodup_freshNames (taken names : List String) :
    (freshNames taken names).Nodup ∧ (freshNames taken names).Disjoint taken := by
  induction names generalizing taken with
  | nil => exact ⟨.nil, disjoint_nil_left _⟩
  | cons name names ih =>
    obtain ⟨nodup, apart⟩ := ih (freshName taken name :: taken)
    obtain ⟨new, others⟩ := disjoint_cons_right.mp apart
    exact ⟨nodup_cons.mpr ⟨new, nodup⟩,
      disjoint_cons_left.mpr ⟨freshName_not_mem taken name, others⟩⟩

/-- A computation asks for variants of `names`, in order. -/
def Naming.Asks {α : Type} (x : Naming α) (names : List String) : Prop :=
  ∀ taken, (x taken).2 = (freshNames taken names).reverse ++ taken

section

variable {α β : Type} {x : Naming α} {f : α → Naming β} {names names' : List String}

/-- What is chosen first is taken when the rest is chosen. -/
theorem freshNames_append (taken : List String) : freshNames taken (names ++ names') =
    freshNames taken names ++ freshNames ((freshNames taken names).reverse ++ taken) names' := by
  induction names generalizing taken with
  | nil => rfl
  | cons name names ih => simp [freshNames, ih]

theorem Naming.Asks.pure (a : α) : Naming.Asks (pure a : Naming α) [] := fun _ => rfl

/-- Steps ask for their names one after the other. -/
theorem Naming.Asks.bind (first : x.Asks names) (next : ∀ taken, (f (x taken).1).Asks names') :
    Naming.Asks (x >>= f) (names ++ names') := by
  intro taken
  have run : ((x >>= f) taken).2 = (f (x taken).1 (x taken).2).2 := rfl
  rw [run, next, first, freshNames_append, reverse_append, append_assoc]

theorem Naming.Asks.last (first : x.Asks names) {g : α → β} :
    Naming.Asks (x >>= fun a => Pure.pure (g a)) names := fun taken => first taken

end

/-! ## What the scopes ask for -/

/-- Protecting names asks for those that are reserved and leaves the reserved ones as they are. -/
theorem Scope.protectAll_asks (names : List String) : ∀ scope : Scope,
    (scope.protectAll names).Asks (names.filter scope.reserved.contains) ∧
      ∀ taken, (scope.protectAll names taken).1.reserved = scope.reserved := by
  induction names with
  | nil => exact fun scope => ⟨.pure scope, fun _ => rfl⟩
  | cons name names ih =>
    rintro ⟨replacements, renames, reserved⟩
    have run taken : protectAll ⟨replacements, renames, reserved⟩ (name :: names) taken =
        protectAll (protect ⟨replacements, renames, reserved⟩ name taken).1 names
          (protect ⟨replacements, renames, reserved⟩ name taken).2 := rfl
    by_cases clash : name ∈ reserved
    · have filtered := filter_cons_of_pos (l := names) (contains_iff_mem.mpr clash)
      refine ⟨fun taken => ?_, fun taken => ?_⟩ <;> rw [run, protect_of_mem clash]
      · rw [(ih _).1, filtered, freshNames, reverse_cons, append_assoc]
        rfl
      · exact (ih _).2 _
    · have filtered := filter_cons_of_neg (l := names) (mt contains_iff_mem.mp clash)
      refine ⟨fun taken => ?_, fun taken => ?_⟩ <;> rw [run, protect_of_not_mem clash]
      · rw [(ih _).1, filtered]
      · exact (ih _).2 _

theorem filterMap_name?_subset (ps : List Param) : ps.filterMap Param.name? ⊆ paramNames ps := by
  intro x member
  obtain ⟨p, listed, is⟩ := mem_filterMap.mp member
  refine mem_flatMap.mpr ⟨p, listed, ?_⟩
  cases p <;> cases is
  exact mem_singleton_self x

section

variable {α : Type} {V names : List String} {scope : Scope}

/-- Entering a scope asks for its parameters and declarations before anything inside. -/
theorem Naming.Asks.entered (same : scope.reserved = V) {ps : List Param} {declared : List String}
    {x : Scope → Naming α} (inner : ∀ {scope : Scope}, scope.reserved = V → (x scope).Asks names) :
    Naming.Asks (scope.enter ps declared >>= x)
      ((ps.filterMap Param.name? ++ declared).filter V.contains ++ names) := by
  subst same
  simp only [Scope.enter]
  split
  next empty =>
    have nothing : ps.filterMap Param.name? ++ declared = [] := by
      rw [List.isEmpty_iff, append_eq_nil_iff] at empty
      have names := filterMap_name?_subset ps
      rw [empty.1] at names
      rw [subset_nil.mp names, empty.2]
      rfl
    rw [nothing]
    exact inner rfl
  next =>
    obtain ⟨asks, kept⟩ := Scope.protectAll_asks (ps.filterMap Param.name? ++ declared)
      ⟨_, _, scope.reserved⟩
    exact asks.bind fun taken => inner (kept taken)

/-- Asking for a node's own names and those of its parts is asking for its clashes. -/
theorem Naming.Asks.at {x : Naming α} (asks : x.Asks names) (n : Node)
    (all : n.renamable.filter V.contains ++ n.readParts.flatMap (Node.clashes V) = names) :
    x.Asks (n.clashes V) := by
  rwa [Node.clashes_eq, all]

end

attribute [local simp] Node.renamable Node.readParts Node.children Expr.children Stmt.children
  Node.clashes_patternNodes

mutual

/-- Substitution asks for the clashes of an expression, in their order. The five cases go along
the recursion of the substitution. -/
theorem substExpr_asks {V : List String} : ∀ (e : Expr) {scope : Scope}, scope.reserved = V →
    (substExpr scope e).Asks ((Node.expr e).clashes V)
  | .ident _, _, _ | .lit _, _, _ | .undefined, _, _ => (Naming.Asks.pure _).at _ (by simp)
  | .array es, _, same => (substExprs_asks es same).last.at _ (by simp)
  | .object ps, _, same => (substProps_asks ps same).last.at _ (by simp)
  | .member obj prop true _, _, same => ((substExpr_asks obj same).bind fun _ =>
      (substExpr_asks prop same).last).at _ (by simp)
  | .member obj prop false _, _, same => (substExpr_asks obj same).last.at _ (by simp)
  | .call f args, _, same | .new f args, _, same => ((substExpr_asks f same).bind fun _ =>
      (substExprs_asks args same).last).at _ (by simp)
  | .unary _ e, _, same => (substExpr_asks e same).last.at _ (by simp)
  | .binary l _ r, _, same | .logical l _ r, _, same => ((substExpr_asks l same).bind fun _ =>
      (substExpr_asks r same).last).at _ (by simp)
  | .ternary c y n, _, same => ((substExpr_asks c same).bind fun _ =>
      (substExpr_asks y same).bind fun _ => (substExpr_asks n same).last).at _ (by simp)
  | .arrow _ body, _, same =>
    (Naming.Asks.entered same fun same => (substExpr_asks body same).last).at _ (by simp)
  | .arrowBlock _ body, _, same =>
    (Naming.Asks.entered same fun same => (substStmts_asks body same).last).at _
      (by simp [Node.clashes_eq V (.stmt (.block body))])
  | .function _ _ body, _, same => (substStmts_asks body same).last.at _
      (by simp [Node.clashes_eq V (.stmt (.block body))])

theorem substExprs_asks {V : List String} : ∀ (es : List Expr) {scope : Scope},
    scope.reserved = V → (substExprs scope es).Asks ((es.map Node.expr).flatMap (Node.clashes V))
  | [], _, _ => .pure _
  | e :: es, _, same => (substExpr_asks e same).bind fun _ => (substExprs_asks es same).last

theorem substProps_asks {V : List String} : ∀ (ps : List (String × Expr)) {scope : Scope},
    scope.reserved = V →
      (substProps scope ps).Asks ((ps.map fun p => Node.expr p.2).flatMap (Node.clashes V))
  | [], _, _ => .pure _
  | (_, e) :: ps, _, same => (substExpr_asks e same).bind fun _ => (substProps_asks ps same).last

theorem substStmt_asks {V : List String} : ∀ (s : Stmt) {scope : Scope}, scope.reserved = V →
    (substStmt scope s).Asks ((Node.stmt s).clashes V)
  | .ret e, _, same | .expr e, _, same | .assign _ e, _, same =>
    (substExpr_asks e same).last.at _ (by simp)
  | .retNothing, _, _ | .bare _, _, _ => (Naming.Asks.pure _).at _ (by simp)
  | .cond c yes no, _, same => ((substExpr_asks c same).bind fun _ =>
      (substStmts_asks yes same).bind fun _ => (substStmts_asks no same).last).at _ (by simp)
  | .block body, _, same => (substStmts_asks body same).last.at _ (by simp)
  | .function _ _ body, _, same => (substStmts_asks body same).last.at _
      (by simp [Node.clashes_eq V (.stmt (.block body))])

theorem substStmts_asks {V : List String} : ∀ (ss : List Stmt) {scope : Scope},
    scope.reserved = V → (substStmts scope ss).Asks ((ss.map Node.stmt).flatMap (Node.clashes V))
  | [], _, _ => .pure _
  | s :: ss, _, same => (substStmt_asks s same).bind fun _ => (substStmts_asks ss same).last

end

/-! ## The whole run -/

namespace Body

/-- A body as a node, where a block is a statement of its own. -/
def node : Body → Node
  | .expr e => .expr e
  | .block ss => .stmt (.block ss)

/-- The names that a body declares outside of the functions in it. -/
def declared : Body → List String
  | .expr e => declaredInExpr e
  | .block ss => declaredInBlock ss

/-- The binders of a body and of the functions in it that clash with a reserved name. -/
def clashes (reserved : List String) (b : Body) : List String :=
  b.declared.filter reserved.contains ++ b.node.clashes reserved

/-- Substitution in a body asks for its clashes, in their order. -/
theorem subst_asks (b : Body) (R : List (String × Expr)) (V : List String) :
    (b.subst ⟨R, [], V⟩).Asks (b.clashes V) := by
  cases b with
  | expr e => exact Naming.Asks.entered rfl fun same => (substExpr_asks e same).last
  | block ss =>
    exact Naming.Asks.entered rfl fun same =>
      ((substStmts_asks ss same).at (.stmt (.block ss)) (by simp)).last

/-- The node of a body has the names of the body. -/
theorem names_node (b : Body) : b.node.names = b.names := by
  cases b <;> rfl

theorem Plain.functionNames {b : Body} (plain : b.Plain) :
    ∀ n ∈ b.node.reach, n.functionNames = [] := by
  intro n reached
  have member := b.node.reach_subset reached
  cases b with
  | expr e => exact (Expr.Plain.inert plain n member).2
  | block ss =>
    obtain rfl | member := mem_cons.mp member
    · rfl
    · exact PlainStmts.functionNames plain n member

end Body

/-- Every name that is chosen is the first free variant of the one it stands for. Over a
whole inlining of a routine the chosen names are pairwise distinct and differ from all
that the body reads, binds or assigns. They differ from all that an argument does just
when they differ from the names and parameters of the functions declared in it. -/
theorem chosenNames_fresh {source : String} {program : Program}
    (parsed : Routine.toProgram source = .ok program) (args : List Expr) :
    (∀ taken name, ∃ i, 1 ≤ i ∧
      fresh name taken = (variantName name i, variantName name i :: taken) ∧
      variantName name i ∉ taken ∧ ∀ j, 1 ≤ j → j < i → variantName name j ∈ taken) ∧
    ∃ t body, Template.ofProgram? program = some t ∧
      let taken := exprNames args ++ t.body.names
      let chosen := freshNames taken (t.body.clashes (exprNames args))
      t.body.subst ⟨bindArgs t.params args, [], exprNames args⟩ taken =
          (body, chosen.reverse ++ taken) ∧
        inlineProgram? program args =
          (if t.body.assigns ((bindArgs t.params args).map Prod.fst) then none
            else some body.prune.toExpr) ∧
        chosen.Nodup ∧
        (∀ n ∈ t.body.node.reach, chosen.Disjoint (n.named ++ n.functionNames)) ∧
        (∀ arg ∈ args, ∀ n ∈ (Node.expr arg).reach, chosen.Disjoint n.named) ∧
        ((∀ arg ∈ args, ∀ n ∈ (Node.expr arg).reach,
            chosen.Disjoint (n.named ++ n.functionNames)) ↔
          ∀ arg ∈ args, ∀ n ∈ (Node.expr arg).reach, chosen.Disjoint n.functionNames) := by
  refine ⟨fun taken name => ?_, ?_⟩
  · obtain ⟨i, positive, found, free, least⟩ := freshName_spec taken name
    exact ⟨i, positive, found ▸ rfl, free, least⟩
  obtain ⟨t, template, -, plain⟩ := startsPlain_of_toProgram parsed
  refine ⟨t, _, template, Prod.ext rfl (t.body.subst_asks _ _ _), ?_, ?_⟩
  · rw [inlineProgram?, template]
    rfl
  obtain ⟨nodup, apart⟩ := nodup_freshNames (exprNames args ++ t.body.names)
    (t.body.clashes (exprNames args))
  obtain ⟨fromArgs, fromBody⟩ := disjoint_append_right.mp apart
  -- All names that an argument reads are avoided, so only names of functions may be met in it.
  have inArgs : ∀ arg ∈ args, ∀ n ∈ (Node.expr arg).reach, n.named ⊆ exprNames args := by
    intro arg listed n reached x named
    rw [exprNames_eq]
    exact mem_flatMap.mpr ⟨_, mem_map_of_mem listed, Node.mem_names reached named⟩
  have fromArg := fun arg listed n reached =>
    disjoint_of_subset_right (inArgs arg listed n reached) fromArgs
  refine ⟨nodup, fun n reached => ?_, fromArg, ?_⟩
  · rw [plain.functionNames n reached, append_nil]
    refine disjoint_of_subset_right (fun x named => ?_) fromBody
    rw [← Body.names_node]
    exact Node.mem_names reached named
  · simp only [disjoint_append_right]
    exact ⟨fun all arg listed n reached => (all arg listed n reached).2,
      fun apart arg listed n reached => ⟨fromArg arg listed n reached, apart arg listed n reached⟩⟩

/-- The parameters of two functions, one inside the other, give way to the argument `x`. -/
theorem chosenNames_fresh_nested : ∃ program t,
    Routine.toProgram "lambda f: lambda x: lambda x: f + x" = .ok program ∧
      Template.ofProgram? program = some t ∧
      (freshNames (["x"] ++ t.body.names) (t.body.clashes ["x"])).Nodup ∧
      (inlineProgram? program [.ident "x"]).map Expr.text =
        some "(x_1) => (x_2) => x + x_2".toList := by
  have written : ((Routine.toProgram "lambda f: lambda x: lambda x: f + x").toOption.bind
      (inlineProgram? · [.ident "x"])).map Expr.text =
        some "(x_1) => (x_2) => x + x_2".toList := by
    rw [toProgram_eq]
    decide +kernel
  cases parsed : Routine.toProgram "lambda f: lambda x: lambda x: f + x" with
  | error why =>
    rw [parsed] at written
    cases written
  | ok program =>
    obtain ⟨-, t, body, template, -, -, nodup, -⟩ := chosenNames_fresh parsed [.ident "x"]
    rw [parsed] at written
    exact ⟨program, t, rfl, template, nodup, written⟩

/-- `() => {function g(x_1) {return x;}}` -/
def bindingArgument : Expr :=
  .arrowBlock [] [.function "g" [.name "x_1"] [.ret (.ident "x")]]

/-- A chosen name can be one that a function in an argument takes as a parameter. -/
theorem chosenName_of_parameter :
    (∃ n ∈ (Node.expr bindingArgument).walk, "x_1" ∈ n.functionNames) ∧
      ((Routine.toProgram "lambda f: lambda x: f").toOption.bind
        (inlineProgram? · [bindingArgument])).map Expr.text =
        some "(x_1) => () => \x7b\nfunction g(x_1) \x7b\nreturn x;\n\x7d\n\x7d".toList := by
  refine ⟨⟨.stmt (.function "g" [.name "x_1"] [.ret (.ident "x")]), ?_, ?_⟩, ?_⟩
  · simp [bindingArgument, Node.walk, Expr.walk, walkStmts, Stmt.walk]
  · decide
  · rw [toProgram_eq]
    decide +kernel

end JexlScript.Inline
