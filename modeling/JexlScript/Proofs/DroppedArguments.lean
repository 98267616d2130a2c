import JexlScript.Inline.Program
import JexlScript.Proofs.Parts

/-!
# Dropped arguments

Pruning shortens the calls of a tree to their last given argument, whatever they
stand in, and changes nothing else: `pad` puts the dropped placeholders back, call
by call in reading order, and gives the tree that was pruned.
-/

namespace JexlScript.Script

open List

/-! ## One call -/

/-- Pruning neither makes a placeholder nor unmakes one. -/
theorem Expr.isUndefined_prune (e : Expr) : e.prune.isUndefined = e.isUndefined := by
  cases e <;> rfl

/-- So arguments may be pruned before or after trailing placeholders are dropped. -/
theorem rdropWhile_prune (es : List Expr) :
    (es.map Expr.prune).rdropWhile Expr.isUndefined =
      (es.rdropWhile Expr.isUndefined).map Expr.prune := by
  have same : Expr.isUndefined ∘ Expr.prune = Expr.isUndefined := funext Expr.isUndefined_prune
  rw [List.rdropWhile, ← map_reverse, dropWhile_map, same, ← map_reverse,
    List.rdropWhile]

theorem rtakeWhile_prune (es : List Expr) :
    (es.map Expr.prune).rtakeWhile Expr.isUndefined = es.rtakeWhile Expr.isUndefined := by
  have same : Expr.isUndefined ∘ Expr.prune = Expr.isUndefined := funext Expr.isUndefined_prune
  rw [List.rtakeWhile, ← map_reverse, takeWhile_map, same, ← map_reverse]
  refine (map_congr_left fun e member => ?_).trans (map_id _)
  have undefined : e.isUndefined := mem_rtakeWhile_imp member
  cases e <;> first | rfl | cases undefined

/-- A call loses its trailing placeholders, and what is left is pruned. -/
theorem Expr.prune_call (f : Expr) (args : List Expr) :
    (Expr.call f args).prune = .call f.prune ((args.rdropWhile isUndefined).map prune) := by
  rw [prune, pruneExprs_eq_map, dropTrailingUndefined_eq, rdropWhile_prune]

/-- A call ends with an argument that is given, or takes none. -/
def Node.endsGiven : Node → Bool
  | .expr (.call _ args) => !args.getLast?.any Expr.isUndefined
  | _ => true

/-- The last argument of a call is given if nothing is to be dropped. -/
theorem Node.endsGiven_call {f : Expr} {args : List Expr} :
    Node.endsGiven (.expr (.call f args)) ↔ args.rdropWhile Expr.isUndefined = args := by
  rw [rdropWhile_eq_self_iff, endsGiven]
  cases args using List.reverseRecOn <;> simp

/-! ## Every call -/

/-- Pruning adds no children. -/
theorem Node.mem_children_prune {n m : Node} (h : m ∈ n.prune.children) :
    ∃ k ∈ n.children, m = k.prune := by
  by_cases call : ∃ f args, n = .expr (.call f args)
  · obtain ⟨f, args, rfl⟩ := call
    rw [prune, Expr.prune_call, children, Expr.children, map_map] at h
    obtain rfl | member := mem_cons.mp h
    · exact ⟨.expr f, mem_cons_self, rfl⟩
    · obtain ⟨e, kept, rfl⟩ := mem_map.mp member
      have given := rdropWhile_subset args kept
      exact ⟨.expr e, mem_cons_of_mem _ (mem_map_of_mem given), rfl⟩
  · rw [children_prune fun f args is => call ⟨f, args, is⟩] at h
    obtain ⟨k, part, rfl⟩ := mem_map.mp h
    exact ⟨k, part, rfl⟩

/-- Everywhere in a pruned tree the last argument of a call is given. -/
theorem Node.endsGiven_of_mem_walk_prune (n : Node) : ∀ m ∈ n.prune.walk, m.endsGiven := by
  induction n using Node.ofParts with
  | step n ih =>
    intro m member
    rw [walk_eq] at member
    obtain rfl | deeper := mem_cons.mp member
    · rcases n with ⟨⟨⟩⟩ | _ | _ | _ <;> try rfl
      rw [prune, Expr.prune_call, endsGiven_call, rdropWhile_prune, rdropWhile_idempotent]
    · obtain ⟨k, part, found⟩ := mem_flatMap.mp deeper
      obtain ⟨old, at_, rfl⟩ := mem_children_prune part
      exact ih old at_ m found

/-! ## Putting the placeholders back -/

/-- The trailing placeholders of a call. -/
def Node.placeholders? : Node → Option (List Expr)
  | .expr (.call _ args) => some (args.rtakeWhile Expr.isUndefined)
  | _ => none

/-- What pruning drops, call by call. -/
def removed (ns : List Node) : List (List Expr) := ns.filterMap Node.placeholders?

/-- A walk that takes dropped arguments from a list, call by call. -/
abbrev Padding := StateM (List (List Expr))

/-- Takes what was dropped from the next call. -/
def Padding.next : Padding (List Expr) := modifyGet fun left => (left.headD [], left.tail)

@[simp] theorem Padding.run_next (dropped : List Expr) (left : List (List Expr)) :
    Padding.next.run (dropped :: left) = pure (dropped, left) :=
  rfl

mutual

/-- Puts placeholders behind the arguments of every call, a list for each. -/
def Expr.pad : Expr → Padding Expr
  | .ident n => pure (.ident n)
  | .lit v => pure (.lit v)
  | .undefined => pure .undefined
  | .array es => return .array (← padExprs es)
  | .object ps => return .object (← padProps ps)
  | .member obj prop computed optional => return .member (← obj.pad) (← prop.pad) computed optional
  | .call f args => do
    let dropped ← Padding.next
    return .call (← f.pad) ((← padExprs args) ++ dropped)
  | .new f args => return .new (← f.pad) (← padExprs args)
  | .unary op e => return .unary op (← e.pad)
  | .binary l op r => return .binary (← l.pad) op (← r.pad)
  | .logical l op r => return .logical (← l.pad) op (← r.pad)
  | .ternary c y n => return .ternary (← c.pad) (← y.pad) (← n.pad)
  | .arrow ps body => return .arrow ps (← body.pad)
  | .arrowBlock ps body => return .arrowBlock ps (← padStmts body)
  | .function n ps body => return .function n ps (← padStmts body)

def padExprs : List Expr → Padding (List Expr)
  | [] => pure []
  | e :: es => return (← e.pad) :: (← padExprs es)

def padProps : List (String × Expr) → Padding (List (String × Expr))
  | [] => pure []
  | (k, e) :: ps => return (k, ← e.pad) :: (← padProps ps)

def Stmt.pad : Stmt → Padding Stmt
  | .ret e => return .ret (← e.pad)
  | .retNothing => pure .retNothing
  | .expr e => return .expr (← e.pad)
  | .assign t e => return .assign t (← e.pad)
  | .bare t => pure (.bare t)
  | .cond c yes no => return .cond (← c.pad) (← padStmts yes) (← padStmts no)
  | .block body => return .block (← padStmts body)
  | .function n ps body => return .function n ps (← padStmts body)

def padStmts : List Stmt → Padding (List Stmt)
  | [] => pure []
  | s :: ss => return (← s.pad) :: (← padStmts ss)

end

def Node.pad : Node → Padding Node
  | .expr e => return .expr (← e.pad)
  | .stmt s => return .stmt (← s.pad)
  | .pattern names => pure (.pattern names)
  | .program p => return .program ⟨← padStmts p.body⟩

@[simp] theorem removed_nil : removed [] = [] := rfl

@[simp] theorem removed_cons (n : Node) (ns : List Node) :
    removed (n :: ns) = n.placeholders?.toList ++ removed ns := by
  rw [removed, filterMap_cons]
  cases n.placeholders? <;> rfl

@[simp] theorem removed_append (ns ms : List Node) :
    removed (ns ++ ms) = removed ns ++ removed ms :=
  filterMap_append

@[simp] theorem removed_patternNodes (ps : List Param) : removed (patternNodes ps) = [] := by
  refine filterMap_eq_nil_iff.mpr fun n member => ?_
  obtain ⟨names, rfl⟩ := eq_pattern_of_mem member
  rfl

/-- Placeholders hold no calls, so nothing is put back into them. -/
theorem padExprs_append (es : List Expr) {dropped : List Expr}
    (h : ∀ e ∈ dropped, e.isUndefined) :
    padExprs (es ++ dropped) = (· ++ dropped) <$> padExprs es := by
  induction es with
  | nil =>
    induction dropped with
    | nil => simp [padExprs]
    | cons e es ih =>
      obtain ⟨first, more⟩ := forall_mem_cons.mp h
      have same : e.pad = pure e := by cases e <;> first | rfl | cases first
      simpa [padExprs, same] using congrArg ((e :: ·) <$> ·) (ih more)
  | cons e es ih => simp [padExprs, ih]

attribute [local simp] Expr.prune Expr.pad Expr.walk Stmt.prune Stmt.pad Stmt.walk pruneExprs
  padExprs walkExprs pruneProps padProps walkProps pruneStmts padStmts walkStmts
  Node.placeholders?

mutual

/-- Pruning twice is pruning once, and padding undoes it. The rest of what was dropped is left for
what comes after. -/
theorem Expr.pruned : ∀ e : Expr, e.prune.prune = e.prune ∧
    ∀ rest, e.prune.pad.run (removed e.walk ++ rest) = pure (e, rest)
  | .ident _ | .lit _ | .undefined => by simp
  | .array es => by simp [exprs_pruned es]
  | .object ps => by simp [props_pruned ps]
  | .member a b _ _ => by simp [a.pruned, b.pruned]
  | .call f args => by
    have settled := (exprs_pruned args).1
    simp only [pruneExprs_eq_map, map_map, map_inj_left] at settled
    refine ⟨?_, fun rest => ?_⟩
    · rw [Expr.prune_call, Expr.prune_call, rdropWhile_prune, rdropWhile_idempotent,
        map_map, f.pruned.1]
      congr 1
      exact map_congr_left fun e kept => settled e (rdropWhile_subset args kept)
    · -- What the call lost goes behind what it kept, and all its arguments are there again.
      have all := (exprs_pruned args).2 rest
      rw [pruneExprs_eq_map, ← (args.map _).rdropWhile_append_rtakeWhile, rtakeWhile_prune,
        rdropWhile_prune, padExprs_append _ fun _ => mem_rtakeWhile_imp] at all
      rw [Expr.prune_call]
      simp [f.pruned]
      exact congrArg (fun p => (Expr.call f p.1, p.2)) all
  | .new f args => by simp [f.pruned, exprs_pruned args]
  | .unary _ a => by simp [a.pruned]
  | .binary a _ b | .logical a _ b => by simp [a.pruned, b.pruned]
  | .ternary a b c => by simp [a.pruned, b.pruned, c.pruned]
  | .arrow _ a => by simp [a.pruned]
  | .arrowBlock _ ss | .function _ _ ss => by simp [stmts_pruned ss]

theorem exprs_pruned : ∀ es : List Expr, pruneExprs (pruneExprs es) = pruneExprs es ∧
    ∀ rest, (padExprs (pruneExprs es)).run (removed (walkExprs es) ++ rest) = pure (es, rest)
  | [] => by simp
  | e :: es => by simp [e.pruned, exprs_pruned es]

theorem props_pruned : ∀ ps : List (String × Expr), pruneProps (pruneProps ps) = pruneProps ps ∧
    ∀ rest, (padProps (pruneProps ps)).run (removed (walkProps ps) ++ rest) = pure (ps, rest)
  | [] => by simp
  | (_, e) :: ps => by simp [e.pruned, props_pruned ps]

theorem Stmt.pruned : ∀ s : Stmt, s.prune.prune = s.prune ∧
    ∀ rest, s.prune.pad.run (removed s.walk ++ rest) = pure (s, rest)
  | .ret a | .expr a | .assign _ a => by simp [a.pruned]
  | .retNothing | .bare _ => by simp
  | .cond a yes no => by simp [a.pruned, stmts_pruned yes, stmts_pruned no]
  | .block ss | .function _ _ ss => by simp [stmts_pruned ss]

theorem stmts_pruned : ∀ ss : List Stmt, pruneStmts (pruneStmts ss) = pruneStmts ss ∧
    ∀ rest, (padStmts (pruneStmts ss)).run (removed (walkStmts ss) ++ rest) = pure (ss, rest)
  | [] => by simp
  | s :: ss => by simp [s.pruned, stmts_pruned ss]

end

/-- Both for any node. -/
theorem Node.pruned (n : Node) : n.prune.prune = n.prune ∧
    ∀ rest, n.prune.pad.run (removed n.walk ++ rest) = pure (n, rest) := by
  cases n with
  | expr e => simp [prune, pad, walk, e.pruned]
  | stmt s => simp [prune, pad, walk, s.pruned]
  | pattern names => exact ⟨rfl, fun rest => rfl⟩
  | program p => simp [prune, pad, walk, stmts_pruned p.body]

end JexlScript.Script

namespace JexlScript.Inline

open List Script

/-- Unwrapping a pruned body adds only a call without arguments. -/
theorem Body.endsGiven_toExpr (b : Body) : ∀ n ∈ b.prune.toExpr.walk, n.endsGiven := by
  cases b with
  | expr e => exact Node.endsGiven_of_mem_walk_prune (.expr e)
  | block body =>
    have calls : ∀ n ∈ (Expr.call (.arrowBlock [] (pruneStmts body)) []).walk, n.endsGiven :=
      Node.endsGiven_of_mem_walk_prune (.expr (.call (.arrowBlock [] body) []))
    rw [prune]
    generalize pruneStmts body = ss at calls
    unfold toExpr
    split
    · cases ‹Body.block _ = _›
    · cases ‹Body.block _ = _›
      exact fun n member => calls n (by simp [Expr.walk, walkStmts, Stmt.walk, member])
    · cases ‹Body.block _ = _›
      exact calls

/-- An inlined tree has no call that ends with a placeholder. Pruning is idempotent and
undone by putting back what the calls of a tree lost. Arrays and the arguments of `new`
keep their lengths, and a call keeps its arguments up to the last that is given. -/
theorem prune_drops_trailing_placeholders :
    (∀ program args e, inlineProgram? program args = some e → ∀ n ∈ e.walk, n.endsGiven) ∧
      (∀ n : Node, (∀ m ∈ n.prune.walk, m.endsGiven) ∧ n.prune.prune = n.prune ∧
        n.prune.pad.run (removed n.walk) = pure (n, [])) ∧
      (∀ es, (Expr.array es).prune = .array (es.map Expr.prune)) ∧
      (∀ f args, (Expr.new f args).prune = .new f.prune (args.map Expr.prune)) ∧
      ∀ f args, ∃ kept dropped, args = kept ++ dropped ∧ (∀ e ∈ dropped, e.isUndefined) ∧
        (Expr.call f args).prune = .call f.prune (kept.map Expr.prune) := by
  refine ⟨fun program args e inlined => ?_, fun n => ⟨?_, n.pruned.1, ?_⟩, fun es => ?_,
    fun f args => ?_, fun f args => ?_⟩
  · obtain ⟨t, -, result⟩ := Option.bind_eq_some_iff.mp inlined
    rw [Template.inline?] at result
    split at result <;> cases result
    exact Body.endsGiven_toExpr _
  · exact n.endsGiven_of_mem_walk_prune
  · simpa using n.pruned.2 []
  · rw [Expr.prune, pruneExprs_eq_map]
  · rw [Expr.prune, pruneExprs_eq_map]
  · exact ⟨_, _, args.rdropWhile_append_rtakeWhile.symm, fun _ => mem_rtakeWhile_imp,
      Expr.prune_call f args⟩

/-- `(a, b) => f(undefined, [g(a, b)], b)` with one argument. -/
theorem prune_drops_trailing_placeholders_unbound :
    let e := Expr.call (.ident "f") [.undefined, .array [.call (.ident "g") [.ident "x"]]]
    inlineProgram? ⟨[.expr (.arrow [.name "a", .name "b"] (.call (.ident "f")
        [.undefined, .array [.call (.ident "g") [.ident "a", .ident "b"]], .ident "b"]))]⟩
        [.ident "x"] = some e ∧ ∀ n ∈ e.walk, n.endsGiven := by
  have inlined : inlineProgram? ⟨[.expr (.arrow [.name "a", .name "b"] (.call (.ident "f")
      [.undefined, .array [.call (.ident "g") [.ident "a", .ident "b"]], .ident "b"]))]⟩
      [.ident "x"] = some _ := rfl
  exact ⟨inlined, prune_drops_trailing_placeholders.1 _ _ _ inlined⟩

end JexlScript.Inline
