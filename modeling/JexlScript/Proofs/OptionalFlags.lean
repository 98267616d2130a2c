import JexlScript.Proofs.OptionalScope
import Mathlib.Data.List.Perm.Basic

/-!
# What setting the flags of accesses does

Making accesses optional changes nothing of a tree but their flags, and the flags
that were there do not matter. `Node.withOptional_reflags` says so, with the flag
that every access gets and the paths that the caller is asked about.
-/

namespace JexlScript.Script

open List

variable (defined : Path → Bool)

/-! ## Trees without their flags -/

mutual

/-- The expression with no access optional. -/
def Expr.unflag : Expr → Expr
  | .ident n => .ident n
  | .lit v => .lit v
  | .undefined => .undefined
  | .array es => .array (unflagExprs es)
  | .object ps => .object (unflagProps ps)
  | .member obj prop computed _ => .member obj.unflag prop.unflag computed false
  | .call f args => .call f.unflag (unflagExprs args)
  | .new f args => .new f.unflag (unflagExprs args)
  | .unary op e => .unary op e.unflag
  | .binary l op r => .binary l.unflag op r.unflag
  | .logical l op r => .logical l.unflag op r.unflag
  | .ternary c y n => .ternary c.unflag y.unflag n.unflag
  | .arrow ps body => .arrow ps body.unflag
  | .arrowBlock ps body => .arrowBlock ps (unflagStmts body)
  | .function n ps body => .function n ps (unflagStmts body)

def unflagExprs : List Expr → List Expr
  | [] => []
  | e :: es => e.unflag :: unflagExprs es

def unflagProps : List (String × Expr) → List (String × Expr)
  | [] => []
  | (k, e) :: ps => (k, e.unflag) :: unflagProps ps

/-- A statement with no access marked as optional. -/
def Stmt.unflag : Stmt → Stmt
  | .ret e => .ret e.unflag
  | .retNothing => .retNothing
  | .expr e => .expr e.unflag
  | .assign t e => .assign t e.unflag
  | .bare t => .bare t
  | .cond c yes no => .cond c.unflag (unflagStmts yes) (unflagStmts no)
  | .block body => .block (unflagStmts body)
  | .function n ps body => .function n ps (unflagStmts body)

def unflagStmts : List Stmt → List Stmt
  | [] => []
  | s :: ss => s.unflag :: unflagStmts ss

end

/-- A node with no access marked as optional. -/
def Node.unflag : Node → Node
  | .expr e => .expr e.unflag
  | .stmt s => .stmt s.unflag
  | .pattern names => .pattern names
  | .program p => .program ⟨unflagStmts p.body⟩

/-! ## Objects that are there -/

/-- Whether a path is the bare name of a global of the language. -/
def Path.isGlobal : Path → Bool
  | [n] => alwaysDefined.contains n
  | _ => false

/-- Whether an object is there: a fresh value, a literal other than `null`, a global,
or a path that the caller vouches for. -/
def Expr.isDefined (defined : Path → Bool) : Expr → Bool
  | .new .. | .array _ | .object _ => true
  | .lit v => v ≠ .null
  | e => e.path?.any fun path => path.isGlobal || defined path

/-- The path that the caller is asked about for the sake of a node: what the object
of an access spells, other than a global. -/
def Node.ask? : Node → Option Path
  | .expr (.member obj _ _ _) => obj.path?.filter fun path => !path.isGlobal
  | _ => none

/-- The paths that the caller is asked about: first for the parts of a node in
reading order, then for the node itself. -/
def Node.asked (n : Node) : List Path :=
  n.children.attach.flatMap (fun part => part.1.asked) ++ n.ask?.toList
termination_by sizeOf n
decreasing_by exact Node.sizeOf_lt_of_mem_children part.2

/-- The paths in the parts of a node are asked about before its own. -/
theorem Node.asked_eq (n : Node) : n.asked = n.children.flatMap Node.asked ++ n.ask?.toList := by
  rw [Node.asked]
  simp

/-- The path that the caller is asked about. -/
def Knowledge.path? : Knowledge → Option Path
  | .askCaller path => some path
  | _ => none

/-- The caller is asked about every path but the globals. -/
theorem knowledge_ofPath (path : Path) :
    (Knowledge.ofPath path).holds defined = (path.isGlobal || defined path) ∧
      (Knowledge.ofPath path).path? = (some path).filter fun path => !path.isGlobal := by
  rcases path with _ | ⟨n, _ | ⟨m, path⟩⟩
  · exact ⟨rfl, rfl⟩
  · by_cases listed : n ∈ alwaysDefined <;>
      simp [Knowledge.ofPath, Path.isGlobal, Knowledge.holds, Knowledge.path?, listed,
        Option.filter]
  · exact ⟨rfl, rfl⟩

/-- What is known of an expression depends only on the path that it spells. -/
theorem Expr.knowledge_spec (e : Expr) : e.knowledge.holds defined = e.isDefined defined ∧
    e.knowledge.path? = e.path?.filter fun path => !path.isGlobal := by
  cases e with
  | ident n => exact knowledge_ofPath defined [n]
  | member obj prop computed optional =>
    cases spells : (Expr.member obj prop computed optional).path? with
    | none =>
      rw [knowledge_member spells]
      simp [isDefined, spells, Knowledge.holds, Knowledge.path?]
    | some path =>
      rw [knowledge_of_path? spells]
      simpa [isDefined, spells] using knowledge_ofPath defined path
  | lit v => by_cases null : v = .null <;> simp [knowledge, isDefined, null, Knowledge.holds,
      Knowledge.path?, path?]
  | _ => exact ⟨rfl, rfl⟩

/-- Flags do not change what is known. -/
theorem Expr.knowledge_withOptional (e : Expr) :
    (e.withOptional defined).knowledge = e.knowledge := by
  have spells : (e.withOptional defined).path? = e.path? := path?_withOptional e
  cases path : e.path? with
  | some path =>
    rw [path] at spells
    rw [knowledge_of_path? spells, knowledge_of_path? path]
  | none =>
    rw [path] at spells
    cases e with
    | member obj prop computed optional =>
      rw [withOptional_member] at spells ⊢
      rw [knowledge_member spells, knowledge_member path]
    | _ => rfl

/-! ## One pass -/

/-- The flags of a part are set: what else there is stays, the flags before do not
matter, and the caller is asked in the given order. -/
structure Reflags {α : Type}
    (flag : ∀ {m : Type → Type} [Monad m], (Path → m Bool) → α → m α) (unflag : α → α)
    (asked : List Path) (a : α) : Prop where
  unflag_flag : unflag (flag (m := Id) (fun path => pure (defined path)) a) = unflag a
  flag_unflag : flag (m := Id) (fun path => pure (defined path)) (unflag a) =
    flag (m := Id) (fun path => pure (defined path)) a
  asks : ∀ log, flag (askNoting defined) a log =
    (flag (m := Id) (fun path => pure (defined path)) a, log ++ asked)

/-- A pure step notes nothing. -/
theorem noting_pure {α : Type} (a : α) (log : List Path) :
    (StateT.pure a : StateM (List Path) α) log = (a, log) := rfl

/-- Deciding about one access asks about the path of its object, if at all. -/
theorem Expr.optional_asks (obj : Expr) (log : List Path) :
    (obj.withOptional defined).knowledge.optional (askNoting defined) log =
      ((obj.withOptional defined).knowledge.optional (m := Id) (fun path => pure (defined path)),
        log ++ (obj.path?.filter fun path => !path.isGlobal).toList) := by
  rw [knowledge_withOptional, ← (knowledge_spec defined obj).2]
  cases obj.knowledge with
  | askCaller path => rfl
  | _ => simp [Knowledge.optional, Knowledge.path?, pure, noting_pure]

/-- Patterns have no accesses. -/
theorem asked_patterns (ps : List Param) : (patternNodes ps).flatMap Node.asked = [] := by
  induction ps with
  | nil => rfl
  | cons p ps ih =>
    cases p with
    | name => exact ih
    | pattern names =>
      rw [show patternNodes (.pattern names :: ps) = .pattern names :: patternNodes ps from rfl,
        flatMap_cons, ih, Node.asked_eq]
      rfl

section

attribute [local simp] bind pure StateT.bind noting_pure Expr.flag flagExprs flagProps Stmt.flag
  flagStmts Expr.unflag unflagExprs unflagProps Stmt.unflag unflagStmts Node.children Expr.children
  Stmt.children Node.ask? asked_patterns

mutual

/-- Setting the flags of an expression changes nothing else and asks about its paths in order. The
cases go along the recursion of `flag`. -/
theorem Expr.reflags : ∀ e : Expr, Reflags defined Expr.flag Expr.unflag (Node.expr e).asked e
  | .ident _ | .lit _ | .undefined => ⟨rfl, rfl, fun _ => by
      rw [Node.asked_eq]
      simp⟩
  | .array es => by
    obtain ⟨kept, same, asks⟩ := reflags_exprs es
    rw [Node.asked_eq]
    constructor <;> simp_all
  | .object ps => by
    obtain ⟨kept, same, asks⟩ := reflags_props ps
    rw [Node.asked_eq]
    constructor <;> simp_all
  | .member obj prop _ _ => by
    obtain ⟨kept, same, asks⟩ := obj.reflags
    obtain ⟨kept', same', asks'⟩ := prop.reflags
    -- The access asks about its object first, and then what the object and the property ask.
    have own := obj.optional_asks defined
    rw [Node.asked_eq]
    constructor <;> simp_all [Expr.withOptional, Id.run]
  | .call f args | .new f args => by
    obtain ⟨kept, same, asks⟩ := f.reflags
    obtain ⟨kept', same', asks'⟩ := reflags_exprs args
    rw [Node.asked_eq]
    constructor <;> simp_all
  | .unary _ e | .arrow _ e => by
    obtain ⟨kept, same, asks⟩ := e.reflags
    rw [Node.asked_eq]
    constructor <;> simp_all
  | .binary l _ r | .logical l _ r => by
    obtain ⟨kept, same, asks⟩ := l.reflags
    obtain ⟨kept', same', asks'⟩ := r.reflags
    rw [Node.asked_eq]
    constructor <;> simp_all
  | .ternary c y n => by
    obtain ⟨kept, same, asks⟩ := c.reflags
    obtain ⟨kept', same', asks'⟩ := y.reflags
    obtain ⟨kept'', same'', asks''⟩ := n.reflags
    rw [Node.asked_eq]
    constructor <;> simp_all
  | .arrowBlock _ body | .function _ _ body => by
    obtain ⟨kept, same, asks⟩ := reflags_stmts body
    have block := Node.asked_eq (.stmt (.block body))
    rw [Node.asked_eq]
    constructor <;> simp_all

theorem reflags_exprs : ∀ es : List Expr,
    Reflags defined flagExprs unflagExprs ((es.map Node.expr).flatMap Node.asked) es
  | [] => ⟨rfl, rfl, fun _ => by simp⟩
  | e :: es => by
    obtain ⟨kept, same, asks⟩ := e.reflags
    obtain ⟨kept', same', asks'⟩ := reflags_exprs es
    constructor <;> simp_all

theorem reflags_props : ∀ ps : List (String × Expr),
    Reflags defined flagProps unflagProps ((ps.map fun p => Node.expr p.2).flatMap Node.asked) ps
  | [] => ⟨rfl, rfl, fun _ => by simp⟩
  | (k, e) :: ps => by
    obtain ⟨kept, same, asks⟩ := e.reflags
    obtain ⟨kept', same', asks'⟩ := reflags_props ps
    constructor <;> simp_all

theorem Stmt.reflags : ∀ s : Stmt, Reflags defined Stmt.flag Stmt.unflag (Node.stmt s).asked s
  | .retNothing | .bare _ => ⟨rfl, rfl, fun _ => by
      rw [Node.asked_eq]
      simp⟩
  | .ret e | .expr e | .assign _ e => by
    obtain ⟨kept, same, asks⟩ := e.reflags
    rw [Node.asked_eq]
    constructor <;> simp_all
  | .cond c yes no => by
    obtain ⟨kept, same, asks⟩ := c.reflags
    obtain ⟨kept', same', asks'⟩ := reflags_stmts yes
    obtain ⟨kept'', same'', asks''⟩ := reflags_stmts no
    rw [Node.asked_eq]
    constructor <;> simp_all
  | .block body => by
    obtain ⟨kept, same, asks⟩ := reflags_stmts body
    rw [Node.asked_eq]
    constructor <;> simp_all
  | .function _ _ body => by
    obtain ⟨kept, same, asks⟩ := reflags_stmts body
    have block := Node.asked_eq (.stmt (.block body))
    rw [Node.asked_eq]
    constructor <;> simp_all

theorem reflags_stmts : ∀ ss : List Stmt,
    Reflags defined flagStmts unflagStmts ((ss.map Node.stmt).flatMap Node.asked) ss
  | [] => ⟨rfl, rfl, fun _ => by simp⟩
  | s :: ss => by
    obtain ⟨kept, same, asks⟩ := s.reflags
    obtain ⟨kept', same', asks'⟩ := reflags_stmts ss
    constructor <;> simp_all

end

/-- The same for any node. -/
theorem Node.reflags : ∀ n : Node, Reflags defined Node.flag Node.unflag n.asked n
  | .expr e => by
    obtain ⟨kept, same, asks⟩ := e.reflags defined
    constructor <;> simp_all [Node.flag, Node.unflag]
  | .stmt s => by
    obtain ⟨kept, same, asks⟩ := s.reflags defined
    constructor <;> simp_all [Node.flag, Node.unflag]
  | .pattern names => ⟨rfl, rfl, fun log => by
      rw [Node.asked_eq]
      simp [Node.flag]⟩
  | .program p => by
    obtain ⟨kept, same, asks⟩ := reflags_stmts defined p.body
    rw [Node.asked_eq]
    constructor <;> simp_all [Node.flag, Node.unflag]

end

/-- The caller is asked once about each node of a walk that has something to ask. -/
theorem Node.asked_perm (n : Node) : n.asked.Perm (n.walk.filterMap Node.ask?) := by
  induction n using Node.ofParts with
  | step n ih =>
    rw [asked_eq, walk_eq, filterMap_cons, filterMap_flatMap]
    have parts : (n.children.flatMap Node.asked).Perm
        (n.children.flatMap fun part => part.walk.filterMap Node.ask?) :=
      List.Perm.flatMap_left _ ih
    cases n.ask? with
    | none => simpa using parts
    | some path => exact perm_append_comm.trans (parts.cons path)

/-- Setting the flags of a tree leaves everything else, does not look at the flags
before and changes nothing the second time. An access is optional if its object, as
it stands in the tree, is not there for sure; the caller is asked about the objects
that spell a path other than a global, once for each access and for the parts of a
node before the node itself. -/
theorem Node.withOptional_reflags (n : Node) :
    (n.withOptional defined).unflag = n.unflag ∧
      (∀ address bound obj prop computed optional,
        n.part? address = some (bound, .expr (.member obj prop computed optional)) →
          (n.withOptional defined).part? address = some (bound, .expr
            (.member (obj.withOptional defined) (prop.withOptional defined) computed
              !obj.isDefined defined))) ∧
      (∀ n' : Node, n'.unflag = n.unflag → n'.withOptional defined = n.withOptional defined) ∧
      (n.withOptional defined).withOptional defined = n.withOptional defined ∧
      n.withOptionalAsked defined = (n.withOptional defined, n.asked) ∧
      n.asked.Perm (n.walk.filterMap Node.ask?) := by
  -- The flags of a tree do not matter for those that are set.
  have dropped (n : Node) : n.unflag.withOptional defined = n.withOptional defined :=
    (n.reflags defined).flag_unflag
  have kept : (n.withOptional defined).unflag = n.unflag := (n.reflags defined).unflag_flag
  refine ⟨kept, ?_, ?_, ?_, ?_, n.asked_perm⟩
  · intro address bound obj prop computed optional access
    have set : (Node.expr (.member obj prop computed optional)).withOptional defined =
        .expr ((Expr.member obj prop computed optional).withOptional defined) := rfl
    rw [Node.part?_withOptional, access, Option.map_some, set, withOptional_member,
      Expr.knowledge_withOptional, (Expr.knowledge_spec defined obj).1]
  · intro n' same
    rw [← dropped n', same, dropped]
  · rw [← dropped (n.withOptional defined), kept, dropped]
  · rw [Node.withOptionalAsked]
    exact (n.reflags defined).asks []

end JexlScript.Script
