import JexlScript.Lowering.Basic
import JexlScript.Proofs.OptionalAccess

/-!
# Optional access under binders

What is known of a path is read off its spelling. So an access is flagged without
regard to the functions around it, and a parameter that is spelled as a global of
the language is taken for that global: with nothing else known, an access to a
path is optional unless the path is the bare name of a global, bound or not
(`optional_iff_of_path?`). `optional_misses_bound_map` is a filter whose script
throws at an element that lacks the field which the filter reads.
-/

namespace JexlScript.Script

/-! ## Parts of a tree and what is bound around them -/

/-- The names that a function binds as its parameters. -/
def Node.binds : Node → List String
  | .expr (.arrow ps _) | .expr (.arrowBlock ps _) | .expr (.function _ ps _)
  | .stmt (.function _ ps _) => paramNames ps
  | _ => []

/-- The part of a tree at an address, with the names that the functions around
it bind. An address says at each node which of its direct parts to go on to. -/
def Node.part? : Node → (address : List Nat) → Option (List String × Node)
  | n, [] => some ([], n)
  | n, i :: address => do
    let child ← n.children[i]?
    let (bound, part) ← child.part? address
    some (n.binds ++ bound, part)

section

variable (defined : Path → Bool)

/-- Setting flags keeps the parameters. -/
theorem Node.binds_withOptional (n : Node) : (n.withOptional defined).binds = n.binds := by
  cases n with
  | expr e => cases e <;> rfl
  | stmt s => cases s <;> rfl
  | pattern names => rfl
  | program p => rfl

/-- Parts stay where they are, with their flags set. -/
theorem Node.part?_withOptional (n : Node) (address : List Nat) :
    (n.withOptional defined).part? address =
      (n.part? address).map fun found => (found.1, found.2.withOptional defined) := by
  induction address generalizing n with
  | nil => rfl
  | cons i address ih =>
    simp only [Node.part?, Node.children_withOptional, Node.binds_withOptional,
      List.getElem?_map]
    cases n.children[i]? with
    | none => rfl
    | some child =>
      have below := ih child
      cases found : child.part? address with
      | none => simp [below, found]
      | some found' => simp [below, found]

end

/-- With nothing known of paths but the globals, an access to what a path spells
is optional unless the path is the bare name of a global. The names that the
functions around the access bind make no difference. -/
theorem optional_iff_of_path? (e : Expr) {address : List Nat} {bound : List String}
    {obj prop : Expr} {computed optional : Bool} {name : String} {others : Path}
    (access : (Node.expr e).part? address =
      some (bound, .expr (.member obj prop computed optional)))
    (spells : obj.path? = some (name :: others)) :
    ∃ obj' prop' optional', (Node.expr (e.withOptional fun _ => false)).part? address =
        some (bound, .expr (.member obj' prop' computed optional')) ∧
      obj'.path? = some (name :: others) ∧
      (optional' = true ↔ ¬ (others = [] ∧ name ∈ alwaysDefined)) := by
  have flagged : (Node.expr (e.withOptional fun _ => false)).part? address =
      some (bound,
        .expr ((Expr.member obj prop computed optional).withOptional fun _ => false)) := by
    have parts := Node.part?_withOptional (fun _ => false) (.expr e) address
    rw [access] at parts
    exact parts
  have spells' : (obj.withOptional fun _ => false).path? = some (name :: others) :=
    (path?_withOptional obj).trans spells
  rw [withOptional_member, knowledge_of_path? spells'] at flagged
  refine ⟨_, _, _, flagged, spells', ?_⟩
  cases others with
  | nil =>
    by_cases listed : name ∈ alwaysDefined <;> simp [Knowledge.ofPath, Knowledge.holds, listed]
  | cons second others => simp [Knowledge.ofPath, Knowledge.holds]

/-- `rows.filter(({ Map }) => Map.size.least)` -/
def boundPath : Expr :=
  (Expr.ident "rows").invoke "filter"
    [.arrow [.pattern ["Map"]] (((Expr.ident "Map").dot "size").dot "least")]

/-- Of the two accesses in the filter, that to the field of the parameter is
optional. -/
theorem optional_iff_of_path?_size : ∃ obj' prop' optional',
    (Node.expr (boundPath.withOptional fun _ => false)).part? [1, 1] =
        some (["Map"], .expr (.member obj' prop' false optional')) ∧
      obj'.path? = some ["Map", "size"] ∧
      (optional' = true ↔ ¬ (["size"] = [] ∧ "Map" ∈ alwaysDefined)) :=
  optional_iff_of_path? boundPath rfl rfl

/-- `Map.size` -/
def mapSize : Expr := .member (.ident "Map") (.ident "size") false false

/-- A test for `Map.size` where `Map` is bound. -/
def isBoundMapSize : Option (List String × Node) → Bool
  | some ([name], .expr (.member (.ident obj) (.ident prop) false false)) =>
    name == "Map" && obj == "Map" && prop == "size"
  | _ => false

theorem eq_of_isBoundMapSize {part : Option (List String × Node)}
    (is : isBoundMapSize part = true) : part = some (["Map"], .expr mapSize) := by
  unfold isBoundMapSize at is
  split at is
  · simp only [Bool.and_eq_true, beq_iff_eq] at is
    obtain ⟨⟨rfl, rfl⟩, rfl⟩ := is
    rfl
  · cases is

/-- In the script of `rows[.Map.size > 1]` the access to `Map`, which the filter
binds to a field of the element, is not optional, so it throws at an element that
has no such field. -/
theorem optional_misses_bound_map : ∃ script,
    (scriptOf Grammar.stock Options.usual "rows[.Map.size > 1]").toOption.map Lowered.script =
        some script ∧
      (Node.expr script).part? [1, 1, 0] = some (["Map"], .expr mapSize) ∧
      mapSize.run plainValuation (fun _ => .undefined) = none ∧
      mapSize.lenient plainValuation (fun _ => .undefined) = .undefined := by
  have evaluated : ((scriptOf Grammar.stock Options.usual "rows[.Map.size > 1]").toOption.any
      fun l => isBoundMapSize ((Node.expr l.script).part? [1, 1, 0])) = true := by
    decide +kernel
  obtain ⟨l, lowered, is⟩ := (Option.any_eq_true _ _).mp evaluated
  exact ⟨l.script, by rw [lowered, Option.map_some], eq_of_isBoundMapSize is, rfl, rfl⟩

end JexlScript.Script
