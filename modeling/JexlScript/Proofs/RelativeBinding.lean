import JexlScript.Proofs.FilterScope
import JexlScript.Proofs.OptionalScope
import JexlScript.Proofs.WrittenScripts

/-!
# Relative names and the filters that bind them

The scan for relative names finds all of them, in the order of their first
occurrences. Without a reader, the script of every part of a formula stands at a
place of its own in the script of the formula, given by `Formula.place`. So each
relative name of a text can be followed to its reference in the script, and the
function that binds it there is the one of the innermost relative filter around
the name.
-/

namespace JexlScript

open List Script

/-- A path is followed piece by piece, and the names that are bound along it add up. -/
theorem Script.Node.part?_append {n m p : Node} {a a' : List Nat} {bound bound' : List String}
    (first : n.part? a = some (bound, m)) (second : m.part? a' = some (bound', p)) :
    n.part? (a ++ a') = some (bound ++ bound', p) := by
  induction a generalizing n bound with
  | nil =>
    cases first
    exact second
  | cons i a ih =>
    simp only [Node.part?, Option.bind_eq_bind, Option.bind_eq_some_iff] at first
    obtain ⟨child, found, ⟨inner, _⟩, below, same⟩ := first
    cases same
    simp [Node.part?, found, ih below]

namespace Formula

/-! ## Parts by their addresses -/

/-- The formulas right inside a formula, in the order of the text. -/
def children : Formula → List Formula
  | .literal _ | .root .. | .stray _ => []
  | .field e _ _ | .unary _ e => [e]
  | .binary _ l r | .filter l r _ => [l, r]
  | .conditional t c a => [t, c, a]
  | .array es | .call _ _ es => es
  | .object ps => ps.map Prod.snd

/-- The part of a formula at an address, which says at each formula which of its
direct parts to go on to. -/
def part? : Formula → (address : List Nat) → Option Formula
  | f, [] => some f
  | f, i :: address => f.children[i]?.bind (·.part? address)

/-- Whether a direct part is the predicate of a relative filter. -/
def isPredicate : Formula → Nat → Bool
  | .filter _ _ true, 1 => true
  | _, _ => false

/-- Whether an address leads into no predicate of a relative filter. -/
def staysOutside : Formula → (address : List Nat) → Bool
  | _, [] => true
  | f, i :: address => !f.isPredicate i && f.children[i]?.all (·.staysOutside address)

/-- Where the script of a direct part stands in the script of a formula. -/
def step : Formula → Nat → List Nat
  | .binary op _ _, i =>
    if op = "//" then [1, i] else if op = "in" then [[1], [0, 0]].getD i [] else [i]
  | .filter _ _ true, i => [i, i]
  | .call .., i => [i + 1]
  | _, i => [i]

/-- The address, in the script of a formula, of the script of a part. -/
def place : Formula → (address : List Nat) → List Nat
  | _, [] => []
  | f, i :: address => f.step i ++ f.children[i]?.elim [] (·.place address)

variable {f c : Formula} {address : List Nat}

/-- The place of a part is found piece by piece. -/
theorem place_append {a : List Nat} (found : f.part? a = some c) (a' : List Nat) :
    f.place (a ++ a') = f.place a ++ c.place a' := by
  induction a generalizing f with
  | nil =>
    cases found
    rfl
  | cons i a ih =>
    obtain ⟨d, child, below⟩ := Option.bind_eq_some_iff.mp found
    simp [place, child, ih below]

/-- The parts of a child are parts of the whole. -/
theorem parts_subset_of_mem_children (child : c ∈ f.children) : c.parts ⊆ f.parts := by
  intro p part
  cases f with
  | literal | root | stray => cases child
  | array es | call _ _ es => exact .tail _ (mem_listParts.mpr ⟨c, child, part⟩)
  | object ps =>
    obtain ⟨q, inside, rfl⟩ := mem_map.mp child
    exact .tail _ (mem_entryParts.mpr ⟨q, inside, part⟩)
  | _ =>
    simp only [children, mem_cons, not_mem_nil, or_false] at child
    rcases child with rfl | rfl | rfl <;> simp [parts, part]

/-- What a child exposes is exposed by the whole, if the child is not the condition of a filter. -/
theorem exposed_subset_of_child {i : Nat} (child : f.children[i]? = some c)
    (outside : f.isPredicate i = false) : c.exposed ⊆ f.exposed := by
  intro n exposes
  have member := mem_of_getElem? child
  cases f with
  | literal | root | stray => cases member
  | array es | call _ _ es => exact mem_listExposed.mpr ⟨c, member, exposes⟩
  | object ps =>
    obtain ⟨q, inside, rfl⟩ := mem_map.mp member
    exact mem_entryExposed.mpr ⟨q, inside, exposes⟩
  | filter s e relative =>
    rcases i with _ | _ | i
    · cases child
      exact mem_append_left _ exposes
    · cases child
      cases relative with
      | false => exact mem_append_right _ exposes
      | true => cases outside
    · cases child
  | _ =>
    simp only [children, mem_cons, not_mem_nil, or_false] at member
    rcases member with rfl | rfl | rfl <;> simp [exposed, exposes]

/-- What stands at an address is a part. -/
theorem mem_parts_of_part? (found : f.part? address = some c) : c ∈ f.parts := by
  induction address generalizing f with
  | nil =>
    cases found
    exact self_mem_parts _
  | cons i address ih =>
    obtain ⟨d, child, below⟩ := Option.bind_eq_some_iff.mp found
    exact parts_subset_of_mem_children (mem_of_getElem? child) (ih below)

/-- A relative root that no filter is around is exposed. -/
theorem mem_exposed_of_part? {n : String}
    (found : f.part? address = some (.root n true)) (outside : f.staysOutside address = true) :
    n ∈ f.exposed := by
  induction address generalizing f with
  | nil =>
    cases found
    exact mem_singleton.mpr rfl
  | cons i address ih =>
    obtain ⟨d, child, below⟩ := Option.bind_eq_some_iff.mp found
    simp only [staysOutside, child, Option.all_some, Bool.and_eq_true, Bool.not_eq_true'] at outside
    exact exposed_subset_of_child child outside.1 (ih below outside.2)

/-- The relative filter `s[e]` is the innermost around what stands at the address
`outer ++ 1 :: inner`: it stands at `outer`, and on the way from its predicate there is
no other. -/
structure Innermost (f : Formula) (outer inner : List Nat) (s e : Formula) : Prop where
  filter : f.part? outer = some (.filter s e true)
  outside : e.staysOutside inner = true

/-- A part is in the condition of no relative filter, or there is an innermost one around it. -/
theorem outside_or_innermost (found : f.part? address = some c) :
    f.staysOutside address = true ∨
      ∃ outer inner s e, address = outer ++ 1 :: inner ∧ f.Innermost outer inner s e ∧
        e.part? inner = some c := by
  induction address generalizing f with
  | nil => exact .inl rfl
  | cons i address ih =>
    obtain ⟨d, child, below⟩ := Option.bind_eq_some_iff.mp found
    rcases ih below with outside | ⟨outer, inner, s, e, rfl, inside, part⟩
    · cases enters : f.isPredicate i with
      | false => exact .inl (by simp [staysOutside, enters, child, outside])
      | true =>
        unfold isPredicate at enters
        split at enters
        · cases child
          exact .inr ⟨[], address, _, _, rfl, ⟨rfl, outside⟩, below⟩
        · cases enters
    · refine .inr ⟨i :: outer, inner, s, e, rfl, ⟨?_, inside.outside⟩, part⟩
      simp [part?, child, inside.filter]

end Formula

/-! ## Where the scripts of parts stand -/

/-- The scripts of both operands stand in that of the operator, and nothing is bound around them. -/
theorem OperatorScript.stands {op : String} {l r e : Expr} (script : OperatorScript l r op e)
    (x y : Formula) (i : Nat) (e' : Expr) (operand : [l, r][i]? = some e') :
    (Node.expr e).part? ((Formula.binary op x y).step i) = some ([], .expr e') := by
  have plain (floor : op ≠ "//") (contains : op ≠ "in") :
      (Formula.binary op x y).step i = [i] := by simp [Formula.step, floor, contains]
  cases script with
  | logical known | native known =>
    rw [plain (by rintro rfl; exact absurd known (by decide))
      (by rintro rfl; exact absurd known (by decide))]
    rcases i with _ | _ | i <;> cases operand <;> rfl
  | _ => rcases i with _ | _ | i <;> cases operand <;> rfl

namespace Context

variable {ctx : Context}

/-- Some run of the lowering turns the formula into the script. -/
def Lowers (ctx : Context) (f : Formula) (e : Expr) : Prop :=
  ∃ journal journal', (ctx.lower f).run journal = (.ok e, journal')

/-- What lowering gives is lowered, trivially. -/
theorem lower_gives_lowers (f : Formula) : (ctx.lower f).Gives (ctx.Lowers f) :=
  fun journal _ journal' ran => ⟨journal, journal', ran⟩

/-- The formulas of a list are lowered one by one. -/
theorem lowerList_lowers (fs : List Formula) :
    (ctx.lowerList fs).Gives (List.Forall₂ ctx.Lowers fs) := by
  induction fs with
  | nil => exact Lower.Gives.pure .nil
  | cons f fs ih =>
    exact (lower_gives_lowers f).bind fun e lowers => ih.bind fun es others =>
      Lower.Gives.pure (.cons lowers others)

/-- The values of an object are lowered one by one. -/
theorem lowerEntries_lowers (fs : List (String × Formula)) :
    (ctx.lowerEntries fs).Gives fun ps =>
      List.Forall₂ ctx.Lowers (fs.map Prod.snd) (ps.map Prod.snd) := by
  induction fs with
  | nil => exact Lower.Gives.pure .nil
  | cons f fs ih =>
    exact (lower_gives_lowers f.2).bind fun e lowers => ih.bind fun es others =>
      Lower.Gives.pure (.cons lowers others)

/-- The direct parts of a formula are lowered, and their scripts stand in the script of
the formula, under no binder but that of a relative filter. -/
def Placed (ctx : Context) (f : Formula) (e : Expr) : Prop :=
  ∀ i c, f.children[i]? = some c → ∃ bound e', (Node.expr e).part? (f.step i) =
    some (bound, .expr e') ∧ (f.isPredicate i = false → bound = []) ∧ ctx.Lowers c e'

/-- If the scripts of all children stand where `step` says, the children are placed. -/
theorem placed_of_forall₂ {f : Formula} {e : Expr} {es : List Expr}
    (lowers : List.Forall₂ ctx.Lowers f.children es)
    (stands : ∀ i e', es[i]? = some e' → (Node.expr e).part? (f.step i) = some ([], .expr e')) :
    ctx.Placed f e := by
  intro i c child
  obtain ⟨inside, rfl⟩ := List.getElem?_eq_some_iff.mp child
  have inside' : i < es.length := lowers.length_eq ▸ inside
  exact ⟨[], es[i], stands i _ (getElem?_eq_getElem inside'), fun _ => rfl,
    lowers.get inside inside'⟩

/-- Without a reader every child of a formula is placed, one case for each form of formulas. -/
theorem lower_placed (reader : ctx.reader = none) (f : Formula) :
    (ctx.lower f).Gives (ctx.Placed f) := by
  cases f with
  | literal | root => exact Lower.Gives.pure fun i c child => by cases child
  | stray text => exact Lower.Gives.throw _
  | field e name relative =>
    refine (lower_gives_lowers e).bind fun e' lowers => Lower.Gives.pure ?_
    refine placed_of_forall₂ (.cons lowers .nil) fun i d operand => ?_
    rcases i with _ | i <;> cases operand
    rfl
  | unary op e =>
    refine (lower_gives_lowers e).bind fun e' lowers => (unary_gives_unary reader op e').mono ?_
    rintro _ rfl
    refine placed_of_forall₂ (.cons lowers .nil) fun i d operand => ?_
    rcases i with _ | i <;> cases operand
    rfl
  | binary op l r =>
    exact (lower_gives_lowers l).bind fun l' left => (lower_gives_lowers r).bind fun r' right =>
      (binary_gives_script reader op l' r').mono fun _ script =>
        placed_of_forall₂ (.cons left (.cons right .nil)) (script.stands l r)
  | conditional t c a =>
    refine (lower_gives_lowers t).bind fun t' test => (lower_gives_lowers c).bind fun c' yes =>
      (lower_gives_lowers a).bind fun a' no => Lower.Gives.pure ?_
    refine placed_of_forall₂ (.cons test (.cons yes (.cons no .nil))) fun i d operand => ?_
    rcases i with _ | _ | _ | i <;> cases operand <;> rfl
  | array es =>
    refine (lowerList_lowers es).bind fun es' lowers => Lower.Gives.pure ?_
    refine placed_of_forall₂ lowers fun i d operand => ?_
    simp [Formula.step, Node.part?, Node.children, Expr.children, operand, Node.binds]
  | object ps =>
    refine (lowerEntries_lowers ps).bind fun ps' lowers => Lower.Gives.pure ?_
    refine placed_of_forall₂ lowers fun i d operand => ?_
    obtain ⟨p, found, rfl⟩ : ∃ p, ps'[i]? = some p ∧ p.2 = d := by simpa using operand
    simp [Formula.step, Node.part?, Node.children, Expr.children, found, Node.binds]
  | filter s e relative =>
    refine (lower_gives_lowers s).bind fun s' subject => ?_
    cases relative with
    | false =>
      refine (lower_gives_lowers e).bind fun e' predicate => Lower.Gives.pure ?_
      refine placed_of_forall₂ (.cons subject (.cons predicate .nil)) fun i d operand => ?_
      rcases i with _ | _ | i <;> cases operand <;> rfl
    | true =>
      refine Lower.Gives.after fun names => (lower_gives_lowers e).bind fun e' predicate =>
        Lower.Gives.pure fun i c child => ?_
      -- The condition is below the arrow, which binds the names; the subject is not.
      rcases i with _ | _ | i <;> cases child
      · exact ⟨_, s', rfl, fun _ => rfl, subject⟩
      · exact ⟨_, e', rfl, (fun outside => by cases outside), predicate⟩
  | call pool name es =>
    refine (lowerList_lowers es).bind fun es' lowers =>
      (call_gives_call reader pool name es').mono ?_
    rintro _ rfl
    refine placed_of_forall₂ lowers fun i d operand => ?_
    simp [Formula.step, Node.part?, Node.children, Expr.children, operand, Node.binds]

/-- By induction over the address the script of every part stands at its place. -/
theorem Lowers.part {f c : Formula} {e : Expr} {address : List Nat} (lowers : ctx.Lowers f e)
    (reader : ctx.reader = none) (found : f.part? address = some c) :
    ∃ bound e', (Node.expr e).part? (f.place address) = some (bound, .expr e') ∧
      (f.staysOutside address = true → bound = []) ∧ ctx.Lowers c e' := by
  induction address generalizing f e with
  | nil =>
    cases found
    exact ⟨[], e, rfl, fun _ => rfl, lowers⟩
  | cons i address ih =>
    obtain ⟨d, child, below⟩ := Option.bind_eq_some_iff.mp found
    obtain ⟨journal, journal', ran⟩ := lowers
    obtain ⟨bound, d', stands, free, lowers⟩ := lower_placed reader f _ _ _ ran i d child
    obtain ⟨bound', e', stands', free', lowers'⟩ := ih lowers below
    refine ⟨bound ++ bound', e', ?_, fun outside => ?_, lowers'⟩
    · rw [Formula.place, child]
      exact Node.part?_append stands stands'
    · simp only [Formula.staysOutside, child, Option.all_some, Bool.and_eq_true,
        Bool.not_eq_true'] at outside
      rw [free outside.1, free' outside.2]
      rfl

end Context

/-- The scan finds the relative names of a formula, each once and in the order in which
they first occur, from left to right and a name before its parent. In the script of a
text, without a reader, the reference that a relative name becomes is bound by the
function of the innermost relative filter around the name: its pattern holds the name,
and no other function stands between the two. -/
theorem relativeNames_found_and_bound :
    (∀ f : Formula, (∀ text, .stray text ∉ f.parts) → ∃ names, f.relativeNames = .ok names ∧
      Names.Firsts names (f.parts.filterMap Formula.relative?)) ∧
    ∀ (g : Grammar Callable) (o : Options) (text : String) (f : Formula),
      Formula.parse g text = .ok f → o.reader = none →
      ((o.context g).lower f).Gives fun script =>
        ∀ address n, f.part? address = some (.root n true) →
          ∃ outer inner s e, address = outer ++ 1 :: inner ∧ f.Innermost outer inner s e ∧
            ∃ bound s' names e', (Node.expr script).part? (f.place outer) =
                some (bound, .expr (Expr.invoke s' "filter" [.arrow [.pattern names] e'])) ∧
              n ∈ names ∧ (Node.expr e').part? (e.place inner) = some ([], .expr (.ident n)) ∧
              (Node.expr script).part? (f.place address) =
                some (bound ++ names, .expr (.ident n)) := by
  constructor
  · intro f proper
    exact ⟨_, Formula.relativeNames_eq proper, Names.firsts_distinct _⟩
  · intro g o text f parsed reader journal script journal' ran address n found
    have reader : (o.context g).reader = none := reader
    have lowers : (o.context g).Lowers f script := ⟨journal, journal', ran⟩
    rcases Formula.outside_or_innermost found with outside | ⟨outer, inner, s, e, rfl, filter, part⟩
    -- Outside of all relative filters the parser lets no relative name pass.
    · have exposes := Formula.mem_exposed_of_part? found outside
      simp [Formula.parse_exposed parsed] at exposes
    · obtain ⟨bound, script', stands, _, journal, journal', ran⟩ := lowers.part reader filter.filter
      have built : e.Built g := by
        cases (Formula.parse_built parsed).of_mem_parts _ (Formula.mem_parts_of_part? filter.filter)
        assumption
      obtain ⟨names, scanned, _, taken⟩ := built.relativeNames
      obtain ⟨s', e', _, predicate, rfl⟩ := Context.filter_gives scanned
        (Context.lower_gives_lowers s) (Context.lower_gives_lowers e) _ _ _ ran
      obtain ⟨bound', e'', stands', free, _, _, ran⟩ := predicate.part reader part
      cases ran
      cases free filter.outside
      refine ⟨outer, inner, s, e, rfl, filter, bound, s', names, e', stands,
        (taken n).mpr (Formula.mem_parts_of_part? part), stands', ?_⟩
      -- The arrow is the argument of the call, and its body stands behind its pattern.
      have enters : (Node.expr (s'.invoke "filter" [.arrow [.pattern names] e'])).part? [1, 1] =
          some (names, .expr e') := by
        simp [Node.part?, Node.children, Expr.children, Expr.invoke, patternNodes, Node.binds,
          paramNames, Param.names]
      rw [Formula.place_append filter.filter, ← append_nil names]
      exact Node.part?_append stands (Node.part?_append enters stands')

/-- The relative name in `rows[.kind == kind]`, which stands at `[1, 0]`. -/
theorem relativeNames_found_and_bound_kind :
    Formula.parse Grammar.stock "rows[.kind == kind]" = .ok kindFilter ∧
      (∃ names, kindFilter.relativeNames = .ok names ∧ Names.Firsts names ["kind"]) ∧
      ∃ script journal bound names,
        ((Options.usual.context Grammar.stock).lower kindFilter).run Journal.empty =
          (.ok script, journal) ∧ kindFilter.part? [1, 0] = some (.root "kind" true) ∧
        "kind" ∈ names ∧
        (Node.expr script).part? [1, 1, 0] = some (bound ++ names, .expr (.ident "kind")) := by
  obtain ⟨found, bind⟩ := relativeNames_found_and_bound
  obtain ⟨_, _, _, _, _, _, bound, _, names, _, _, member, _, stands⟩ :=
    bind Grammar.stock Options.usual _ kindFilter parse_kindFilter rfl Journal.empty _ _ rfl [1, 0]
      "kind" rfl
  exact ⟨parse_kindFilter, found kindFilter (by simp [kindFilter, Formula.parts]),
    _, _, bound, names, rfl, rfl, member, stands⟩

end JexlScript
