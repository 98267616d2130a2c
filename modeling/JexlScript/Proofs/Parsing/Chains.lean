import JexlScript.Proofs.Parsing.Derivation

/-!
# The shape of a chain

A chain of binary operators is completed by a stack of waiting operators. What
comes out is described twice. `Balanced` says what holds at every operator of
the chain: the operators left of it bind at least as tightly, those right of it
more tightly. `joinAtLeast` says which operator is the outermost: of those that
bind least, the last. Where precedences are numbers, the two describe one
formula, and it is the one that the stack completes.
-/

namespace JexlScript

open List

theorem Double.atMost_eq_false_of_less {a b : Double} (less : a.less b = true) :
    b.atMost a = false := by
  simp only [Double.less, Bool.and_eq_true, decide_eq_true_eq] at less
  simp only [Double.atMost, Bool.and_eq_false_iff, decide_eq_false_iff_not]
  exact .inr (by omega)

/-- Of two numbers one is less if the other is not at most it. -/
theorem Double.less_of_atMost_eq_false {a b : Double} (numbers : a.isNaN = false ∧ b.isNaN = false)
    (above : b.atMost a = false) : a.less b = true := by
  simpa [Double.less, Double.atMost, numbers] using above

theorem Double.atMost_of_less {a b : Double} (less : a.less b = true) : a.atMost b = true := by
  simp only [Double.less, Double.atMost, Bool.and_eq_true, decide_eq_true_eq] at *
  exact ⟨less.1, by omega⟩

theorem Double.less_of_less_of_atMost {a b c : Double} (less : a.less b = true)
    (atMost : b.atMost c = true) : a.less c = true := by
  simp only [Double.less, Double.atMost, Bool.and_eq_true, decide_eq_true_eq] at *
  exact ⟨⟨less.1.1, atMost.1.2⟩, by omega⟩

namespace Formula

/-! ## Chains in order -/

/-- Operators that wait for their right operands, innermost first, after a chain
that starts with an operand: the links before the innermost right operand, and
the operand that it starts with. -/
inductive Waits (start : Formula) : List (String × Formula) → Formula → List Pending → Prop
  | none : Waits start [] start []
  | pending {before ls e p ps} (e' : Formula) : Waits start before e ps → InOrder e ls p.left →
      Waits start (before ++ ls ++ [(p.op, e')]) e' (p :: ps)

section

variable {start e f : Formula} {before ls : List (String × Formula)} {waiting : List Pending}

/-- Completing an operator keeps operands and operators in their order. -/
theorem InOrder.completed {p : Pending} {e' : Formula} {ls' : List (String × Formula)}
    (left : InOrder e ls p.left) (right : InOrder e' ls' f) :
    InOrder e (ls ++ [(p.op, e')] ++ ls') (.binary p.op p.left f) := by
  simpa using InOrder.binary p.op left right

/-- When everything is completed, the chain so far is in order. -/
theorem Waits.completeAll (waits : Waits start before e waiting) (current : InOrder e ls f) :
    InOrder start (before ++ ls) (completeAll f waiting) := by
  induction waits generalizing ls f with
  | none => exact current
  | pending e' _ left ih => simpa [Formula.completeAll] using ih (left.completed current)

/-- What is completed before the next operator moves from the stack to the operand. -/
theorem Waits.complete (precedence : Double) (waits : Waits start before e waiting)
    (current : InOrder e ls f) :
    ∃ before' e' ls', before' ++ ls' = before ++ ls ∧
      Waits start before' e' (complete precedence f waiting).2 ∧
        InOrder e' ls' (complete precedence f waiting).1 := by
  induction waits generalizing ls f with
  | none => exact ⟨[], start, ls, rfl, .none, current⟩
  | @pending before₀ ls₀ e₀ p ps e' waits left ih =>
    unfold Formula.complete
    split
    · obtain ⟨before', e₁, ls', same, waits', current'⟩ := ih (left.completed current)
      exact ⟨before', e₁, ls', by simp [same], waits', current'⟩
    · exact ⟨_, e', ls, rfl, .pending e' waits left, current⟩

/-- Climbing keeps the chain in order. -/
theorem Waits.climb {links : List Link} (waits : Waits start before e waiting)
    (current : InOrder e ls f) :
    InOrder start (before ++ ls ++ links.map fun l => (l.op, l.operand))
      (climb f waiting links) := by
  induction links generalizing before e ls f waiting with
  | nil => simpa [Formula.climb] using waits.completeAll current
  | cons l links ih =>
    obtain ⟨before', e', ls', same, waits', current'⟩ := waits.complete l.precedence current
    have waits'' := Waits.pending l.operand waits' (p := ⟨_, l.op, l.precedence⟩) current'
    simpa [Formula.climb, same] using ih waits'' (.operand l.operand)

end

/-- The shape that a chain is given keeps its operands and operators in order. -/
theorem climb_inOrder (e : Formula) (links : List Link) :
    InOrder e (links.map fun l => (l.op, l.operand)) (climb e [] links) :=
  Waits.none.climb (.operand e)

/-! ## The outermost operator -/

section

variable {precedence : Double} {p : Pending} {waiting : List Pending}

theorem completeAll_append (operand : Formula) :
    completeAll operand (waiting ++ [p]) = .binary p.op p.left (completeAll operand waiting) := by
  induction waiting generalizing operand with
  | nil => rfl
  | cons q qs ih => exact ih _

/-- An operator at the bottom that binds less tightly goes on waiting. -/
theorem complete_append (looser : precedence.atMost p.precedence = false) (operand : Formula) :
    complete precedence operand (waiting ++ [p]) =
      ((complete precedence operand waiting).1,
        (complete precedence operand waiting).2 ++ [p]) := by
  induction waiting generalizing operand with
  | nil => simp [complete, looser]
  | cons q qs ih =>
    simp only [cons_append, complete]
    split
    · exact ih _
    · rfl

/-- Before an operator that binds at most as tightly as all that wait everything is completed. -/
theorem complete_eq_completeAll (tighter : ∀ q ∈ waiting, precedence.atMost q.precedence = true)
    (operand : Formula) :
    complete precedence operand waiting = (completeAll operand waiting, []) := by
  induction waiting generalizing operand with
  | nil => rfl
  | cons q qs ih =>
    rw [forall_mem_cons] at tighter
    simp only [complete, tighter.1, if_true, completeAll]
    exact ih tighter.2 _

theorem mem_of_mem_complete {q : Pending} {operand : Formula}
    (member : q ∈ (complete precedence operand waiting).2) : q ∈ waiting := by
  induction waiting generalizing operand with
  | nil => exact member
  | cons q' qs ih =>
    simp only [complete] at member
    split at member
    · exact mem_cons_of_mem _ (ih member)
    · exact member

end

/-- An operator that binds less tightly than all that follow waits for the whole rest. -/
theorem climb_append_waiting {p : Pending} {links : List Link}
    (looser : ∀ l ∈ links, l.precedence.atMost p.precedence = false) (e : Formula)
    (waiting : List Pending) :
    climb e (waiting ++ [p]) links = .binary p.op p.left (climb e waiting links) := by
  induction links generalizing e waiting with
  | nil => exact completeAll_append e
  | cons l links ih =>
    rw [forall_mem_cons] at looser
    simp only [climb, complete_append looser.1]
    exact ih looser.2 l.operand (_ :: _)

/-- An operator that binds at most as tightly as all before it takes them all for its left
operand. -/
theorem climb_append_link {l : Link} {before after : List Link}
    (tighter : ∀ k ∈ before, l.precedence.atMost k.precedence = true) (e : Formula)
    {waiting : List Pending} (waits : ∀ p ∈ waiting, l.precedence.atMost p.precedence = true) :
    climb e waiting (before ++ l :: after) =
      climb l.operand [⟨climb e waiting before, l.op, l.precedence⟩] after := by
  induction before generalizing e waiting with
  | nil => simp only [nil_append, climb, complete_eq_completeAll waits]
  | cons k before ih =>
    rw [forall_mem_cons] at tighter
    refine ih tighter.2 _ (forall_mem_cons.mpr ⟨tighter.1, fun p member => ?_⟩)
    exact waits p (mem_of_mem_complete member)

/-- The last of the operators that bind least is the outermost. -/
theorem climb_split {l : Link} {before after : List Link}
    (tighter : ∀ k ∈ before, l.precedence.atMost k.precedence = true)
    (looser : ∀ k ∈ after, k.precedence.atMost l.precedence = false) (e : Formula) :
    climb e [] (before ++ l :: after) =
      .binary l.op (climb e [] before) (climb l.operand [] after) := by
  rw [climb_append_link tighter e (by simp)]
  exact climb_append_waiting (p := ⟨_, l.op, l.precedence⟩) looser l.operand []

/-! ## Balanced formulas -/

/-- A formula whose binary operators, read from left to right, join a first
operand to the operands after it, and each of whose operators has operators that
bind at least as tightly on its left and ones that bind more tightly on its
right. -/
inductive Balanced (precedence : String → Double) :
    Formula → List (String × Formula) → Formula → Prop
  | operand (e : Formula) : Balanced precedence e [] e
  | binary {op : String} {e e' f f' : Formula} {ls ls' : List (String × Formula)} :
      Balanced precedence e ls f → Balanced precedence e' ls' f' →
      (∀ l ∈ ls, (precedence op).atMost (precedence l.1) = true) →
      (∀ l ∈ ls', (precedence op).less (precedence l.1) = true) →
      Balanced precedence e (ls ++ (op, e') :: ls') (.binary op f f')

/-- Cuts a chain at the last of the operators that bind least. -/
def cutAtLeast (precedence : String → Double) : List (String × Formula) →
    Option (List (String × Formula) × (String × Formula) × List (String × Formula))
  | [] => none
  | l :: ls =>
    match cutAtLeast precedence ls with
    | none => some ([], l, ls)
    | some (before, k, after) =>
      if (precedence k.1).atMost (precedence l.1) then some (l :: before, k, after)
      else some ([], l, ls)

section

variable {precedence : String → Double} {ls before after : List (String × Formula)}
  {l : String × Formula}

theorem eq_append_of_cutAtLeast (cut : cutAtLeast precedence ls = some (before, l, after)) :
    ls = before ++ l :: after := by
  induction ls generalizing before with
  | nil => cases cut
  | cons k ks ih =>
    rw [cutAtLeast] at cut
    split at cut
    · cases cut; rfl
    · next before' _ _ tail =>
        split at cut
        · cases cut
          rw [ih tail]
          rfl
        · cases cut; rfl

/-- The outermost operator of a chain is the last of those that bind least, and
so on to both sides of it. -/
def joinAtLeast (precedence : String → Double) (e : Formula) (ls : List (String × Formula)) :
    Formula :=
  match _ : cutAtLeast precedence ls with
  | none => e
  | some (before, (op, e'), after) =>
    .binary op (joinAtLeast precedence e before) (joinAtLeast precedence e' after)
termination_by ls.length
decreasing_by
  all_goals
    rw [eq_append_of_cutAtLeast ‹cutAtLeast precedence ls = _›]
    simp only [length_append, length_cons]
    omega

theorem cutAtLeast_append (tighter : ∀ k ∈ before, (precedence l.1).atMost (precedence k.1) = true)
    (looser : ∀ k ∈ after, (precedence l.1).less (precedence k.1) = true) :
    cutAtLeast precedence (before ++ l :: after) = some (before, l, after) := by
  induction before with
  | nil =>
    simp only [nil_append, cutAtLeast]
    split
    · rfl
    · next before k after' cut =>
        have member : k ∈ after := by simp [eq_append_of_cutAtLeast cut]
        rw [Double.atMost_eq_false_of_less (looser k member)]
        rfl
  | cons k before ih =>
    rw [forall_mem_cons] at tighter
    simp only [cons_append, cutAtLeast, ih tighter.2, tighter.1, if_true]

theorem eq_nil_of_cutAtLeast (cut : cutAtLeast precedence ls = none) : ls = [] := by
  cases ls with
  | nil => rfl
  | cons l ls =>
    rw [cutAtLeast] at cut
    split at cut
    · cases cut
    · split at cut <;> cases cut

/-- Left of the cut nothing binds less, right of it everything binds more. -/
theorem cutAtLeast_spec (numbers : ∀ k ∈ ls, (precedence k.1).isNaN = false)
    (cut : cutAtLeast precedence ls = some (before, l, after)) :
    (∀ k ∈ before, (precedence l.1).atMost (precedence k.1) = true) ∧
      ∀ k ∈ after, (precedence l.1).less (precedence k.1) = true := by
  induction ls generalizing before l after with
  | nil => cases cut
  | cons first ks ih =>
    rw [forall_mem_cons] at numbers
    rw [cutAtLeast] at cut
    split at cut
    · next tail =>
        cases cut
        rw [eq_nil_of_cutAtLeast tail]
        exact ⟨by simp, by simp⟩
    · next before' k after' tail =>
        -- The cut is in the tail, unless the first operator binds less tightly than the one that is
        -- found there.
        obtain ⟨tighter, looser⟩ := ih numbers.2 tail
        split at cut
        · next atMost =>
            cases cut
            exact ⟨forall_mem_cons.mpr ⟨atMost, tighter⟩, looser⟩
        · next above =>
            cases cut
            have inside := eq_append_of_cutAtLeast tail
            have number : (precedence k.1).isNaN = false := numbers.2 k (by simp [inside])
            have less : (precedence first.1).less (precedence k.1) = true :=
              Double.less_of_atMost_eq_false ⟨numbers.1, number⟩ (by simpa using above)
            refine ⟨by simp, ?_⟩
            rw [inside, forall_mem_append, forall_mem_cons]
            exact ⟨fun l' member => Double.less_of_less_of_atMost less (tighter l' member), less,
              fun l' member =>
                Double.less_of_less_of_atMost less (Double.atMost_of_less (looser l' member))⟩

/-- Cutting at the least operators balances a chain, if precedences are numbers. -/
theorem joinAtLeast_balanced (e : Formula) (numbers : ∀ k ∈ ls, (precedence k.1).isNaN = false) :
    Balanced precedence e ls (joinAtLeast precedence e ls) := by
  fun_induction joinAtLeast precedence e ls with
  | case1 e ls cut =>
    rw [eq_nil_of_cutAtLeast cut]
    exact .operand e
  | case2 e ls before op e' after cut left right =>
    obtain ⟨tighter, looser⟩ := cutAtLeast_spec numbers cut
    rw [eq_append_of_cutAtLeast cut] at numbers ⊢
    rw [forall_mem_append, forall_mem_cons] at numbers
    exact .binary (left numbers.1) (right numbers.2.2) tighter looser

theorem joinAtLeast_of_cut {op : String} (e : Formula) {e' : Formula}
    (cut : cutAtLeast precedence ls = some (before, (op, e'), after)) :
    joinAtLeast precedence e ls =
      .binary op (joinAtLeast precedence e before) (joinAtLeast precedence e' after) := by
  rw [joinAtLeast]
  split
  · next no => rw [cut] at no; cases no
  · next same =>
      rw [cut] at same
      cases same
      rfl

/-- A chain has one balanced shape, that of the cuts. -/
theorem Balanced.eq_joinAtLeast {e f : Formula} (balanced : Balanced precedence e ls f) :
    f = joinAtLeast precedence e ls := by
  induction balanced with
  | operand e => rw [joinAtLeast.eq_def]; rfl
  | binary _ _ tighter looser left right =>
    rw [joinAtLeast_of_cut _ (cutAtLeast_append tighter looser), left, right]

/-- And climbing gives it. -/
theorem Balanced.eq_climb {e f : Formula} (balanced : Balanced precedence e ls f) :
    f = climb e [] (ls.map fun l => ⟨l.1, precedence l.1, l.2⟩) := by
  induction balanced with
  | operand e => rfl
  | binary _ _ tighter looser left right =>
    rw [map_append, map_cons, climb_split, left, right]
    · exact forall_mem_map.mpr tighter
    · exact forall_mem_map.mpr fun l member =>
        Double.atMost_eq_false_of_less (looser l member)

/-- Climbing balances a chain, and nothing else does. -/
theorem balanced_iff_climb {e f : Formula} (numbers : ∀ k ∈ ls, (precedence k.1).isNaN = false) :
    Balanced precedence e ls f ↔ climb e [] (ls.map fun l => ⟨l.1, precedence l.1, l.2⟩) = f := by
  refine ⟨fun balanced => balanced.eq_climb.symm, ?_⟩
  rintro rfl
  have balanced := joinAtLeast_balanced e numbers
  exact balanced.eq_climb ▸ balanced

end

end Formula

/-! ## Precedences of a grammar -/

/-- The precedence of an operator, the least for one that is not known. -/
def Grammar.precedence {ι : Type} (g : Grammar ι) (op : String) : Double :=
  ((g.lookup? op .binaryOp).map (·.precedence)).getD (Double.infinity true)

namespace Formula

variable {ι : Type} {g : Grammar ι}

theorem precedence_of_known {op : String} {precedence : Double}
    (known : (g.lookup? op .binaryOp).map (·.precedence) = some precedence) :
    g.precedence op = precedence := by
  rw [Grammar.precedence, known, Option.getD_some]

/-- Only what is no operator, or one of the least precedence, has it. -/
theorem known_of_higher {op : String} (higher : isLeast (g.precedence op) = false) :
    (g.lookup? op .binaryOp).map (·.precedence) = some (g.precedence op) := by
  unfold Grammar.precedence at higher ⊢
  cases known : (g.lookup? op .binaryOp).map (·.precedence) with
  | none =>
    rw [known] at higher
    exact absurd higher (by decide)
  | some precedence => rfl

/-- Links as the grammar's precedences make them. -/
def linksOf (g : Grammar ι) (ls : List (String × Formula)) : List Link :=
  ls.map fun l => ⟨l.1, g.precedence l.1, l.2⟩

theorem linked_of_higher {ls : List (String × Formula)}
    (higher : ∀ l ∈ ls, isLeast (g.precedence l.1) = false) (held : Bool) :
    Linked g held (linksOf g ls) := by
  induction ls generalizing held with
  | nil => trivial
  | cons l ls ih =>
    rw [forall_mem_cons] at higher
    exact ⟨⟨known_of_higher higher.1, by simp only [higher.1, Bool.false_and]⟩, ih higher.2 _⟩

/-- Links carry the precedences of the grammar. -/
theorem Linked.eq_linksOf {held : Bool} {links : List Link} (linked : Linked g held links) :
    links = linksOf g (links.map fun l => (l.op, l.operand)) := by
  induction links generalizing held with
  | nil => rfl
  | cons l links ih =>
    rw [linksOf, map_cons, map_cons, precedence_of_known linked.1.1]
    exact congrArg _ (ih linked.2)

/-- Without an operator that has no place in the order none of the least
precedence goes on a chain. -/
theorem Linked.higher {links : List Link} (linked : Linked g false links)
    (numbers : ∀ op, (g.precedence op).isNaN = false) :
    ∀ l ∈ links, isLeast (g.precedence l.op) = false := by
  induction links with
  | nil => simp
  | cons l links ih =>
    obtain ⟨⟨known, free⟩, others⟩ := linked
    have same := precedence_of_known known
    rw [← same, numbers l.op] at others
    rw [forall_mem_cons, same]
    exact ⟨by simpa using free, ih others⟩

/-- A chain without an operator of the least precedence is taken as a whole. -/
theorem climbs_of_higher {ls : List (String × Formula)}
    (higher : ∀ l ∈ ls, isLeast (g.precedence l.1) = false) (e : Formula) :
    Climbs g e ls (climb e [] (linksOf g ls)) :=
  ⟨linksOf g ls, (map_map ..).trans (map_id ls), linked_of_higher higher false, rfl⟩

/-- Where precedences are numbers, chains with higher operators are climbed and no others. -/
theorem climbs_iff {e f : Formula} {ls : List (String × Formula)}
    (numbers : ∀ op, (g.precedence op).isNaN = false) :
    Climbs g e ls f ↔ (∀ l ∈ ls, isLeast (g.precedence l.1) = false) ∧
      climb e [] (linksOf g ls) = f := by
  constructor
  · rintro ⟨links, rfl, linked, rfl⟩
    exact ⟨forall_mem_map.mpr (linked.higher numbers), by rw [← linked.eq_linksOf]⟩
  · rintro ⟨higher, rfl⟩
    exact climbs_of_higher higher e

/-- A chain of known operators in its balanced shape. -/
def JoinsBalanced {ι : Type} (g : Grammar ι) (e : Formula) (ls : List (String × Formula))
    (f : Formula) : Prop :=
  (∀ l ∈ ls, (g.lookup? l.1 .binaryOp).isSome = true) ∧ Balanced g.precedence e ls f

section

variable (above : ∀ op element, g.lookup? op .binaryOp = some element →
  (Double.infinity true).less element.precedence = true)

include above

theorem infinity_less_precedence {op : String}
    (known : (g.lookup? op .binaryOp).isSome = true) :
    (Double.infinity true).less (g.precedence op) = true := by
  obtain ⟨element, found⟩ := Option.isSome_iff_exists.mp known
  rw [Grammar.precedence, found]
  exact above op element found

/-- So precedences are numbers. -/
theorem precedence_isNumber (op : String) : (g.precedence op).isNaN = false := by
  cases known : (g.lookup? op .binaryOp).isSome with
  | false =>
    rw [Option.isSome_eq_false_iff, Option.isNone_iff_eq_none] at known
    rw [Grammar.precedence, known]
    exact (by decide : (Double.infinity true).isNaN = false)
  | true =>
    have less := infinity_less_precedence above known
    simp only [Double.less, Bool.and_eq_true, Bool.not_eq_true'] at less
    exact less.1.2

/-- An operator is known exactly if it is not of the least precedence. -/
theorem known_iff_higher {op : String} :
    (g.lookup? op .binaryOp).isSome = true ↔ isLeast (g.precedence op) = false := by
  refine ⟨fun known => Double.atMost_eq_false_of_less (infinity_less_precedence above known), ?_⟩
  intro higher
  have known := known_of_higher higher
  rw [← Option.isSome_map, known]
  rfl

/-- Climbing is balancing, if every precedence of the grammar is above the least. -/
theorem climbs_iff_balanced {e f : Formula} {ls : List (String × Formula)} :
    Climbs g e ls f ↔ JoinsBalanced g e ls f := by
  rw [climbs_iff (precedence_isNumber above), JoinsBalanced]
  simp only [known_iff_higher above]
  exact and_congr_right fun _ =>
    (balanced_iff_climb fun l _ => precedence_isNumber above l.1).symm

end

end Formula

end JexlScript
