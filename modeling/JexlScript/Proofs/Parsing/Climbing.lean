import JexlScript.Formula.Parser

/-!
# Climbing

`Formula.joined` reads a chain of binary operators by calls inside calls, each
with a bound that its operators have to exceed. Laid flat, a chain is a list of
links that is given its shape afterwards: `climb` keeps the operators that wait
for their right operands on a stack, innermost first, and completes those that
bind at least as tightly as the next operator. `chain_eq` says that the two
agree: an operator that a call leaves unread is taken by one of the calls around
it. That an operator is left by all of them happens only at the least precedence,
and not even there where an operator that has no place in the order waits
(`links`).
-/

namespace JexlScript

open List

/-! ## Runs of readers -/

namespace Parse

variable {α β : Type}

/-- A sequence of steps succeeds if each of them does. -/
theorem bind_eq_ok {p : Parse α} {k : α → Parse β} {c c'' : Cursor} {b : β} :
    (p >>= k) c = .ok (b, c'') ↔ ∃ a c', p c = .ok (a, c') ∧ k a c' = .ok (b, c'') := by
  simp only [Bind.bind, StateT.bind]
  cases ran : p c with
  | error fault => simp [Except.bind]
  | ok outcome =>
    obtain ⟨a, c'⟩ := outcome
    refine ⟨fun next => ⟨a, c', rfl, next⟩, ?_⟩
    rintro ⟨_, _, same, next⟩
    cases same
    exact next

theorem bind_of_ok {p : Parse α} {k : α → Parse β} {c c' : Cursor} {a : α}
    (ran : p c = .ok (a, c')) : (p >>= k) c = k a c' := by
  simp only [Bind.bind, StateT.bind, ran, Except.bind]

/-- Two readers that start alike run alike, if they do from where the first part
ends. -/
theorem bind_congr {p : Parse α} {k k' : α → Parse β} {c : Cursor}
    (next : ∀ a c', p c = .ok (a, c') → k a c' = k' a c') : (p >>= k) c = (p >>= k') c := by
  simp only [Bind.bind, StateT.bind]
  cases ran : p c with
  | error fault => rfl
  | ok outcome => exact next _ _ ran

theorem bind_congr_left {p p' : Parse α} {c : Cursor} (same : p c = p' c) (k : α → Parse β) :
    (p >>= k) c = (p' >>= k) c := by
  simp only [Bind.bind, StateT.bind, same]

/-- A reader that does not add tokens to those it finds. -/
def Shortens (p : Parse α) : Prop :=
  ∀ c a c', p c = .ok (a, c') → c'.rest.length ≤ c.rest.length

namespace Shortens

theorem pure (a : α) : Shortens (Pure.pure a : Parse α) := by
  rintro c _ _ ⟨⟩
  exact Nat.le_refl _

theorem fail (cause : SyntaxCause) : Shortens (Parse.fail cause : Parse α) := by
  rintro c _ _ ⟨⟩

theorem bind {p : Parse α} {k : α → Parse β} (first : Shortens p) (next : ∀ a, Shortens (k a)) :
    Shortens (p >>= k) := by
  intro c b c'' ran
  obtain ⟨a, c', ran, ran'⟩ := bind_eq_ok.mp ran
  exact Nat.le_trans (next a c' b c'' ran') (first c a c' ran)

theorem ite {p q : Parse α} (b : Bool) (yes : Shortens p) (no : Shortens q) :
    Shortens (if b then p else q) := by
  cases b with
  | true => exact yes
  | false => exact no

theorem get : Shortens (get : Parse Cursor) := by
  rintro c _ _ ⟨⟩
  exact Nat.le_refl _

theorem advance : Shortens Parse.advance := by
  rintro c _ _ ⟨⟩
  simp

theorem atSymbol (kind : SymbolKind) : Shortens (Parse.atSymbol kind) := by
  intro c a c' ran
  unfold Parse.atSymbol at ran
  split at ran <;> cases ran <;> exact Nat.le_refl _

theorem expectSymbol (kind : SymbolKind) (what : Expected) :
    Shortens (Parse.expectSymbol kind what) :=
  (atSymbol kind).bind fun b => ite b advance (fail _)

theorem expectName (what : Expected) : Shortens (Parse.expectName what) := by
  intro c a c' ran
  unfold Parse.expectName at ran
  split at ran
  · next tokens =>
      cases ran
      simp [tokens]
  · cases ran

/-- Items between commas leave fewer tokens, whatever the bound on their number. -/
theorem commaSeparated {item : Parse α} (each : Shortens item) (fuel : Nat) :
    Shortens (Parse.commaSeparated item fuel) := by
  induction fuel with
  | zero => exact pure []
  | succ fuel ih =>
    refine each.bind fun a => (atSymbol _).bind fun comma => ite comma ?_ (pure _)
    exact advance.bind fun _ => ih.bind fun as => pure _

theorem items {item : Parse α} (each : Shortens item) (close : SymbolKind) (what : Expected) :
    Shortens (Parse.items item close what) := by
  have closed (as : List α) : Shortens (do Parse.expectSymbol close what; Pure.pure as) :=
    (expectSymbol close what).bind fun _ => pure as
  refine (atSymbol close).bind fun b => ?_
  exact ite b (closed []) (get.bind fun c => (each.commaSeparated _).bind closed)

end Shortens

end Parse

namespace Formula

open Parse

/-! ## Chains laid flat -/

/-- An operator of a chain with the operand after it. -/
structure Link where
  op : String
  precedence : Double
  operand : Formula

/-- A binary operator that waits for its right operand. -/
structure Pending where
  left : Formula
  op : String
  precedence : Double

/-- Completes the waiting operators that bind at least as tightly as the given
precedence, innermost first. -/
def complete (precedence : Double) : Formula → List Pending → Formula × List Pending
  | operand, [] => (operand, [])
  | operand, p :: ps =>
    if precedence.atMost p.precedence then complete precedence (.binary p.op p.left operand) ps
    else (operand, p :: ps)

/-- Completes all operators that wait, innermost first. -/
def completeAll : Formula → List Pending → Formula
  | operand, [] => operand
  | operand, p :: ps => completeAll (.binary p.op p.left operand) ps

/-- Gives a chain its shape: operators of higher precedence bind first, those
of one precedence from the left. -/
def climb : (operand : Formula) → List Pending → List Link → Formula
  | operand, waiting, [] => completeAll operand waiting
  | operand, waiting, link :: links =>
    let (left, waiting) := complete link.precedence operand waiting
    climb link.operand (⟨left, link.op, link.precedence⟩ :: waiting) links

/-- Whether a precedence is the least of all. -/
def isLeast (precedence : Double) : Bool := precedence.atMost (Double.infinity true)

section

variable {ι : Type} (g : Grammar ι) (operand : Parse Formula)

/-- The operators and operands of a chain after its first operand; `fuel` bounds
their number. An operator of the least precedence ends the chain, unless `held`:
an operator before it has no place in the order, so that it waits to the end. -/
def links : (fuel : Nat) → (held : Bool) → Parse (List Link)
  | 0, _ => pure []
  | fuel + 1, held => do
    match ← binaryOp? g with
    | none => pure []
    | some (op, precedence) =>
      if isLeast precedence && !held then pure []
      else
        advance
        let e ← operand
        let others ← links fuel (held || precedence.isNaN)
        pure (⟨op, precedence, e⟩ :: others)

/-- The calls that are open in the middle of a chain, innermost first, each with
the operator that it reads the right operand of. -/
def resumed (fuel : Nat) : Formula → List Pending → Parse Formula
  | e, [] => joined g operand fuel (Double.infinity true) e
  | e, p :: ps => do
    let right ← joined g operand fuel p.precedence e
    resumed fuel (.binary p.op p.left right) ps

end

/-! ## Operators that wait -/

/-- Whether an operator waits that has no place in the order. -/
def isHeld (waiting : List Pending) : Bool := waiting.any fun p => p.precedence.isNaN

theorem isHeld_cons (p : Pending) (ps : List Pending) :
    isHeld (p :: ps) = (p.precedence.isNaN || isHeld ps) := rfl

section

variable {ι : Type} {g : Grammar ι} {operand : Parse Formula} {c : Cursor} {precedence : Double}

/-- What has no place in the order is at most nothing. -/
theorem isNaN_of_atMost {a b : Double} (atMost : a.atMost b = true) :
    a.isNaN = false ∧ b.isNaN = false := by
  simp only [Double.atMost, Bool.and_eq_true, Bool.not_eq_true'] at atMost
  exact atMost.1

/-- The least precedence is at most every other that has a place in the order. -/
theorem atMost_of_isLeast {b : Double} (least : isLeast precedence = true)
    (number : b.isNaN = false) : precedence.atMost b = true := by
  have infinite : (Double.infinity true).rank = -(Double.infiniteMagnitude : Int) := by decide
  simp only [isLeast, Double.atMost, infinite, Bool.and_eq_true, Bool.not_eq_true',
    decide_eq_true_eq] at least
  have bounded : b.magnitude ≤ Double.infiniteMagnitude := by
    simpa [Double.isNaN] using number
  have low : -(Double.infiniteMagnitude : Int) ≤ b.rank := by
    unfold Double.rank
    split <;> omega
  simp only [Double.atMost, least.1.1, number, Bool.not_false, Bool.true_and, decide_eq_true_eq]
  omega

/-- Completing operators leaves those that have no place in the order. -/
theorem isHeld_complete (precedence : Double) (e : Formula) (waiting : List Pending) :
    isHeld (complete precedence e waiting).2 = isHeld waiting := by
  induction waiting generalizing e with
  | nil => rfl
  | cons p ps ih =>
    rw [complete]
    split
    · next completes =>
        rw [ih, isHeld_cons, (isNaN_of_atMost completes).2, Bool.false_or]
    · rfl

/-- Before an operator of the least precedence everything is completed, unless one is held. -/
theorem complete_of_isLeast {waiting : List Pending} (least : isLeast precedence = true)
    (free : isHeld waiting = false) (e : Formula) :
    complete precedence e waiting = (completeAll e waiting, []) := by
  induction waiting generalizing e with
  | nil => rfl
  | cons p ps ih =>
    rw [isHeld_cons, Bool.or_eq_false_iff] at free
    rw [complete, if_pos (atMost_of_isLeast least free.1), ih free.2, completeAll]

/-- The innermost operator that is left waiting binds less tightly. -/
theorem complete_stops {e : Formula} {waiting ps : List Pending} {p : Pending}
    (left : (complete precedence e waiting).2 = p :: ps) :
    precedence.atMost p.precedence = false := by
  induction waiting generalizing e with
  | nil => cases left
  | cons q qs ih =>
    rw [complete] at left
    split at left
    · exact ih left
    · next stays =>
        cases left
        simpa using stays

/-- An operator that does not end the chain exceeds the bound of the innermost call that is open
after what it completes: that of the operator waiting there, or the least precedence. -/
theorem complete_innermost {e : Formula} {waiting : List Pending}
    (takes : (isLeast precedence && !isHeld waiting) = false) :
    ∀ bound ∈ ((complete precedence e waiting).2.map (·.precedence) ++
      [Double.infinity true]).head?, precedence.atMost bound = false := by
  intro bound innermost
  have held := isHeld_complete precedence e waiting
  cases left : (complete precedence e waiting).2 with
  | nil =>
    rw [left] at innermost held
    cases innermost
    rw [← held] at takes
    simpa [isHeld, isLeast] using takes
  | cons p ps =>
    rw [left] at innermost
    cases innermost
    exact complete_stops left

/-! ## Calls and the stack -/

/-- Next is a known binary operator, or the chain ends. -/
theorem binaryOp?_cases (g : Grammar ι) (c : Cursor) :
    binaryOp? g c = .ok (none, c) ∨ ∃ op precedence o us, c.rest = o :: us ∧
      o.lexeme = .symbol .binaryOp op ∧
        ((g.lookup? op .binaryOp).map (·.precedence)) = some precedence ∧
          binaryOp? g c = .ok (some (op, precedence), c) := by
  unfold binaryOp?
  split
  · next op raw position us tokens =>
      cases known : g.lookup? op .binaryOp with
      | none => exact .inl rfl
      | some element =>
        exact .inr ⟨op, element.precedence, _, us, tokens, rfl, by rw [known]; rfl, rfl⟩
  · exact .inl rfl

theorem links_none (ends : binaryOp? g c = .ok (none, c)) (fuel : Nat) (held : Bool) :
    links g operand fuel held c = .ok ([], c) := by
  cases fuel with
  | zero => rfl
  | succ fuel => exact bind_of_ok ends

theorem joined_none (ends : binaryOp? g c = .ok (none, c)) (fuel : Nat) (bound : Double)
    (e : Formula) : joined g operand fuel bound e c = .ok (e, c) := by
  cases fuel with
  | zero => rfl
  | succ fuel => exact bind_of_ok ends

theorem resumed_none (ends : binaryOp? g c = .ok (none, c)) (fuel : Nat) (e : Formula)
    (waiting : List Pending) :
    resumed g operand fuel e waiting c = .ok (completeAll e waiting, c) := by
  induction waiting generalizing e with
  | nil => exact joined_none ends fuel _ e
  | cons p ps ih =>
    rw [resumed, bind_of_ok (joined_none ends fuel _ e), completeAll]
    exact ih _

variable {op : String} (next : binaryOp? g c = .ok (some (op, precedence), c))

include next

/-- A chain stops before an operator of the least precedence, unless one is held. -/
theorem links_stop {held : Bool} (stops : (isLeast precedence && !held) = true) (fuel : Nat) :
    links g operand (fuel + 1) held c = .ok ([], c) := by
  rw [links, bind_of_ok next]
  simp only [stops, if_true]
  rfl

/-- Any other operator is taken with its operand. -/
theorem links_take {held : Bool} (takes : (isLeast precedence && !held) = false) (fuel : Nat) :
    links g operand (fuel + 1) held c = (do
      advance
      let e ← operand
      let others ← links g operand fuel (held || precedence.isNaN)
      pure (⟨op, precedence, e⟩ :: others) : Parse (List Link)) c := by
  rw [links, bind_of_ok next]
  simp only [takes, Bool.false_eq_true, if_false]

/-- A call leaves an operator that does not exceed its bound. -/
theorem joined_below {bound : Double} (below : precedence.atMost bound = true) (fuel : Nat)
    (e : Formula) : joined g operand fuel bound e c = .ok (e, c) := by
  cases fuel with
  | zero => rfl
  | succ fuel =>
    rw [joined, bind_of_ok next]
    simp only [below, if_true]
    rfl

/-- A call takes an operator that exceeds its bound, and with it all that bind more tightly. -/
theorem joined_above {bound : Double} (above : precedence.atMost bound = false) (fuel : Nat)
    (e : Formula) :
    joined g operand (fuel + 1) bound e c = (do
      advance
      let first ← operand
      let right ← joined g operand fuel precedence first
      joined g operand fuel bound (.binary op e right)) c := by
  rw [joined, bind_of_ok next]
  simp only [above, Bool.false_eq_true, if_false]

/-- The calls whose bound is not exceeded return, those of the operators that are
completed. -/
theorem resumed_complete (fuel : Nat) (e : Formula) (waiting : List Pending) :
    resumed g operand fuel e waiting c =
      resumed g operand fuel (complete precedence e waiting).1
        (complete precedence e waiting).2 c := by
  induction waiting generalizing e with
  | nil => rfl
  | cons p ps ih =>
    rw [complete]
    split
    · next completes =>
        rw [resumed, bind_of_ok (joined_below next completes fuel e)]
        exact ih _
    · rfl

end

section

variable {ι : Type} {g : Grammar ι} {operand : Parse Formula} (shortens : Shortens operand)

include shortens

/-- Reading a chain leaves no more tokens than there were. -/
theorem joined_shortens (fuel : Nat) (bound : Double) (e : Formula) :
    Shortens (joined g operand fuel bound e) := by
  induction fuel generalizing bound e with
  | zero => exact .pure e
  | succ fuel ih =>
    intro c f c' ran
    rcases binaryOp?_cases g c with ends | ⟨op, precedence, _, _, _, _, _, next⟩
    · rw [joined_none ends] at ran
      exact Shortens.pure e c f c' ran
    cases comparison : precedence.atMost bound with
    | true =>
      rw [joined_below next comparison] at ran
      exact Shortens.pure e c f c' ran
    | false =>
      rw [joined_above next comparison] at ran
      refine Shortens.bind .advance (fun _ => ?_) c f c' ran
      exact shortens.bind fun first => (ih _ _).bind fun right => ih _ _

/-- An operator that exceeds the bound of the innermost call is taken by it, and
another call is opened for its right operand. The calls around it go on with any
fuel that is enough after that. -/
theorem resumed_take {c : Cursor} {o : Token} {us : List Token} {op : String} {precedence : Double}
    (tokens : c.rest = o :: us) (next : binaryOp? g c = .ok (some (op, precedence), c))
    {waiting : List Pending}
    (above : ∀ bound ∈ (waiting.map (·.precedence) ++ [Double.infinity true]).head?,
      precedence.atMost bound = false) {fuel : Nat} (e : Formula)
    (again : ∀ (e : Formula) (waiting : List Pending) (c' : Cursor), c'.rest.length ≤ us.length →
      resumed g operand (fuel + 1) e waiting c' = resumed g operand fuel e waiting c') :
    resumed g operand (fuel + 1) e waiting c = (do
      advance
      let first ← operand
      resumed g operand fuel first (⟨e, op, precedence⟩ :: waiting)) c := by
  cases waiting with
  | nil => exact joined_above next (above _ rfl) fuel e
  | cons q qs =>
    rw [resumed, bind_congr_left (joined_above next (above _ rfl) fuel e)]
    simp only [bind_assoc, resumed]
    refine bind_congr fun _ c₁ advanced => bind_congr fun first c₂ ran => ?_
    refine bind_congr fun right c₃ ran' => bind_congr fun right' c₄ ran'' => again _ _ c₄ ?_
    cases advanced
    have short : c₂.rest.length ≤ us.length := by simpa [tokens] using shortens _ _ _ ran
    have short' := joined_shortens shortens _ _ _ _ _ _ ran'
    have short'' := joined_shortens shortens _ _ _ _ _ _ ran''
    omega

/-- What the open calls make of the rest of a chain is what the stack makes of
its links, given enough fuel. -/
theorem resumed_eq {n : Nat} {c : Cursor} (small : c.rest.length ≤ n) {fuel fuel' : Nat}
    (enough : c.rest.length ≤ fuel) (enough' : c.rest.length ≤ fuel') (e : Formula)
    (waiting : List Pending) :
    resumed g operand fuel e waiting c =
      (links g operand fuel' (isHeld waiting) >>= fun ls => pure (climb e waiting ls)) c := by
  -- by induction on the number of tokens; one operator is taken in each step
  induction n generalizing c fuel fuel' e waiting with
  | zero =>
    have ends : binaryOp? g c = .ok (none, c) := by
      have : c.rest = [] := List.eq_nil_of_length_eq_zero (by omega)
      rw [binaryOp?, this]
    rw [resumed_none ends, bind_of_ok (links_none ends fuel' _)]
    rfl
  | succ n ih =>
    rcases binaryOp?_cases g c with ends | ⟨op, precedence, o, us, tokens, _, _, next⟩
    · rw [resumed_none ends, bind_of_ok (links_none ends fuel' _)]
      rfl
    have count : c.rest.length = us.length + 1 := by rw [tokens]; rfl
    obtain ⟨fuel, rfl⟩ : ∃ k, fuel = k + 1 := ⟨fuel - 1, by omega⟩
    obtain ⟨fuel', rfl⟩ : ∃ k, fuel' = k + 1 := ⟨fuel' - 1, by omega⟩
    rw [resumed_complete next]
    cases stops : isLeast precedence && !isHeld waiting with
    | true =>
      -- every call returns, and the operator is left where it is
      rw [bind_of_ok (links_stop next stops fuel')]
      rw [Bool.and_eq_true, Bool.not_eq_true'] at stops
      rw [complete_of_isLeast stops.1 stops.2, resumed]
      exact joined_below next stops.1 _ _
    | false =>
      -- the innermost call that is open takes the operator
      rw [resumed_take shortens tokens next (complete_innermost stops) _
        fun e waiting c' short => ?_, bind_congr_left (links_take next stops fuel')]
      · simp only [bind_assoc, pure_bind]
        refine bind_congr fun _ c₁ advanced => bind_congr fun first c₂ ran => ?_
        have short : c₂.rest.length ≤ us.length := by
          cases advanced
          simpa [tokens] using shortens _ _ _ ran
        rw [@ih _ (by omega) _ fuel' (by omega) (by omega), isHeld_cons,
          isHeld_complete, Bool.or_comm precedence.isNaN]
        rfl
      · rw [@ih _ (by omega) _ fuel (by omega) (by omega),
          @ih _ (by omega) _ fuel (by omega) (by omega)]

/-- A chain is read as if its operators and operands were laid out first and then
given their shape. -/
theorem chain_eq : chain g operand = (do
    let first ← operand
    let c ← get
    let others ← links g operand c.rest.length false
    pure (climb first [] others)) := by
  funext c
  refine bind_congr fun first c' _ => ?_
  exact resumed_eq shortens (Nat.le_refl _) (Nat.le_refl _) (Nat.le_refl _) first []

end

end Formula

end JexlScript
