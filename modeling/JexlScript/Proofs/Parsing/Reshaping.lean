import JexlScript.Proofs.Parsing.Chains

/-!
# Other shapes of a formula

`Formula.reading` lists what a formula holds from left to right: its operands
and operators in order, and around the parts of anything but a binary operator
where they begin and end. So it keeps all of a formula but the shapes of its
chains. `Derives.rereads` gives the tokens of a derivation the shapes of any
grammar that takes their operators, to a formula with the same reading.
-/

namespace JexlScript

open List

/-- Changing values and entering them may be done in either order. -/
theorem Table.map_set {α β : Type} (h : α → β) (t : Table α) (name : String) (value : α) :
    (Table.set t name value).map (Prod.map id h) =
      Table.set (t.map (Prod.map id h)) name (h value) := by
  induction t with
  | nil => rfl
  | cons p t ih =>
    obtain ⟨n, v⟩ := p
    simp only [Table.set, map_cons, Prod.map, id]
    split
    · rfl
    · rw [map_cons, ih]
      rfl

theorem Table.map_setAll {α β : Type} (h : α → β) (t : Table α) (entries : List (String × α)) :
    (Table.setAll t entries).map (Prod.map id h) =
      Table.setAll (t.map (Prod.map id h)) (entries.map (Prod.map id h)) := by
  induction entries generalizing t with
  | nil => rfl
  | cons p entries ih => exact (ih _).trans (by rw [Table.map_set]; rfl)

namespace Formula

/-! ## Readings -/

/-- What a formula says of its parts, unless it is a binary operator. -/
inductive Frame where
  | field (name : String) (relative : Bool)
  /-- A unary operator before its operand. -/
  | unary (op : String)
  /-- Test, consequent and alternate. -/
  | conditional
  | array
  /-- The keys and values of an object. -/
  | object
  /-- A subject and what it is filtered by. -/
  | filter (relative : Bool)
  | call (pool name : String)
deriving DecidableEq, Repr

/-- What is met when a formula is read from left to right. -/
inductive Mark where
  | literal (value : Scalar)
  | name (name : String) (relative : Bool)
  /-- Something that is no expression. -/
  | stray (text : Option String)
  /-- A binary operator between its operands. -/
  | operator (op : String)
  /-- The first part of something begins. -/
  | opens (frame : Frame)
  /-- The key of the entry that begins. -/
  | key (key : String)
  | next
  | closes

/-- Marks between the beginning and the end of a part. -/
def framed (frame : Frame) (marks : List Mark) : List Mark :=
  .opens frame :: (marks ++ [Mark.closes])

mutual

/-- What a formula holds, from left to right. The operands of a binary operator
stand beside it without anything around them. -/
def reading : Formula → List Mark
  | .literal value => [.literal value]
  | .root name relative => [.name name relative]
  | .stray text => [.stray text]
  | .field parent name relative => framed (.field name relative) parent.reading
  | .unary op e => framed (.unary op) e.reading
  | .binary op l r => l.reading ++ .operator op :: r.reading
  | .conditional t c a =>
    framed .conditional (t.reading ++ .next :: (c.reading ++ .next :: a.reading))
  | .array es => framed .array (listReading es)
  | .object ps => framed .object (entryReading ps)
  | .filter s e relative => framed (.filter relative) (s.reading ++ .next :: e.reading)
  | .call pool name args => framed (.call pool name) (listReading args)

/-- The readings of a list, each with a mark behind it. -/
def listReading : List Formula → List Mark
  | [] => []
  | e :: es => e.reading ++ .next :: listReading es

def entryReading : List (String × Formula) → List Mark
  | [] => []
  | (key, e) :: ps => .key key :: (e.reading ++ .next :: entryReading ps)

end

/-- Keys, or operators, with the readings of their formulas. -/
def readings (ps : List (String × Formula)) : List (String × List Mark) :=
  ps.map (Prod.map id reading)

theorem listReading_eq (es : List Formula) :
    listReading es = (es.map reading).flatMap (· ++ [Mark.next]) := by
  induction es with
  | nil => rfl
  | cons e es ih => simp [listReading, ih]

theorem entryReading_eq (ps : List (String × Formula)) :
    entryReading ps = (readings ps).flatMap fun p => Mark.key p.1 :: (p.2 ++ [Mark.next]) := by
  induction ps with
  | nil => rfl
  | cons p ps ih => simp [entryReading, readings, ih]

theorem listReading_congr {es es' : List Formula} (same : es'.map reading = es.map reading) :
    listReading es' = listReading es := by
  rw [listReading_eq, listReading_eq, same]

/-- An object reads as its entries do, also after repeated keys are dropped. -/
theorem reading_ofEntries_congr {ps ps' : List (String × Formula)}
    (same : readings ps' = readings ps) : (ofEntries ps').reading = (ofEntries ps).reading := by
  have kept : readings (Table.setAll [] ps') = readings (Table.setAll [] ps) := by
    unfold readings at *
    rw [Table.map_setAll, Table.map_setAll, same]
  simp only [ofEntries, reading, entryReading_eq, kept]

/-- The reading of a chain is that of its operands and operators in order. -/
theorem InOrder.reading {e f : Formula} {ls : List (String × Formula)} (chain : InOrder e ls f) :
    f.reading = e.reading ++ (readings ls).flatMap fun l => .operator l.1 :: l.2 := by
  induction chain with
  | operand e => simp [readings]
  | binary op _ _ left right => simp [Formula.reading, readings, left, right]

/-- Climbing keeps operands and operators in order. -/
theorem Climbs.inOrder {ι : Type} {g : Grammar ι} {e f : Formula} {ls : List (String × Formula)}
    (climbs : Climbs g e ls f) : InOrder e ls f := by
  obtain ⟨links, rfl, _, rfl⟩ := climbs
  exact climb_inOrder e links

/-! ## The same tokens in another shape -/

section

variable {ι : Type} (g : Grammar ι) (signs : Bool)

/-- What it means for a part to be derived again, in the shapes of another grammar and with the
same reading. -/
def Part.Rereads : Part → (inside : Bool) → List Token → (relative : Bool) → Prop
  | .expression f, inside, ts, m =>
    ∃ f', f'.reading = f.reading ∧ Derives ⟨Climbs g, signs⟩ (.expression f') inside ts m
  | .binary f, inside, ts, m =>
    ∃ f', f'.reading = f.reading ∧ Derives ⟨Climbs g, signs⟩ (.binary f') inside ts m
  | .links ls, inside, ts, m => ∃ ls', readings ls' = readings ls ∧
      (∀ l ∈ ls', isLeast (g.precedence l.1) = false) ∧
        Derives ⟨Climbs g, signs⟩ (.links ls') inside ts m
  | .unary f, inside, ts, m =>
    ∃ f', f'.reading = f.reading ∧ Derives ⟨Climbs g, signs⟩ (.unary f') inside ts m
  | .suffixes s f, inside, ts, m => ∀ s', s'.reading = s.reading →
      ∃ f', f'.reading = f.reading ∧ Derives ⟨Climbs g, signs⟩ (.suffixes s' f') inside ts m
  | .primary f, inside, ts, m =>
    ∃ f', f'.reading = f.reading ∧ Derives ⟨Climbs g, signs⟩ (.primary f') inside ts m
  | .items es, inside, ts, m =>
    ∃ es', es'.map reading = es.map reading ∧
      Derives ⟨Climbs g, signs⟩ (.items es') inside ts m
  | .listed es, inside, ts, m =>
    ∃ es', es'.map reading = es.map reading ∧
      Derives ⟨Climbs g, signs⟩ (.listed es') inside ts m
  | .entries ps, inside, ts, m =>
    ∃ ps', readings ps' = readings ps ∧ Derives ⟨Climbs g, signs⟩ (.entries ps') inside ts m

end

/-- Chains of any shape are derived again in the shape that climbing gives them. -/
theorem Derives.rereads {ι : Type} {g : Grammar ι} {r : Rules} {part : Part} {inside : Bool}
    {ts : List Token} {m : Bool} (derived : Derives r part inside ts m)
    (inOrder : ∀ e ls f, r.joins e ls f → InOrder e ls f)
    (higher : ∀ t ∈ ts, ∀ op, t.lexeme = .symbol .binaryOp op →
      isLeast (g.precedence op) = false) :
    part.Rereads g r.signs inside ts m := by
  induction derived with
  | plain _ ih =>
    obtain ⟨f, same, derived⟩ := ih higher
    exact ⟨f, same, .plain derived⟩
  | conditional _ question _ colon _ test consequent alternate =>
    simp only [forall_mem_append, forall_mem_cons] at higher
    obtain ⟨t, sameTest, tested⟩ := test higher.1
    obtain ⟨y, sameConsequent, consequent⟩ := consequent higher.2.2.1
    obtain ⟨n, sameAlternate, alternate⟩ := alternate higher.2.2.2.2
    exact ⟨_, by simp only [reading, sameTest, sameConsequent, sameAlternate],
      .conditional tested question consequent colon alternate⟩
  | chain _ _ joins operand links =>
    rw [forall_mem_append] at higher
    obtain ⟨e, sameOperand, operand⟩ := operand higher.1
    obtain ⟨ls, sameLinks, higher, links⟩ := links higher.2
    -- The chain is joined anew: how does not matter, as both ways keep its operands in order.
    have climbs := climbs_of_higher higher e
    refine ⟨_, ?_, .chain operand links climbs⟩
    rw [climbs.inOrder.reading, (inOrder _ _ _ joins).reading, sameOperand, sameLinks]
  | noLink => exact ⟨[], rfl, by simp, .noLink⟩
  | @link op _ _ _ _ _ _ _ o is _ _ operand links =>
    simp only [forall_mem_append, forall_mem_cons] at higher
    obtain ⟨e, sameOperand, operand⟩ := operand higher.2.1
    obtain ⟨ls, sameLinks, higher', links⟩ := links higher.2.2
    refine ⟨(op, e) :: ls, ?_, forall_mem_cons.mpr ⟨higher.1 op is, higher'⟩,
      .link is operand links⟩
    simp only [readings, map_cons, Prod.map, sameOperand] at sameLinks ⊢
    rw [sameLinks]
  | prefixed is _ ih =>
    obtain ⟨e, same, derived⟩ := ih (forall_mem_cons.mp higher).2
    exact ⟨_, by simp only [reading, same], .prefixed is derived⟩
  | postfixed _ _ primary suffixes =>
    rw [forall_mem_append] at higher
    obtain ⟨e, same, primary⟩ := primary higher.1
    -- What the suffixes follow is any formula with the same reading.
    obtain ⟨f, same, suffixes⟩ := suffixes higher.2 e same
    exact ⟨f, same, .postfixed primary suffixes⟩
  | noSuffix => exact fun s same => ⟨s, same, .noSuffix⟩
  | @field _ _ name _ _ _ _ _ dot is _ ih =>
    intro s same
    simp only [forall_mem_cons] at higher
    obtain ⟨f, same, others⟩ := ih higher.2.2 (.field s name false) (by simp only [reading, same])
    exact ⟨f, same, .field dot is others⟩
  | @filter _ _ _ _ _ _ m _ _ _ bracket _ close _ ih others =>
    intro s same
    simp only [forall_mem_append, forall_mem_cons] at higher
    obtain ⟨e, sameInner, inner⟩ := ih higher.2.1
    obtain ⟨f, same, others⟩ := others higher.2.2.2 (.filter s e m)
      (by simp only [reading, same, sameInner])
    exact ⟨f, same, .filter bracket inner close others⟩
  | @transform _ _ name _ _ _ _ _ pipe is _ ih =>
    intro s same
    simp only [forall_mem_cons] at higher
    obtain ⟨f, same, others⟩ := ih higher.2.2 (.call transformsPool name [s])
      (by simp only [reading, listReading, same])
    exact ⟨f, same, .transform pipe is others⟩
  | @transformArgs _ _ _ name _ _ _ _ _ _ _ _ _ pipe is paren _ close _ items others =>
    intro s same
    simp only [forall_mem_append, forall_mem_cons] at higher
    obtain ⟨es, sameItems, items⟩ := items higher.2.2.2.1
    obtain ⟨f, same, others⟩ := others higher.2.2.2.2.2 (.call transformsPool name (s :: es))
      (by simp only [reading, listReading, same, listReading_congr sameItems])
    exact ⟨f, same, .transformArgs pipe is paren items close others⟩
  | literal is => exact ⟨_, rfl, .literal is⟩
  | name is => exact ⟨_, rfl, .name is⟩
  | call is paren _ close ih =>
    simp only [forall_mem_append, forall_mem_cons] at higher
    obtain ⟨es, same, items⟩ := ih higher.2.2.1
    exact ⟨_, by simp only [reading, listReading_congr same], .call is paren items close⟩
  | relativeName dot is => exact ⟨_, rfl, .relativeName dot is⟩
  | group paren _ close ih =>
    simp only [forall_mem_append, forall_mem_cons] at higher
    obtain ⟨e, same, inner⟩ := ih higher.2.1
    exact ⟨e, same, .group paren inner close⟩
  | array bracket _ close ih =>
    simp only [forall_mem_append, forall_mem_cons] at higher
    obtain ⟨es, same, items⟩ := ih higher.2.1
    exact ⟨_, by simp only [reading, listReading_congr same], .array bracket items close⟩
  | noEntry curl close => exact ⟨_, rfl, .noEntry curl close⟩
  | object curl _ close ih =>
    simp only [forall_mem_append, forall_mem_cons] at higher
    obtain ⟨ps, same, entries⟩ := ih higher.2.1
    exact ⟨_, reading_ofEntries_congr same, .object curl entries close⟩
  | negative signs minus number => exact ⟨_, rfl, .negative signs minus number⟩
  | noItem => exact ⟨[], rfl, .noItem⟩
  | someItems _ ih =>
    obtain ⟨es, same, listed⟩ := ih higher
    exact ⟨es, same, .someItems listed⟩
  | lastItem _ ih =>
    obtain ⟨e, same, derived⟩ := ih higher
    exact ⟨[e], by simp only [List.map, same], .lastItem derived⟩
  | moreItems _ comma _ ih others =>
    simp only [forall_mem_append, forall_mem_cons] at higher
    obtain ⟨e, sameItem, derived⟩ := ih higher.1
    obtain ⟨es, sameOthers, others⟩ := others higher.2.2
    exact ⟨e :: es, by rw [map_cons, map_cons, sameItem, sameOthers],
      .moreItems derived comma others⟩
  | lastEntry isKey colon _ ih =>
    simp only [forall_mem_cons] at higher
    obtain ⟨e, same, derived⟩ := ih higher.2.2
    exact ⟨[(_, e)], by simp only [readings, List.map, Prod.map, same],
      .lastEntry isKey colon derived⟩
  | moreEntries isKey colon _ comma _ ih others =>
    simp only [forall_mem_append, forall_mem_cons] at higher
    obtain ⟨e, sameValue, derived⟩ := ih higher.2.2.1
    obtain ⟨ps, sameOthers, others⟩ := others higher.2.2.2.2
    refine ⟨(_, e) :: ps, ?_, .moreEntries isKey colon derived comma others⟩
    simp only [readings, map_cons, Prod.map, sameValue] at sameOthers ⊢
    rw [sameOthers]

end Formula

end JexlScript
