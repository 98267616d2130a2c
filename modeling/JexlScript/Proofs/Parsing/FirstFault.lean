import JexlScript.Proofs.Parsing.Acceptance

/-!
# Faults are told at the first impossible token

`ofTokens_fault_first`: the tokens before a fault can be completed to a list that is
read, and with the token of the fault they cannot. A fault at the end leaves a list
that can be completed and is not complete. The exception is a dot for an operand
outside of all filters, which is itself the first impossible token: it is taken, and
the fault is told at the token after it, unless that is a name.
-/

namespace JexlScript

open List

/-- Where a fault is told, if not at the end. -/
def ParseFault.position? (fault : ParseFault) : Option Nat := fault.found.map Token.position

namespace Formula

open Parse

variable {ι : Type} {g : Grammar ι} {tokens : List Token} {fault : ParseFault}

/-- Whether tokens can be completed to a list that is read, by a choice of names,
colons and closing symbols. -/
def Completable (g : Grammar ι) (name : String) (tokens : List Token) : Prop :=
  Fillable name fun rest => ∃ f, ofTokens g (tokens ++ rest) = .ok f

/-- Whether tokens end in a dot for an operand outside of all filters, and no name
comes after it. -/
def EndsStray (before rest : List Token) : Prop :=
  ∃ init d, before = init ++ [d] ∧ d.Is .dot ∧ (Place.start.after init).due = true ∧
    (Place.start.after init).inFilter = false ∧ ∀ t ∈ rest.head?, ∀ n, t.lexeme ≠ .identifier n

/-! ## Before the fault -/

/-- How an expression at the start of a text ends, whatever follows the tokens that it looks at. -/
theorem expression_outcome (g : Grammar ι) (name : String) (us x y : List Token) :
    Outcome True name Place.start ⟨false, []⟩
      (fun ts m f => Derives ⟨Climbs g, false⟩ (.expression f) false ts m) us x y false
      (expression g primary (us ++ y).length false ⟨us ++ y, false⟩)
      (expression g primary (us ++ x).length false ⟨us ++ x, false⟩) :=
  (expression_follows (r := ⟨Climbs g, false⟩) True name primary_takesPrimaries (fun _ => rfl)
    (fun _ links linked => ⟨links, rfl, linked, rfl⟩) _ _ []).runs us x y false
      (Nat.le_refl _) (Nat.le_refl _)

/-- What is completable can be completed to a list that is read. -/
theorem Completable.exists_ok {name : String} (completable : Completable g name tokens) :
    ∃ rest f, ofTokens g (tokens ++ rest) = .ok f := by
  obtain ⟨lexemes, _, all⟩ := completable
  have spelled : (lexemes.map fun l => (⟨l, "", 0⟩ : Token)).map Token.lexeme = lexemes := by
    rw [map_map]
    exact map_id lexemes
  exact ⟨_, all _ spelled⟩

/-- What can be filled to an expression is completable. -/
theorem completable_of_fillable {name : String} {us : List Token} {s : Place}
    (fills : Fillable name fun ys => Place.start.after (us ++ ys) = s ∧
      ∃ m f, Derives ⟨Climbs g, false⟩ (.expression f) false (us ++ ys) m) :
    Completable g name us := by
  refine fills.mono ?_
  rintro ys ⟨_, m, f, derived⟩
  exact ⟨f, (ofTokensWith_eq_ok_iff primary_takesPrimaries).mpr ⟨m, derived⟩⟩

/-- The tokens before a fault are completable, unless they end in a dot that strays. -/
theorem completable_or_endsStray (name : String) (refused : ofTokens g tokens = .error fault) :
    ∃ before rest, tokens = before ++ rest ∧ fault.found = rest.head? ∧
      (Completable g name before ∨ EndsStray before rest) := by
  have outcome := expression_outcome g name tokens [] []
  rw [append_nil] at outcome
  unfold ofTokens ofTokensWith at refused
  split at refused
  · next empty =>
      cases refused
      obtain rfl := List.isEmpty_iff.mp empty
      -- a name is an expression
      obtain ⟨_, _, same, _, mended, _⟩ := outcome trivial
      obtain ⟨rfl, rfl⟩ := append_eq_nil_iff.mp same.symm
      exact ⟨[], [], rfl, rfl, mended.imp_left completable_of_fillable⟩
  split at refused
  · next failed =>
      cases refused
      rw [failed] at outcome
      obtain ⟨ts, z, same, found, mended, _⟩ := outcome trivial
      exact ⟨ts, z, by simpa using same, found, mended.imp_left completable_of_fillable⟩
  · next e c ran =>
      split at refused
      · cases refused
      · next t rest left =>
          -- an expression, and more than that
          cases refused
          rw [ran] at outcome
          obtain ⟨ts, m, same, _, _, derived, _⟩ := outcome
          refine ⟨ts, t :: rest, by simpa [left] using same, rfl, .inl ⟨[], by simp, ?_⟩⟩
          intro ys spelled
          rw [map_eq_nil_iff.mp spelled, append_nil]
          exact ⟨e, (ofTokensWith_eq_ok_iff primary_takesPrimaries).mpr ⟨m, derived⟩⟩

/-- Behind a stray dot nothing is read. -/
theorem not_ok_of_endsStray {before rest rest' : List Token} (stray : EndsStray before rest)
    (f : Formula) : ofTokens g (before ++ rest') ≠ .ok f := by
  intro accepted
  obtain ⟨init, d, rfl, dot, due, outside, _⟩ := stray
  obtain ⟨m, derived⟩ := (ofTokensWith_eq_ok_iff primary_takesPrimaries).mp accepted
  have clear : Place.start.Clear (init ++ (d :: rest')) := by
    rw [append_assoc] at derived
    exact (derived.leads rfl).1
  have inFilter := (Place.clear_append.mp clear).2.1 dot due
  rw [outside] at inFilter
  cases inFilter

/-! ## With the token of the fault -/

/-- With the token of a fault nothing is read, whatever follows: the parser has looked at no later
token. -/
theorem not_ok_of_fault {before after : List Token} {t : Token}
    (fresh : t ∉ after) (refused : ofTokens g (before ++ t :: after) = .error fault)
    (found : fault.found = some t) (rest : List Token) (f : Formula) :
    ofTokens g (before ++ t :: rest) ≠ .ok f := by
  -- the two runs go side by side up to the token of the fault
  have ends : before ++ t :: after = (before ++ [t]) ++ after := by simp
  have ends' : before ++ t :: rest = (before ++ [t]) ++ rest := by simp
  rw [ends] at refused
  rw [ends']
  have outcome := expression_outcome g "" (before ++ [t]) after rest
  unfold ofTokens ofTokensWith at refused ⊢
  rw [if_neg (by simp)] at refused ⊢
  intro accepted
  split at refused
  · next failed =>
      cases refused
      rw [failed] at outcome
      obtain ⟨_, z, _, told, _, suffix | ⟨_, failed'⟩⟩ := outcome trivial
      · -- what the fault tells stands behind its token
        exact fresh (suffix.subset (mem_of_mem_head? (told ▸ found)))
      · rw [failed'] at accepted
        cases accepted
  · next e c ran =>
      split at refused
      · cases refused
      · next u us left =>
          cases refused
          cases found
          rw [ran] at outcome
          obtain ⟨_, _, _, _, _, _, step⟩ := outcome
          rcases step trivial with suffix | ⟨vs, _, same, passed⟩
          · exact fresh (suffix.subset (by rw [left]; exact mem_cons_self))
          · -- the token of the fault is left
            rw [passed] at accepted
            cases vs with
            | nil =>
              rw [left] at same
              exact fresh (by rw [← nil_append after, ← same]; exact mem_cons_self)
            | cons v vs => cases accepted

/-! ## The fault -/

/-- Where a list of tokens is refused, the fault is told at the first token that is
impossible, or at the end if there is none: what comes before can be completed, unless
it ends in a stray dot, and with the token of the fault it cannot. -/
theorem ofTokens_fault_first (g : Grammar ι) (name : String) (tokens : List Token)
    (fault : ParseFault) (distinct : (tokens.map Token.position).Nodup)
    (refused : ofTokens g tokens = .error fault) :
    (∀ t ∈ fault.found, t ∈ tokens) ∧
      (∀ before t after, tokens = before ++ t :: after → fault.position? = some t.position →
        (Completable g name before ↔ ¬ EndsStray before (t :: after)) ∧
          ∀ rest f, ofTokens g (before ++ t :: rest) ≠ .ok f) ∧
      (fault.position? = none →
        (Completable g name tokens ↔ ¬ EndsStray tokens []) ∧ ∀ f, ofTokens g tokens ≠ .ok f) := by
  obtain ⟨us, x, split, told, ends⟩ := completable_or_endsStray name refused
  have sharp {before rest : List Token} (ends : Completable g name before ∨ EndsStray before rest) :
      Completable g name before ↔ ¬ EndsStray before rest := by
    refine ⟨fun completable stray => ?_, fun clear => ends.resolve_right clear⟩
    obtain ⟨rest', f, accepted⟩ := completable.exists_ok
    exact not_ok_of_endsStray stray f accepted
  have among : ∀ t ∈ fault.found, t ∈ tokens := by
    intro t found
    rw [told] at found
    rw [split]
    exact List.mem_append_right us (List.mem_of_mem_head? found)
  refine ⟨among, ?_, ?_⟩
  · intro before t after same place
    obtain ⟨u, found, here⟩ := Option.map_eq_some_iff.mp place
    -- the token of the fault is the one at its position, and there is no other
    obtain rfl : u = t := List.inj_on_of_nodup_map distinct (among u found) (by simp [same]) here
    have unique : u ∉ before ∧ u ∉ after := by
      have nodup : (before ++ u :: after).Nodup := same ▸ distinct.of_map _
      rw [List.nodup_append, List.nodup_cons] at nodup
      exact ⟨fun member => nodup.2.2 u member u List.mem_cons_self rfl, nodup.2.1.1⟩
    rw [same] at refused
    refine ⟨?_, not_ok_of_fault unique.2 refused found⟩
    obtain ⟨y, rfl⟩ := List.head?_eq_some_iff.mp (told.symm.trans found)
    rw [same] at split
    obtain ⟨rfl, _, rfl⟩ := (List.append_cons_inj_of_notMem unique.1 unique.2).mp split
    exact sharp ends
  · intro place
    rw [ParseFault.position?, Option.map_eq_none_iff, told, List.head?_eq_none_iff] at place
    subst place
    rw [List.append_nil] at split
    subst split
    refine ⟨sharp ends, fun f accepted => ?_⟩
    rw [refused] at accepted
    cases accepted

/-- A comma in a parenthesis is impossible, and what comes before it can be completed,
in the filter that is open there. -/
theorem ofTokens_fault_first_comma :
    ∃ fault before comma after, stockTokens "xs[.a ? (b, c" = before ++ comma :: after ∧
      ((stockTokens "xs[.a ? (b, c").map Token.position).Nodup ∧
      ofTokens Grammar.stock (stockTokens "xs[.a ? (b, c") = .error fault ∧
      comma.raw = "," ∧ fault.position? = some comma.position ∧
      Completable Grammar.stock "x" before ∧
      ∀ rest f, ofTokens Grammar.stock (before ++ comma :: rest) ≠ .ok f := by
  have distinct : ((stockTokens "xs[.a ? (b, c").map Token.position).Nodup := by decide +kernel
  have told : (match ofTokens Grammar.stock (stockTokens "xs[.a ? (b, c") with
      | .error fault => fault.position?
      | .ok _ => none) = some 10 := by decide +kernel
  have split : stockTokens "xs[.a ? (b, c" = (stockTokens "xs[.a ? (b, c").take 7 ++
      ⟨.symbol .comma ",", ",", 10⟩ :: (stockTokens "xs[.a ? (b, c").drop 8 := by decide +kernel
  have last : ((stockTokens "xs[.a ? (b, c").take 7).getLast?.map Token.lexeme =
      some (.identifier "b") := by decide +kernel
  generalize stockTokens "xs[.a ? (b, c" = tokens at *
  cases refused : ofTokens Grammar.stock tokens with
  | ok f =>
    rw [refused] at told
    cases told
  | error fault =>
    rw [refused] at told
    obtain ⟨completable, impossible⟩ :=
      (ofTokens_fault_first Grammar.stock "x" tokens fault distinct refused).2.1 _ _ _ split told
    refine ⟨fault, _, _, _, split, distinct, rfl, rfl, told, completable.mpr ?_, impossible⟩
    -- the last token before the comma is a name
    rintro ⟨init, d, same, ⟨text, dot⟩, _⟩
    rw [same] at last
    simp [dot] at last

end Formula

end JexlScript
