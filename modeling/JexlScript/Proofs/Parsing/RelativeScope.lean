import JexlScript.Proofs.RelativeNames

/-!
# Relative names stand in relative filters

`Formula.exposed` lists the relative names of a formula outside of its relative
filters. A formula that is read from a text exposes none: a relative name is
read inside of a filter only, and it marks the innermost one as relative.
-/

namespace JexlScript.Formula

open List Parse

/-! ## Exposed names -/

mutual

/-- The relative names outside of relative filters. -/
def exposed : Formula → List String
  | .literal _ | .stray _ => []
  | .root n relative => if relative then [n] else []
  | .field parent _ _ => parent.exposed
  | .unary _ e => e.exposed
  | .binary _ l r => l.exposed ++ r.exposed
  | .conditional t c a => t.exposed ++ c.exposed ++ a.exposed
  | .array es => listExposed es
  | .object ps => entryExposed ps
  | .filter s e relative => s.exposed ++ if relative then [] else e.exposed
  | .call _ _ args => listExposed args

def listExposed : List Formula → List String
  | [] => []
  | e :: es => e.exposed ++ listExposed es

def entryExposed : List (String × Formula) → List String
  | [] => []
  | (_, e) :: ps => e.exposed ++ entryExposed ps

end

theorem mem_listExposed {n : String} {es : List Formula} :
    n ∈ listExposed es ↔ ∃ e ∈ es, n ∈ e.exposed := by
  induction es with
  | nil => simp [listExposed]
  | cons e es ih => simp [listExposed, ih]

theorem mem_entryExposed {n : String} {ps : List (String × Formula)} :
    n ∈ entryExposed ps ↔ ∃ p ∈ ps, n ∈ p.2.exposed := by
  induction ps with
  | nil => simp [entryExposed]
  | cons p ps ih => simp [entryExposed, ih]

/-- An exposed name is that of a relative root, since fields are never relative. -/
theorem Built.root_of_exposed {ι : Type} {g : Grammar ι} {f : Formula} (built : f.Built g)
    {n : String} (exposed : n ∈ f.exposed) : .root n true ∈ f.parts := by
  induction built with
  | literal => cases exposed
  | root name relative =>
    cases relative with
    | false => cases exposed
    | true =>
      cases mem_singleton.mp exposed
      exact mem_singleton.mpr rfl
  | field _ _ ih | unary _ _ ih => exact .tail _ (ih exposed)
  | binary _ _ _ left right =>
    refine .tail _ (mem_append.mpr ?_)
    exact (mem_append.mp exposed).imp left right
  | conditional _ _ _ test consequent alternate =>
    simp only [Formula.exposed, mem_append] at exposed
    refine .tail _ (mem_append.mpr ?_)
    rcases exposed with (exposed | exposed) | exposed
    · exact .inl (mem_append_left _ (test exposed))
    · exact .inl (mem_append_right _ (consequent exposed))
    · exact .inr (alternate exposed)
  | array _ ih | call _ _ _ ih =>
    obtain ⟨e, inside, exposed⟩ := mem_listExposed.mp exposed
    exact .tail _ (mem_listParts.mpr ⟨e, inside, ih e inside exposed⟩)
  | object _ ih =>
    obtain ⟨p, inside, exposed⟩ := mem_entryExposed.mp exposed
    exact .tail _ (mem_entryParts.mpr ⟨p, inside, ih p inside exposed⟩)
  | filter relative _ _ subject expr =>
    refine .tail _ (mem_append.mpr ?_)
    refine (mem_append.mp exposed).imp subject fun exposed => ?_
    -- A relative filter exposes nothing of its condition.
    cases relative with
    | false => exact expr exposed
    | true => cases exposed

/-! ## Read formulas -/

/-- An object exposes no more than its entries do. -/
theorem exposed_ofEntries {n : String} {ps : List (String × Formula)}
    (exposed : n ∈ (ofEntries ps).exposed) : n ∈ entryExposed ps := by
  obtain ⟨p, inside, exposed⟩ := mem_entryExposed.mp exposed
  obtain ⟨q, listed, same⟩ := value_of_mem_ofEntries inside
  exact mem_entryExposed.mpr ⟨q, listed, same ▸ exposed⟩

/-- The mark is set if the formula exposes a name. -/
def Marked (m : Bool) (f _ : Formula) : Prop := ∀ n ∈ f.exposed, m = true

theorem marked_of_list {m : Bool} {fs ws : List Formula} (each : Each Marked m fs ws) :
    ∀ n ∈ listExposed fs, m = true := by
  induction each with
  | nil => simp [listExposed]
  | cons first _ ih =>
    refine forall_mem_append.mpr ⟨fun n exposed => ?_, fun n exposed => ?_⟩
    · simp [first n exposed]
    · simp [ih n exposed]

theorem marked_of_entries {m : Bool} {ps qs : List (String × Formula)}
    (each : Each (EntryRelated Marked) m ps qs) : Marked m (ofEntries ps) (ofEntries qs) := by
  suffices entries : ∀ n ∈ entryExposed ps, m = true from
    fun n exposed => entries n (exposed_ofEntries exposed)
  induction each with
  | nil => simp [entryExposed]
  | cons first _ ih =>
    refine forall_mem_append.mpr ⟨fun n exposed => ?_, fun n exposed => ?_⟩
    · simp [first.2 n exposed]
    · simp [ih n exposed]

/-- The parser keeps its mark in step with the exposed names. -/
theorem marked_congruence (P : Token → Prop) : Congruence P Marked where
  literal _ _ := by simp [Marked, exposed]
  root relative _ := by cases relative <;> simp [Marked, exposed]
  field _ marked := marked
  unary _ marked := marked
  binary _ left right := forall_mem_append.mpr
    ⟨fun n exposed => by simp [left n exposed], fun n exposed => by simp [right n exposed]⟩
  conditional test yes no := by
    simp only [Marked, exposed, forall_mem_append]
    refine ⟨⟨fun n exposed => ?_, fun n exposed => ?_⟩, fun n exposed => ?_⟩
    · simp [test n exposed]
    · simp [yes n exposed]
    · simp [no n exposed]
  filter {_ relative _ _ _ _} subject contents := by
    refine forall_mem_append.mpr ⟨subject, fun n exposed => ?_⟩
    -- a filter that is not relative exposes nothing of its own
    cases relative with
    | true => cases exposed
    | false => cases contents n exposed
  array each := marked_of_list each
  call _ _ each := marked_of_list each

/-- A parsed formula exposes nothing: outside of filters the mark stays unset. -/
theorem parse_exposed {ι : Type} {g : Grammar ι} {text : String} {f : Formula}
    (parsed : parse g text = .ok f) : f.exposed = [] := by
  obtain ⟨tokens, _, read⟩ := parse_eq_ok_iff.mp parsed
  have marked := ofTokens_keeps (marked_congruence fun _ => True)
    (fun _ _ _ => marked_of_entries) (fun _ _ => trivial) read
  exact eq_nil_iff_forall_not_mem.mpr fun n exposes => by cases marked n exposes

end JexlScript.Formula
