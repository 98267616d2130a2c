import JexlScript.Proofs.NameLists
import JexlScript.Proofs.ParsedFormula

/-!
# The relative names of a formula

`Formula.parts` lists a formula with all formulas in it. In a formula that the
parser builds, the scan for relative names succeeds, and the names that it finds
are those of the relative roots among the parts, each once.
-/

namespace JexlScript.Formula

open List

variable {ι : Type} {g : Grammar ι}

/-! ## Parts -/

mutual

/-- A formula and all formulas in it, from the outside in. -/
def parts : Formula → List Formula
  | .literal value => [.literal value]
  | .root name relative => [.root name relative]
  | .field parent name relative => .field parent name relative :: parent.parts
  | .unary op e => .unary op e :: e.parts
  | .binary op l r => .binary op l r :: (l.parts ++ r.parts)
  | .conditional t c a => .conditional t c a :: (t.parts ++ c.parts ++ a.parts)
  | .array es => .array es :: listParts es
  | .object ps => .object ps :: entryParts ps
  | .filter s e relative => .filter s e relative :: (s.parts ++ e.parts)
  | .call pool name args => .call pool name args :: listParts args
  | .stray text => [.stray text]

def listParts : List Formula → List Formula
  | [] => []
  | e :: es => e.parts ++ listParts es

def entryParts : List (String × Formula) → List Formula
  | [] => []
  | (_, e) :: ps => e.parts ++ entryParts ps

end

theorem self_mem_parts (f : Formula) : f ∈ f.parts := by
  cases f <;> simp [parts]

theorem mem_listParts {f : Formula} {es : List Formula} :
    f ∈ listParts es ↔ ∃ e ∈ es, f ∈ e.parts := by
  induction es with
  | nil => simp [listParts]
  | cons e es ih => simp [listParts, ih]

theorem mem_entryParts {f : Formula} {ps : List (String × Formula)} :
    f ∈ entryParts ps ↔ ∃ p ∈ ps, f ∈ p.2.parts := by
  induction ps with
  | nil => simp [entryParts]
  | cons p ps ih => simp [entryParts, ih]

theorem forall_mem_listParts {P : Formula → Prop} {es : List Formula} :
    (∀ f ∈ listParts es, P f) ↔ ∀ e ∈ es, ∀ f ∈ e.parts, P f := by
  simp only [mem_listParts, forall_exists_index, and_imp]
  exact ⟨fun h e inside f => h f e inside, fun h f e inside => h e inside f⟩

theorem forall_mem_entryParts {P : Formula → Prop} {ps : List (String × Formula)} :
    (∀ f ∈ entryParts ps, P f) ↔ ∀ p ∈ ps, ∀ f ∈ p.2.parts, P f := by
  simp only [mem_entryParts, forall_exists_index, and_imp]
  exact ⟨fun h p inside f => h f p inside, fun h f p inside => h p inside f⟩

/-! ## The scan -/

/-- The name of a root or field that is relative. -/
def relative? : Formula → Option String
  | .root name true | .field _ name true => some name
  | _ => none

/-- A visit of the parts, if none of them is stray, adds the relative names among them
to those that were found before, in their order. -/
def Visits (visit : List String → Except (Option String) (List String))
    (parts : List Formula) : Prop :=
  (∀ text, .stray text ∉ parts) →
    ∀ found, visit found = .ok ((parts.filterMap relative?).foldl Names.add found)

/-- Two visits one after the other visit the parts of both. -/
theorem Visits.append {v v' : List String → Except (Option String) (List String)}
    {ps ps' : List Formula} (left : Visits v ps) (right : Visits v' ps') :
    Visits (fun found => v found >>= v') (ps ++ ps') := by
  intro none found
  simp only [mem_append, not_or, forall_and] at none
  rw [filterMap_append, foldl_append, ← right none.2]
  exact congrArg (· >>= v') (left none.1 found)

/-- A formula that is not relative is passed over. -/
theorem Visits.cons {v : List String → Except (Option String) (List String)} {ps : List Formula}
    {f : Formula} (visits : Visits v ps) (plain : f.relative? = none) : Visits v (f :: ps) := by
  intro none
  rw [filterMap_cons_none plain]
  exact visits fun text member => none text (.tail _ member)

mutual

/-- A visit goes through the parts of a formula, in their order. -/
theorem visit_visits : ∀ f : Formula, Visits f.visit f.parts
  | .literal _ => fun _ _ => rfl
  | .root _ relative => fun _ _ => by cases relative <;> rfl
  | .stray text => fun none => absurd (mem_singleton.mpr rfl) (none text)
  | .field parent name relative => by
    intro none found
    have inner := parent.visit_visits fun text member => none text (.tail _ member)
    rw [visit, inner]
    cases relative <;> rfl
  | .unary _ e => e.visit_visits.cons rfl
  | .binary _ l r | .filter l r _ => (l.visit_visits.append r.visit_visits).cons rfl
  | .conditional t c a => by
    have whole := (t.visit_visits.append c.visit_visits).append a.visit_visits
    simp only [bind_assoc] at whole
    exact whole.cons rfl
  | .array es | .call _ _ es => (visitList_visits es).cons rfl
  | .object ps => (visitEntries_visits ps).cons rfl

theorem visitList_visits : ∀ es : List Formula, Visits (visitList es) (listParts es)
  | [] => fun _ _ => rfl
  | e :: es => e.visit_visits.append (visitList_visits es)

theorem visitEntries_visits : ∀ ps : List (String × Formula),
    Visits (visitEntries ps) (entryParts ps)
  | [] => fun _ _ => rfl
  | (_, e) :: ps => e.visit_visits.append (visitEntries_visits ps)

end

/-- The names that are collected on the way are the distinct ones among all. -/
theorem relativeNames_eq {f : Formula} (proper : ∀ text, .stray text ∉ f.parts) :
    f.relativeNames = .ok (Names.distinct (f.parts.filterMap relative?)) :=
  f.visit_visits proper []

/-- The parts of a built formula are built. -/
theorem Built.of_mem_parts {f : Formula} (built : f.Built g) : ∀ p ∈ f.parts, p.Built g := by
  induction built with
  | literal value => exact forall_mem_singleton.mpr (.literal value)
  | root name relative => exact forall_mem_singleton.mpr (.root name relative)
  | field name parent ih => exact forall_mem_cons.mpr ⟨.field name parent, ih⟩
  | unary known e ih => exact forall_mem_cons.mpr ⟨.unary known e, ih⟩
  | binary known l r left right =>
    exact forall_mem_cons.mpr ⟨.binary known l r, forall_mem_append.mpr ⟨left, right⟩⟩
  | conditional t c a test consequent alternate =>
    refine forall_mem_cons.mpr ⟨.conditional t c a, forall_mem_append.mpr ⟨?_, alternate⟩⟩
    exact forall_mem_append.mpr ⟨test, consequent⟩
  | array each ih =>
    exact forall_mem_cons.mpr ⟨.array each, forall_mem_listParts.mpr ih⟩
  | object each ih =>
    exact forall_mem_cons.mpr ⟨.object each, forall_mem_entryParts.mpr ih⟩
  | filter relative s e subject expr =>
    exact forall_mem_cons.mpr ⟨.filter relative s e, forall_mem_append.mpr ⟨subject, expr⟩⟩
  | call pool name each ih =>
    exact forall_mem_cons.mpr ⟨.call pool name each, forall_mem_listParts.mpr ih⟩

/-- In a built formula only roots are relative, so the scan does not fail. -/
theorem Built.relativeNames {f : Formula} (built : f.Built g) :
    ∃ names, f.relativeNames = .ok names ∧ names.Nodup ∧
      ∀ n, n ∈ names ↔ .root n true ∈ f.parts := by
  have scanned := relativeNames_eq fun text member => by
    cases built.of_mem_parts _ member
  refine ⟨_, scanned, Names.nodup_distinct _, fun n => ?_⟩
  rw [Names.mem_distinct, mem_filterMap]
  constructor
  · rintro ⟨p, member, is⟩
    -- a field that the parser builds is not relative
    cases built.of_mem_parts _ member with
    | root _ relative =>
      cases relative
      · cases is
      · cases is
        exact member
    | _ => cases is
  · exact fun member => ⟨_, member, rfl⟩

end JexlScript.Formula
