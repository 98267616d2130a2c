import JexlScript.Proofs.Parsing.Acceptance
import JexlScript.Proofs.RelativeNames

/-!
# Formulas as they are written

The parser drops the earlier values of a repeated key from an object. A second
reader keeps them, and so gives a formula with all that the text holds;
`Formula.merged` drops the values afterwards. Side by side, the two readers keep
`Formula.AsWritten`: the second formula merges to the first, and each of its
filters is marked as relative just if a relative name stands in it outside of the
filters in it.
-/

namespace JexlScript

open List

namespace Formula

open Parse

/-! ## Relative names outside of filters -/

mutual

/-- The relative names of a formula that do not stand in the brackets of a filter
in it. Those in the subject of a filter count. -/
def ownRelatives : Formula → List String
  | .literal _ | .stray _ => []
  | .root name relative => if relative then [name] else []
  | .field parent name relative => parent.ownRelatives ++ if relative then [name] else []
  | .unary _ e => e.ownRelatives
  | .binary _ l r => l.ownRelatives ++ r.ownRelatives
  | .conditional t c a => t.ownRelatives ++ (c.ownRelatives ++ a.ownRelatives)
  | .array es => listOwnRelatives es
  | .object ps => entryOwnRelatives ps
  | .filter s _ _ => s.ownRelatives
  | .call _ _ args => listOwnRelatives args

def listOwnRelatives : List Formula → List String
  | [] => []
  | e :: es => e.ownRelatives ++ listOwnRelatives es

def entryOwnRelatives : List (String × Formula) → List String
  | [] => []
  | (_, e) :: ps => e.ownRelatives ++ entryOwnRelatives ps

end

/-! ## Merged formulas -/

mutual

/-- The formula with a repeated key only once in each object, at its first place
and with its last value. -/
def merged : Formula → Formula
  | .literal value => .literal value
  | .root name relative => .root name relative
  | .field parent name relative => .field parent.merged name relative
  | .unary op e => .unary op e.merged
  | .binary op l r => .binary op l.merged r.merged
  | .conditional t c a => .conditional t.merged c.merged a.merged
  | .array es => .array (listMerged es)
  | .object ps => ofEntries (entryMerged ps)
  | .filter s e relative => .filter s.merged e.merged relative
  | .call pool name args => .call pool name (listMerged args)
  | .stray text => .stray text

def listMerged : List Formula → List Formula
  | [] => []
  | e :: es => e.merged :: listMerged es

def entryMerged : List (String × Formula) → List (String × Formula)
  | [] => []
  | (key, e) :: ps => (key, e.merged) :: entryMerged ps

end

/-! ## Marks that are exact -/

/-- A filter is marked as relative just if a relative name stands in it, outside of the filters in
it. -/
def MarksExact (fs : List Formula) : Prop :=
  ∀ s e relative, .filter s e relative ∈ fs → (relative = true ↔ e.ownRelatives ≠ [])

theorem MarksExact.append {fs fs' : List Formula} (left : MarksExact fs) (right : MarksExact fs') :
    MarksExact (fs ++ fs') := fun s e relative member =>
  (mem_append.mp member).elim (left s e relative) (right s e relative)

/-- Only filters have marks. -/
theorem MarksExact.cons {f : Formula} {fs : List Formula} (others : MarksExact fs)
    (other : ∀ s e relative, f ≠ .filter s e relative) : MarksExact (f :: fs) := by
  intro s e relative member
  rcases mem_cons.mp member with same | member
  · exact absurd same.symm (other s e relative)
  · exact others s e relative member

/-- A second formula is what is written of a first: it merges to it, its marks are
exact, and `m` says whether it has relative names of its own. -/
structure AsWritten (m : Bool) (f w : Formula) : Prop where
  merges : w.merged = f
  marks : MarksExact w.parts
  own : m = true ↔ w.ownRelatives ≠ []

theorem own_append {m m' : Bool} {xs ys : List String} (left : m = true ↔ xs ≠ [])
    (right : m' = true ↔ ys ≠ []) : (m || m') = true ↔ xs ++ ys ≠ [] := by
  rw [Bool.or_eq_true, left, right]
  simp only [ne_eq, append_eq_nil_iff, not_and_or]

/-! ## What is written, part by part -/

namespace AsWritten

attribute [local simp] ownRelatives merged

variable {m m' m'' : Bool} {f f' f'' w w' w'' : Formula}

theorem literal (v : Scalar) : AsWritten false (.literal v) (.literal v) :=
  ⟨rfl, by simp [MarksExact, parts], by simp⟩

theorem root (name : String) (relative : Bool) :
    AsWritten relative (.root name relative) (.root name relative) :=
  ⟨rfl, by simp [MarksExact, parts], by cases relative <;> simp⟩

theorem field (written : AsWritten m f w) (name : String) :
    AsWritten m (.field f name false) (.field w name false) :=
  ⟨by rw [merged, written.merges], written.marks.cons (by simp),
    by simpa using written.own⟩

theorem unary (written : AsWritten m f w) (op : String) :
    AsWritten m (.unary op f) (.unary op w) :=
  ⟨by rw [merged, written.merges], written.marks.cons (by simp), written.own⟩

theorem binary (left : AsWritten m f w) (right : AsWritten m' f' w') (op : String) :
    AsWritten (m || m') (.binary op f f') (.binary op w w') :=
  ⟨by rw [merged, left.merges, right.merges], (left.marks.append right.marks).cons (by simp),
    own_append left.own right.own⟩

theorem conditional (test : AsWritten m f w) (consequent : AsWritten m' f' w')
    (alternate : AsWritten m'' f'' w'') :
    AsWritten (m || (m' || m'')) (.conditional f f' f'') (.conditional w w' w'') :=
  ⟨by rw [merged, test.merges, consequent.merges, alternate.merges],
    ((test.marks.append consequent.marks).append alternate.marks).cons (by simp),
    own_append test.own (own_append consequent.own alternate.own)⟩

/-- The mark of a filter is taken from its predicate and goes no further. -/
theorem filter (subject : AsWritten m f w) (contents : AsWritten m' f' w') :
    AsWritten m (.filter f f' m') (.filter w w' m') := by
  refine ⟨by rw [merged, subject.merges, contents.merges], fun s e relative member => ?_,
    subject.own⟩
  rcases mem_cons.mp member with same | member
  · cases same
    exact contents.own
  · exact subject.marks.append contents.marks s e relative member

/-- Items side by side are merged and marked one by one. -/
theorem list {fs ws : List Formula} (each : Each AsWritten m fs ws) :
    listMerged ws = fs ∧ MarksExact (listParts ws) ∧ (m = true ↔ listOwnRelatives ws ≠ []) := by
  induction each with
  | nil => exact ⟨rfl, by simp [MarksExact, listParts], by simp [listOwnRelatives]⟩
  | cons first _ ih =>
    obtain ⟨merges, marks, own⟩ := ih
    exact ⟨by rw [listMerged, first.merges, merges], first.marks.append marks,
      own_append first.own own⟩

theorem array {fs ws : List Formula} (each : Each AsWritten m fs ws) :
    AsWritten m (.array fs) (.array ws) := by
  obtain ⟨merges, marks, own⟩ := list each
  exact ⟨by rw [merged, merges], marks.cons (by simp), own⟩

theorem call {fs ws : List Formula} (each : Each AsWritten m fs ws) (pool name : String) :
    AsWritten m (.call pool name fs) (.call pool name ws) := by
  obtain ⟨merges, marks, own⟩ := list each
  exact ⟨by rw [merged, merges], marks.cons (by simp), own⟩

end AsWritten

/-- An object keeps the last of the values of a key, the second reader all of them. -/
theorem AsWritten.object {m : Bool} {ps qs : List (String × Formula)}
    (each : Each (EntryRelated AsWritten) m ps qs) : AsWritten m (ofEntries ps) (.object qs) := by
  obtain ⟨merges, marks, own⟩ : entryMerged qs = ps ∧ MarksExact (entryParts qs) ∧
      (m = true ↔ entryOwnRelatives qs ≠ []) := by
    induction each with
    | nil => exact ⟨rfl, by simp [MarksExact, entryParts], by simp [entryOwnRelatives]⟩
    | @cons _ _ p q _ _ first _ ih =>
      obtain ⟨merges, marks, own⟩ := ih
      obtain ⟨key, value⟩ := p
      obtain ⟨key', value'⟩ := q
      obtain ⟨rfl, first⟩ := first
      exact ⟨by rw [entryMerged, first.merges, merges], first.marks.append marks,
        own_append first.own own⟩
  exact ⟨by rw [merged, merges], marks.cons (by simp), own⟩

/-! ## The second reader -/

/-- The two readers keep what is written, step by step. -/
theorem AsWritten.congruence (P : Token → Prop) : Congruence P AsWritten where
  literal _ _ := .literal _
  root relative _ := .root _ relative
  field name written := written.field name
  unary _ written := written.unary _
  binary _ left right := left.binary right _
  conditional := .conditional
  filter := .filter
  array := .array
  call name _ each := .call each _ name

/-- Reads a text and keeps the earlier values of repeated keys. -/
def parseKeeping {ι : Type} (g : Grammar ι) (text : String) : Except ReadFailure Formula := do
  let tokens ← tokenize g text
  (ofTokensWith g (primaryWith .object) tokens).mapError (ReadFailure.ofParse text.toList.length)

/-- What is parsed has a formula as written. -/
theorem parse_asWritten {ι : Type} {g : Grammar ι} {text : String} {f : Formula}
    (parsed : parse g text = .ok f) : ∃ w, parseKeeping g text = .ok w ∧ AsWritten false f w := by
  obtain ⟨tokens, cut, read⟩ := parse_eq_ok_iff.mp parsed
  rw [ofTokens, ← primaryWith_ofEntries] at read
  obtain ⟨fault, failed, _⟩ | ⟨e, w, read', kept, written⟩ := ofTokensWith_parallel (g := g)
    (fun _ _ _ _ => rfl) (AsWritten.congruence fun _ => True) (fun _ _ _ => .object)
    (fun _ _ => trivial)
  · cases read.symm.trans failed
  · cases read.symm.trans read'
    refine ⟨w, ?_, written⟩
    rw [parseKeeping, cut]
    simp only [Bind.bind, Except.bind, kept, Except.mapError]

end Formula

end JexlScript
