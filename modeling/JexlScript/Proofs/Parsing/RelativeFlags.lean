import JexlScript.Proofs.Parsing.AsWritten

/-!
# Which filters are relative

The mark of a filter in a parsed formula says whether a relative name is written
in its brackets, outside of the brackets in them. A name in a value that a later
entry with the same key replaces is written there, but the formula holds it no
more; all others it holds. `parse_relative_iff` says so, and that no relative name
stands outside of filters or has a parent.
-/

namespace JexlScript

open List

/-! ## Tables without a repeated name -/

/-- A new key goes to the end. -/
theorem Table.set_of_not_mem {α : Type} {t : Table α} {name : String} (value : α)
    (fresh : name ∉ t.names) : Table.set t name value = t ++ [(name, value)] := by
  induction t with
  | nil => rfl
  | cons p t ih =>
    simp only [Table.names, map_cons, mem_cons, not_or] at fresh
    rw [Table.set, if_neg (Ne.symm fresh.1), ih fresh.2, cons_append]

/-- Distinct keys are entered as they come. -/
theorem Table.setAll_of_nodup {α : Type} {t : Table α} {entries : List (String × α)}
    (distinct : (Table.names (t ++ entries)).Nodup) : Table.setAll t entries = t ++ entries := by
  induction entries generalizing t with
  | nil => exact (append_nil t).symm
  | cons p entries ih =>
    have fresh : p.1 ∉ t.names := by
      intro member
      rw [Table.names, map_append, nodup_append] at distinct
      exact distinct.2.2 p.1 member p.1 (.head _) rfl
    have grown := ih (t := t ++ [p]) (by rwa [append_assoc])
    rw [append_assoc] at grown
    rw [← Table.set_of_not_mem p.2 fresh] at grown
    exact grown

namespace Formula

/-! ## Merging -/

theorem mem_entryOwnRelatives {n : String} {ps : List (String × Formula)} :
    n ∈ entryOwnRelatives ps ↔ ∃ p ∈ ps, n ∈ p.2.ownRelatives := by
  induction ps with
  | nil => simp [entryOwnRelatives]
  | cons p ps ih => simp [entryOwnRelatives, ih]

mutual

/-- Merging may lose relative names and gains none. -/
theorem ownRelatives_merged_subset : ∀ w : Formula, w.merged.ownRelatives ⊆ w.ownRelatives
  | .literal _ | .root _ _ | .stray _ => List.Subset.refl _
  | .field parent _ _ => append_within parent.ownRelatives_merged_subset (.refl _)
  | .unary _ e | .filter e _ _ => e.ownRelatives_merged_subset
  | .binary _ l r => append_within l.ownRelatives_merged_subset r.ownRelatives_merged_subset
  | .conditional t c a =>
    append_within t.ownRelatives_merged_subset
      (append_within c.ownRelatives_merged_subset a.ownRelatives_merged_subset)
  | .array es | .call _ _ es => listOwnRelatives_merged_subset es
  | .object ps => fun n own => by
    obtain ⟨p, inside, own⟩ := mem_entryOwnRelatives.mp own
    obtain ⟨q, listed, same⟩ := value_of_mem_ofEntries inside
    exact entryOwnRelatives_merged_subset ps (mem_entryOwnRelatives.mpr ⟨q, listed, same ▸ own⟩)

theorem listOwnRelatives_merged_subset : ∀ ws : List Formula,
    listOwnRelatives (listMerged ws) ⊆ listOwnRelatives ws
  | [] => List.Subset.refl _
  | w :: ws => append_within w.ownRelatives_merged_subset (listOwnRelatives_merged_subset ws)

theorem entryOwnRelatives_merged_subset : ∀ ps : List (String × Formula),
    entryOwnRelatives (entryMerged ps) ⊆ entryOwnRelatives ps
  | [] => List.Subset.refl _
  | (_, w) :: ps => append_within w.ownRelatives_merged_subset (entryOwnRelatives_merged_subset ps)

end

mutual

/-- The parts of a merged formula are merged parts. -/
theorem parts_merged_subset : ∀ w : Formula, w.merged.parts ⊆ w.parts.map merged
  | .literal _ | .root _ _ | .stray _ => List.Subset.refl _
  | .field e _ _ | .unary _ e => cons_subset_cons _ e.parts_merged_subset
  | .binary _ l r | .filter l r _ => by
    rw [parts, map_cons, map_append]
    exact cons_subset_cons _ (append_within l.parts_merged_subset r.parts_merged_subset)
  | .conditional t c a => by
    rw [parts, map_cons, map_append, map_append]
    exact cons_subset_cons _ (append_within
      (append_within t.parts_merged_subset c.parts_merged_subset) a.parts_merged_subset)
  | .array es | .call _ _ es => cons_subset_cons _ (listParts_merged_subset es)
  | .object ps => by
    refine cons_subset_cons _ fun f inside => entryParts_merged_subset ps ?_
    obtain ⟨p, listed, inside⟩ := mem_entryParts.mp inside
    obtain ⟨q, given, same⟩ := value_of_mem_ofEntries listed
    exact mem_entryParts.mpr ⟨q, given, same ▸ inside⟩

theorem listParts_merged_subset : ∀ ws : List Formula,
    listParts (listMerged ws) ⊆ (listParts ws).map merged
  | [] => List.Subset.refl _
  | w :: ws => by
    rw [listParts, map_append]
    exact append_within w.parts_merged_subset (listParts_merged_subset ws)

theorem entryParts_merged_subset : ∀ ps : List (String × Formula),
    entryParts (entryMerged ps) ⊆ (entryParts ps).map merged
  | [] => List.Subset.refl _
  | (_, w) :: ps => by
    rw [entryParts, map_append]
    exact append_within w.parts_merged_subset (entryParts_merged_subset ps)

end

/-- No object repeats a key. -/
def DistinctKeys (fs : List Formula) : Prop := ∀ ps, .object ps ∈ fs → (Table.names ps).Nodup

section

variable {f : Formula} {fs gs : List Formula}

theorem DistinctKeys.inner (distinct : DistinctKeys (f :: fs)) : DistinctKeys fs :=
  fun ps member => distinct ps (.tail _ member)

theorem DistinctKeys.left (distinct : DistinctKeys (fs ++ gs)) : DistinctKeys fs :=
  fun ps member => distinct ps (mem_append_left _ member)

theorem DistinctKeys.right (distinct : DistinctKeys (fs ++ gs)) : DistinctKeys gs :=
  fun ps member => distinct ps (mem_append_right _ member)

end

mutual

/-- Without repeated keys there is nothing to merge. -/
theorem merged_of_distinctKeys : ∀ w : Formula, DistinctKeys w.parts → w.merged = w
  | .literal _, _ | .root _ _, _ | .stray _, _ => rfl
  | .field e _ _, distinct | .unary _ e, distinct => by
    rw [merged, e.merged_of_distinctKeys distinct.inner]
  | .binary _ l r, distinct | .filter l r _, distinct => by
    rw [merged, l.merged_of_distinctKeys distinct.inner.left,
      r.merged_of_distinctKeys distinct.inner.right]
  | .conditional t c a, distinct => by
    rw [merged, t.merged_of_distinctKeys distinct.inner.left.left,
      c.merged_of_distinctKeys distinct.inner.left.right,
      a.merged_of_distinctKeys distinct.inner.right]
  | .array es, distinct | .call _ _ es, distinct => by
    rw [merged, listMerged_of_distinctKeys es distinct.inner]
  | .object ps, distinct => by
    have kept := Table.setAll_of_nodup (t := []) (distinct ps (.head _))
    rw [merged, entryMerged_of_distinctKeys ps distinct.inner, ofEntries, kept, nil_append]

theorem listMerged_of_distinctKeys : ∀ ws : List Formula,
    DistinctKeys (listParts ws) → listMerged ws = ws
  | [], _ => rfl
  | w :: ws, distinct => by
    rw [listMerged, w.merged_of_distinctKeys distinct.left,
      listMerged_of_distinctKeys ws distinct.right]

theorem entryMerged_of_distinctKeys : ∀ ps : List (String × Formula),
    DistinctKeys (entryParts ps) → entryMerged ps = ps
  | [], _ => rfl
  | (_, w) :: ps, distinct => by
    rw [entryMerged, w.merged_of_distinctKeys distinct.left,
      entryMerged_of_distinctKeys ps distinct.right]

end

/-! ## Filters -/

/-- A filter of a merged formula comes from one that was written, with the same mark. -/
theorem filter_of_merged {w s e : Formula} {relative : Bool}
    (part : .filter s e relative ∈ w.merged.parts) :
    ∃ s' e', .filter s' e' relative ∈ w.parts ∧ s'.merged = s ∧ e'.merged = e := by
  obtain ⟨q, inside, same⟩ := mem_map.mp (w.parts_merged_subset part)
  cases q with
  | filter s' e' _ =>
    cases same
    exact ⟨s', e', inside, rfl, rfl⟩
  | _ => cases same

/-- **Relative filters.** What a text spells is what is written there, merged. Each
filter in it is marked just if a relative name is written in its brackets outside
of the brackets in them. It is marked if its contents hold such a name, and where
no key is repeated in the brackets, only then. No relative name stands outside of
all filters, and none has a parent. -/
theorem parse_relative_iff {ι : Type} (g : Grammar ι) (text : String) (f : Formula)
    (parsed : parse g text = .ok f) :
    (∃ w, parseKeeping g text = .ok w ∧ w.merged = f ∧
        ∀ s e relative, .filter s e relative ∈ f.parts →
          ∃ s' e', .filter s' e' relative ∈ w.parts ∧ s'.merged = s ∧ e'.merged = e ∧
            (relative = true ↔ e'.ownRelatives ≠ []) ∧
            (e.ownRelatives ≠ [] → relative = true) ∧
            (DistinctKeys e'.parts → (relative = true ↔ e.ownRelatives ≠ []))) ∧
      f.ownRelatives = [] ∧ ∀ parent name, .field parent name true ∉ f.parts := by
  obtain ⟨w, kept, rfl, marks, own⟩ := parse_asWritten parsed
  refine ⟨⟨w, kept, rfl, fun s e relative part => ?_⟩, ?_, fun parent name part => ?_⟩
  · obtain ⟨s', e', inside, subject, rfl⟩ := filter_of_merged part
    have exact := marks s' e' relative inside
    refine ⟨s', e', inside, subject, rfl, exact, fun held => exact.mpr fun none => held ?_,
      fun distinct => ?_⟩
    · exact List.subset_nil.mp (none ▸ e'.ownRelatives_merged_subset)
    · rwa [e'.merged_of_distinctKeys distinct]
  · have none : w.ownRelatives = [] := by simpa using own
    exact List.subset_nil.mp (none ▸ w.ownRelatives_merged_subset)
  · cases (parse_built parsed).of_mem_parts _ part

/-- Whether a filter is marked as relative and holds no relative name. -/
def hasStaleMark : Formula → Bool
  | .filter _ e relative => relative && e.ownRelatives.isEmpty
  | _ => false

/-- An object whose second value replaces a relative one. -/
def replacingText : String := "xs[\x7ba: .b, a: 1\x7d]"

theorem parse_replacingText : ∃ s e, parse Grammar.stock replacingText = .ok (.filter s e true) ∧
    e.ownRelatives = [] := by
  obtain ⟨f, parsed, stale⟩ := exists_ok_of_any
    (x := parse Grammar.stock replacingText) (p := hasStaleMark) (by decide +kernel)
  cases f with
  | filter s e relative =>
    simp only [hasStaleMark, Bool.and_eq_true, List.isEmpty_iff] at stale
    obtain ⟨rfl, none⟩ := stale
    exact ⟨s, e, parsed, none⟩
  | _ => cases stale

/-- The mark is that of what is written, also where the name is dropped. -/
theorem parse_relative_iff_replaced :
    ∃ s e w s' e', parse Grammar.stock replacingText = .ok (.filter s e true) ∧
      e.ownRelatives = [] ∧ parseKeeping Grammar.stock replacingText = .ok w ∧
      .filter s' e' true ∈ w.parts ∧ e'.merged = e ∧ e'.ownRelatives ≠ [] := by
  obtain ⟨s, e, parsed, none⟩ := parse_replacingText
  obtain ⟨⟨w, kept, _, filters⟩, _⟩ := parse_relative_iff Grammar.stock _ _ parsed
  obtain ⟨s', e', inside, _, same, mark, _⟩ := filters s e true (self_mem_parts _)
  exact ⟨s, e, w, s', e', parsed, none, kept, inside, same, mark.mp rfl⟩

/-- A filter can be relative though its contents hold no relative name. -/
theorem parse_relative_stale :
    ¬ ∀ f, parse Grammar.stock replacingText = .ok f → ∀ s e relative,
      .filter s e relative ∈ f.parts → (relative = true ↔ e.ownRelatives ≠ []) := by
  obtain ⟨s, e, parsed, none⟩ := parse_replacingText
  exact fun claimed => (claimed _ parsed s e true (self_mem_parts _)).mp rfl none

end Formula

end JexlScript
