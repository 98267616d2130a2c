import JexlScript.Names
import Mathlib.Data.List.Induction
import Mathlib.Data.List.Nodup

/-!
# Lists without repetitions

A list of names that is collected one by one holds every name that was added,
and holds it once.
-/

namespace JexlScript

open List

theorem append_within {α : Type} {us us' vs vs' : List α} (left : us ⊆ vs) (right : us' ⊆ vs') :
    us ++ us' ⊆ vs ++ vs' := fun _ member =>
  mem_append.mpr ((mem_append.mp member).imp (left ·) (right ·))

namespace Names

/-- Adding a name adds no other. -/
theorem mem_add {names : List String} {name x : String} :
    x ∈ add names name ↔ x ∈ names ∨ x = name := by
  unfold add
  split
  · next present =>
      refine ⟨.inl, ?_⟩
      rintro (member | rfl)
      · exact member
      · exact contains_iff_mem.mp present
  · rw [mem_append, mem_singleton]

/-- A name that is there already is not added again. -/
theorem nodup_add {names : List String} (nodup : names.Nodup) (name : String) :
    (add names name).Nodup := by
  unfold add
  split
  · exact nodup
  · next absent =>
      refine nodup_append'.mpr ⟨nodup, nodup_singleton name, ?_⟩
      rw [disjoint_singleton]
      exact fun member => absent (contains_iff_mem.mpr member)

/-- Leaving out repetitions loses no name. -/
theorem mem_distinct {names : List String} {x : String} : x ∈ distinct names ↔ x ∈ names := by
  have general : ∀ (xs seen : List String), x ∈ xs.foldl add seen ↔ x ∈ seen ∨ x ∈ xs := by
    intro xs
    induction xs with
    | nil => simp
    | cons y ys ih =>
      intro seen
      rw [foldl_cons, ih, mem_add, mem_cons, or_assoc]
  rw [distinct, general names []]
  simp

theorem nodup_foldl_add {seen : List String} (nodup : seen.Nodup) (xs : List String) :
    (xs.foldl add seen).Nodup := by
  induction xs generalizing seen with
  | nil => exact nodup
  | cons y ys ih => exact ih (nodup_add nodup y)

theorem nodup_distinct (names : List String) : (distinct names).Nodup :=
  nodup_foldl_add nodup_nil names

/-- Names that were there stay in front. -/
theorem prefix_foldl_add (seen xs : List String) : seen <+: xs.foldl add seen := by
  induction xs generalizing seen with
  | nil => exact prefix_refl _
  | cons y ys ih =>
    refine List.IsPrefix.trans ?_ (ih (add seen y))
    unfold add
    split
    · exact prefix_refl _
    · exact prefix_append _ _

/-- `names` are those of a list, each once, in the order of their first occurrences. -/
structure Firsts (names occurrences : List String) : Prop where
  nodup : names.Nodup
  mem_iff : ∀ n, n ∈ names ↔ n ∈ occurrences
  inOrder : names.Pairwise fun m n => occurrences.idxOf m < occurrences.idxOf n

/-- Names come in the order of their first occurrences. -/
theorem inOrder_distinct (xs : List String) :
    (distinct xs).Pairwise fun m n => xs.idxOf m < xs.idxOf n := by
  induction xs using List.reverseRecOn with
  | nil => exact .nil
  | append_singleton xs x ih =>
    have kept : (distinct xs).Pairwise fun m n =>
        (xs ++ [x]).idxOf m < (xs ++ [x]).idxOf n := by
      refine ih.imp_of_mem fun first second before => ?_
      rwa [idxOf_append_of_mem (mem_distinct.mp first),
        idxOf_append_of_mem (mem_distinct.mp second)]
    rw [distinct, foldl_append]
    show (add (distinct xs) x).Pairwise _
    unfold add
    split
    · exact kept
    · next absent =>
        have new : x ∉ xs := fun member =>
          absent (contains_iff_mem.mpr (mem_distinct.mpr member))
        refine pairwise_append.mpr ⟨kept, pairwise_singleton _ _, fun m first n last => ?_⟩
        rw [mem_singleton.mp last, idxOf_append_of_mem (mem_distinct.mp first),
          idxOf_append_of_notMem new]
        exact Nat.lt_add_right _ (idxOf_lt_length_of_mem (mem_distinct.mp first))

theorem firsts_distinct (xs : List String) : Firsts (distinct xs) xs :=
  ⟨nodup_distinct xs, fun _ => mem_distinct, inOrder_distinct xs⟩

end Names

end JexlScript
