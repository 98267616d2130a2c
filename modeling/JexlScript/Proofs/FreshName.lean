import JexlScript.Inline.Substitution
import Mathlib.Data.List.Nodup
import Mathlib.Data.List.Perm.Subperm

/-!
# Fresh names

`freshName` gives the first variant of a name that is not taken. There is always
one within its bound, since the variants of a name are pairwise distinct and the
bound lets it try one more of them than there are taken names. Protecting the
binders of a scope gives each clashing one a name that was not taken before, no
two of them the same.
-/

namespace JexlScript.Inline

open List Script

/-! ## Choosing a name -/

/-- Variants of one name with different numbers differ. -/
theorem variantName_inj {name : String} {i j : Nat}
    (h : variantName name i = variantName name j) : i = j := by
  rw [variantName, variantName, String.append_right_inj, Nat.toString_eq_ofList_toDigits,
    Nat.toString_eq_ofList_toDigits, String.ofList_inj] at h
  -- The digits of a number say which it is.
  have values := congrArg (Nat.ofDigitChars 10 · 0) h
  simpa using values

/-- The search stops at the first variant that is not taken, or when the fuel is used up. -/
theorem firstFree_spec (taken : List String) (name : String) (fuel i : Nat) :
    ∃ k, k ≤ fuel ∧ firstFree taken name fuel i = variantName name (i + k) ∧
      (∀ j < k, variantName name (i + j) ∈ taken) ∧
      (k < fuel → variantName name (i + k) ∉ taken) := by
  induction fuel generalizing i with
  | zero => exact ⟨0, Nat.le_refl 0, rfl, fun j hj => absurd hj (Nat.not_lt_zero j),
      fun h => absurd h (Nat.lt_irrefl 0)⟩
  | succ fuel ih =>
    rw [firstFree]
    by_cases here : taken.contains (variantName name i) = true
    · rw [if_pos here]
      -- The name is taken, and the search goes on one further.
      obtain ⟨k, bound, found, before, early⟩ := ih (i + 1)
      refine ⟨k + 1, by omega, ?_, ?_, ?_⟩
      · rw [found, Nat.add_right_comm, Nat.add_assoc]
      · intro j hj
        cases j with
        | zero => exact contains_iff_mem.mp here
        | succ j =>
          have := before j (by omega)
          rwa [Nat.add_right_comm, Nat.add_assoc] at this
      · intro h
        have := early (by omega)
        rwa [Nat.add_right_comm, Nat.add_assoc] at this
    · rw [if_neg here]
      refine ⟨0, by omega, rfl, fun j hj => absurd hj (Nat.not_lt_zero j), fun _ => ?_⟩
      exact fun h => here (contains_iff_mem.mpr h)

/-- No more variants in a row are taken than there are taken names. -/
theorem taken_variants_le {taken : List String} {name : String} {i k : Nat}
    (h : ∀ j < k, variantName name (i + j) ∈ taken) : k ≤ taken.length := by
  let run := (List.range k).map fun j => variantName name (i + j)
  have nodup : run.Nodup := by
    refine List.Nodup.map (fun a b hab => ?_) nodup_range
    have := variantName_inj hab
    omega
  have within : run ⊆ taken := by
    intro x hx
    obtain ⟨j, hj, rfl⟩ := mem_map.mp hx
    exact h j (mem_range.mp hj)
  have := (nodup.subperm within).length_le
  simpa [run] using this

/-- A fresh name is the first variant that is not taken. The search does not run out of fuel. -/
theorem freshName_spec (taken : List String) (name : String) :
    ∃ i, 1 ≤ i ∧ freshName taken name = variantName name i ∧ variantName name i ∉ taken ∧
      ∀ j, 1 ≤ j → j < i → variantName name j ∈ taken := by
  obtain ⟨k, bound, found, before, early⟩ := firstFree_spec taken name taken.length 1
  refine ⟨1 + k, by omega, found, ?_, ?_⟩
  · intro last
    have all : ∀ j < k + 1, variantName name (1 + j) ∈ taken := by
      intro j hj
      by_cases h : j = k
      · rw [h]
        exact last
      · exact before j (by omega)
    have full : k = taken.length := by
      by_contra h
      exact early (by omega) last
    have := taken_variants_le all
    omega
  · intro j hj hjk
    have := before (j - 1) (by omega)
    rwa [show 1 + (j - 1) = j by omega] at this

/-- A fresh name is not taken. -/
theorem freshName_not_mem (taken : List String) (name : String) :
    freshName taken name ∉ taken := by
  obtain ⟨i, _, found, free, _⟩ := freshName_spec taken name
  rw [found]
  exact free

/-- Whether a name is another one or one of its variants. -/
def Variant (x y : String) : Prop := y = x ∨ ∃ i, y = variantName x i

/-- No variant looks like a placeholder, since it ends in a digit. -/
theorem variantName_ne_undefined (x : String) (i : Nat) : variantName x i ≠ "undefined" := by
  intro same
  have inside : '_' ∈ (variantName x i).toList := by simp [variantName]
  rw [same] at inside
  exact absurd inside (by decide)

theorem Variant.ne_undefined {x y : String} (h : Variant x y) (other : x ≠ "undefined") :
    y ≠ "undefined" := by
  rcases h with rfl | ⟨i, rfl⟩
  · exact other
  · exact variantName_ne_undefined x i

/-! ## Protecting binders

The new names are kept by binder, the latest first, so that looking a binder up
gives the name that counts. -/

theorem lookup_cons_ne {β : Type} {x a : String} {b : β} {table : List (String × β)} (h : x ≠ a) :
    ((a, b) :: table).lookup x = table.lookup x := by
  rw [lookup_cons, beq_false_of_ne h]

/-- What protecting binders does: only those that clash with a reserved name get
a new name, a variant which was free before and is taken from then on, and two
binders never get the same. -/
structure Protected (taken reserved binders : List String) (before after : List (String × String))
    (taken' : List String) : Prop where
  grows : taken ⊆ taken'
  other : ∀ x, x ∉ binders → after.lookup x = before.lookup x
  kept : ∀ x, x ∉ reserved → after.lookup x = before.lookup x
  fresh : ∀ x ∈ binders, x ∈ reserved → ∃ i, after.lookup x = some (variantName x i) ∧
    variantName x i ∉ taken ∧ variantName x i ∈ taken'
  distinct : ∀ x ∈ binders, ∀ z ∈ binders, x ∈ reserved → z ∈ reserved →
    after.lookup x = after.lookup z → x = z

/-- A reserved name is renamed to a fresh one, which is taken from then on. -/
theorem protect_of_mem {reserved : List String} {name : String} (h : name ∈ reserved)
    (replacements : List (String × Expr)) (renames : List (String × String))
    (taken : List String) :
    (Scope.protect ⟨replacements, renames, reserved⟩ name) taken =
      (⟨replacements, (name, freshName taken name) :: renames, reserved⟩,
        freshName taken name :: taken) := by
  rw [Scope.protect, if_pos (contains_iff_mem.mpr h)]
  rfl

/-- Any other name is left alone. -/
theorem protect_of_not_mem {reserved : List String} {name : String} (h : name ∉ reserved)
    (replacements : List (String × Expr)) (renames : List (String × String))
    (taken : List String) :
    (Scope.protect ⟨replacements, renames, reserved⟩ name) taken =
      (⟨replacements, renames, reserved⟩, taken) := by
  rw [Scope.protect, if_neg (fun c => h (contains_iff_mem.mp c))]
  rfl

section

variable {taken reserved names taken' : List String} {before after : List (String × String)}
  {name chosen : String} {i : Nat}

theorem Protected.cons_of_not_mem (h : Protected taken reserved names before after taken')
    (plain : name ∉ reserved) :
    Protected taken reserved (name :: names) before after taken' where
  grows := h.grows
  other x hx := h.other x (fun inside => hx (mem_cons_of_mem _ inside))
  kept := h.kept
  fresh x hx hr := by
    rcases mem_cons.mp hx with rfl | hx
    · exact absurd hr plain
    · exact h.fresh x hx hr
  distinct x hx z hz hrx hrz := by
    rcases mem_cons.mp hx with rfl | hx
    · exact absurd hrx plain
    · rcases mem_cons.mp hz with rfl | hz
      · exact absurd hrz plain
      · exact h.distinct x hx z hz hrx hrz

/-- No later binder gets a name that was already chosen. -/
theorem Protected.lookup_ne (h : Protected (chosen :: taken) reserved names before after taken')
    {x : String} (hx : x ∈ names) (hr : x ∈ reserved) : after.lookup x ≠ some chosen := by
  obtain ⟨i, found, free, _⟩ := h.fresh x hx hr
  intro same
  cases found.symm.trans same
  exact free mem_cons_self

/-- A binder that clashes gets a name of its own, and those behind it are protected with
that name taken. -/
theorem Protected.cons_of_mem
    (h : Protected (variantName name i :: taken) reserved names
      ((name, variantName name i) :: before) after taken')
    (clash : name ∈ reserved) (free : variantName name i ∉ taken) :
    Protected taken reserved (name :: names) before after taken' := by
  have head : name ∉ names → after.lookup name = some (variantName name i) := by
    intro last
    rw [h.other name last, lookup_cons_self]
  refine ⟨fun x hx => h.grows (mem_cons_of_mem _ hx), ?_, ?_, ?_, ?_⟩
  · intro x hx
    rw [h.other x (fun inside => hx (mem_cons_of_mem _ inside))]
    exact lookup_cons_ne fun same => hx (same ▸ mem_cons_self)
  · intro x hx
    rw [h.kept x hx]
    exact lookup_cons_ne fun same => hx (same ▸ clash)
  · intro x hx hr
    by_cases again : x ∈ names
    · obtain ⟨j, found, notTaken, isTaken⟩ := h.fresh x again hr
      exact ⟨j, found, fun old => notTaken (mem_cons_of_mem _ old), isTaken⟩
    · obtain rfl : x = name := by simpa [again] using hx
      exact ⟨i, head again, free, h.grows mem_cons_self⟩
  · -- A binder that comes again behind itself has the name that it gets there.
    intro x hx z hz hrx hrz same
    by_cases hinx : x ∈ names <;> by_cases hinz : z ∈ names
    · exact h.distinct x hinx z hinz hrx hrz same
    · obtain rfl : z = name := by simpa [hinz] using hz
      exact absurd (same.trans (head hinz)) (h.lookup_ne hinx hrx)
    · obtain rfl : x = name := by simpa [hinx] using hx
      exact absurd (same.symm.trans (head hinx)) (h.lookup_ne hinz hrz)
    · obtain rfl : x = name := by simpa [hinx] using hx
      obtain rfl : z = x := by simpa [hinz] using hz
      rfl

end

theorem protectAll_cons (scope : Scope) (name : String) (names taken : List String) :
    scope.protectAll (name :: names) taken =
      (scope.protect name taken).1.protectAll names (scope.protect name taken).2 := rfl

/-- Protecting the binders of a scope renames them apart, whatever is to be replaced. -/
theorem protectAll_spec (reserved : List String) : ∀ (binders : List String)
    (renames : List (String × String)) (taken : List String), ∃ renames' taken',
      Protected taken reserved binders renames renames' taken' ∧
      ∀ replacements, (Scope.protectAll ⟨replacements, renames, reserved⟩ binders) taken =
        (⟨replacements, renames', reserved⟩, taken')
  | [], renames, taken => by
    refine ⟨renames, taken, ⟨List.Subset.refl _, fun _ _ => rfl, fun _ _ => rfl, ?_, ?_⟩,
      fun _ => rfl⟩
    · intro x hx
      exact absurd hx not_mem_nil
    · intro x hx
      exact absurd hx not_mem_nil
  | name :: names, renames, taken => by
    by_cases clash : name ∈ reserved
    · obtain ⟨i, _, chosen, free, _⟩ := freshName_spec taken name
      obtain ⟨renames', taken', spec, runs⟩ := protectAll_spec reserved names
        ((name, variantName name i) :: renames) (variantName name i :: taken)
      refine ⟨renames', taken', spec.cons_of_mem clash free, ?_⟩
      intro replacements
      rw [protectAll_cons, protect_of_mem clash, chosen]
      exact runs replacements
    · obtain ⟨renames', taken', spec, runs⟩ := protectAll_spec reserved names renames taken
      refine ⟨renames', taken', spec.cons_of_not_mem clash, ?_⟩
      intro replacements
      rw [protectAll_cons, protect_of_not_mem clash]
      exact runs replacements

end JexlScript.Inline
