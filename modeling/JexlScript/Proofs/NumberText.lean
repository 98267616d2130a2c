import JexlScript.Proofs.Reading.Numerals

/-!
# Number text

The text of a double is made from a spelling of its shortest decimal: the same
number in the same digits, laid out by where the point falls. The text of an
integer is that of the nearest double.
-/

namespace JexlScript.Script.Reading

open List

open Double (Canonical InInterval magnitudeOf ofMagnitude)

/-- The text of a finite double other than zero is made from the spelling that
routines write, which denotes its shortest decimal, with a minus before it where
the double is negative. However a positive number is spelled, the text made from
it denotes the same number. With the number's digits `ds`, no zero at either end,
and its point `n` places into them, the text is the digits and zeros, the digits
around the point, the digits behind a point and zeros, or one digit before the
point and an exponent. -/
theorem text_respells {d : Double} {negative : Bool} {m : Nat} {e : Int}
    (finite : d.shape = .finite negative m e) (pos : 0 < m) :
    (∃ (s : Spelling) (k : Nat), finiteSpelling true false m e = s.text ∧
      Decimal.Shortest m e k s.value ∧
      (ofMagnitude false d.magnitude).text = Decimal.respell s.text ∧
      d.text = signed negative (Decimal.respell s.text)) ∧
    ∀ s : Spelling, 0 < s.value →
      ∃ (r : Numeral) (ds : List Char) (n : Int), Decimal.respell s.text = r.text ∧
        r.coefficient * 10 ^ r.power = s.value ∧
        Decimal.Proper ds ∧ ds.getLast? ≠ some '0' ∧ Decimal.value ⟨ds, n⟩ = s.value ∧
        (ds.length ≤ n → n ≤ 21 → r.text = ds ++ List.replicate (n - ds.length).toNat '0') ∧
        (0 < n → n < ds.length → n ≤ 21 → r.text = ds.take n.toNat ++ '.' :: ds.drop n.toNat) ∧
        (-6 < n → n ≤ 0 → r.text = '0' :: '.' :: List.replicate (-n).toNat '0' ++ ds) ∧
        (n ≤ -6 ∨ 21 < n →
          r.text = ds.take 1 ++ fractionText (ds.drop 1) ++ 'e' :: Decimal.exponentText (n - 1)) := by
  obtain ⟨canonical, _, _⟩ := Double.eq_ofMagnitude_of_shape finite
  refine ⟨?_, fun s positive => ?_⟩
  · obtain ⟨s, k, spelled, short⟩ := exists_spelling canonical pos
    -- The sign is not a part of the magnitude.
    have shape : (ofMagnitude false d.magnitude).shape = .finite false m e := by
      rw [magnitude_of_shape finite, Double.shape_ofMagnitude canonical]
    refine ⟨s, k, spelled, short, ?_, ?_⟩
    · simp [Double.text, shape, pos.ne', spelled]
    · simp [Double.text, finite, pos.ne', spelled, signed]
  · have coefficient := Spelling.coefficient_pos positive
    obtain ⟨proper, value⟩ := Decimal.ofNat_spec coefficient s.power
    have trimmed := Decimal.getLast?_ofNat s.coefficient s.power
    obtain ⟨r, layout, same⟩ := exists_numeral_layout _ proper
    refine ⟨r, (Decimal.ofNat s.coefficient s.power).digits,
      (Decimal.ofNat s.coefficient s.power).point, ?_, same.trans value, proper, trimmed, value, ?_⟩
    · rw [Decimal.respell, s.ofText_text positive, layout]
    obtain ⟨c, cs, head, _⟩ := proper.head
    have some := congrArg List.length head
    rw [List.length_cons] at some
    rw [← layout, Decimal.layout]
    -- From here on only the digits and the point count: the layouts are told apart by the point.
    generalize Decimal.ofNat s.coefficient s.power = d at *
    refine ⟨fun _ _ => ?_, fun _ _ _ => ?_, fun _ _ => ?_, fun _ => ?_⟩
    · rw [if_pos (by omega)]
    · rw [if_neg (by omega), if_pos (by omega)]
    · rw [if_neg (by omega), if_neg (by omega), if_pos (by omega)]
    · rw [if_neg (by omega), if_neg (by omega), if_neg (by omega), head]
      cases cs <;> rfl

/-- Routines write an exponent here, scripts all twenty-one places. -/
theorem text_respells_places : ∃ (s : Spelling) (r : Numeral),
    s.text = "1.2345678901234568e+20".toList ∧ r.text = "123456789012345680000".toList ∧
    Double.text ⟨0xc41ac53a7e04bcda⟩ = '-' :: r.text ∧
    r.coefficient * 10 ^ r.power = s.value := by
  obtain ⟨⟨s, k, written, short, _, text⟩, all⟩ := @text_respells ⟨0xc41ac53a7e04bcda⟩ true
    7535204407491802 14 (by decide +kernel) (by decide)
  obtain ⟨r, _, _, respelled, value, _⟩ := all s (short.inside.pos (by decide))
  have spelled : s.text = "1.2345678901234568e+20".toList := written.symm.trans (by decide +kernel)
  refine ⟨s, r, spelled, ?_, by rw [text, respelled]; rfl, value⟩
  rw [← respelled, spelled]
  decide +kernel

/-! ## Integers -/

/-- A double with an integer value has a shortest decimal without a point. -/
theorem shortest_of_nat {m n : Nat} {e : Int} (pos : 0 < n) (value : (m * 2 ^ e : ℚ) = n)
    (fine : e ≤ 0) : ∃ k, Decimal.Shortest m e k n := by
  obtain ⟨k, digits, least⟩ : ∃ k, Decimal.HasDigits k n ∧ ∀ j, Decimal.HasDigits j n → k ≤ j := by
    classical
    have some : ∃ k, Decimal.HasDigits k n := ⟨n, n, 0, Nat.lt_pow_self (by decide), by simp⟩
    exact ⟨Nat.find some, Nat.find_spec some, fun j => Nat.find_min' some⟩
  -- The step is at most one, so the interval holds no other integer.
  have step : (2 : ℚ) ^ e ≤ 1 := zpow_le_one_of_nonpos₀ (by norm_num) fine
  refine ⟨k, value ▸ Double.inInterval_self m e, digits, ?_, ?_, ?_⟩
  · rintro j _ ⟨c, x, small, rfl⟩ ⟨lower, upper, _⟩
    have half := mul_le_mul (Double.halfStepBelow_bounds m e).2 step (by positivity) (by norm_num)
    rw [sub_mul, value] at lower
    rw [add_mul, value] at upper
    refine least j ?_
    rcases lt_or_ge x 0 with fraction | whole
    · -- Below the point the digits take more places than the integer has.
      have tenth : (10 : ℚ) ^ x ≤ 10 ^ (-1 : Int) := zpow_le_zpow_right₀ (by norm_num) (by omega)
      have one : (1 : ℚ) ≤ n := by exact_mod_cast pos
      have : (n : ℚ) ≤ c := by
        have := mul_le_mul_of_nonneg_left tenth (Nat.cast_nonneg c : (0 : ℚ) ≤ c)
        norm_num at this
        linarith
      exact ⟨n, 0, lt_of_le_of_lt (by exact_mod_cast this) small, by simp⟩
    · obtain ⟨i, rfl⟩ := Int.eq_ofNat_of_zero_le whole
      rw [zpow_natCast] at lower upper
      have : (2 * n : ℚ) < 2 * (c * 10 ^ i) + 2 := by linarith
      have atMost : 2 * n < 2 * (c * 10 ^ i) + 2 := by exact_mod_cast this
      have : (2 * (c * 10 ^ i) : ℚ) < 2 * n + 2 := by linarith
      have atLeast : 2 * (c * 10 ^ i) < 2 * n + 2 := by exact_mod_cast this
      obtain rfl : n = c * 10 ^ i := by omega
      exact ⟨c, i, small, by push_cast; rfl⟩
  · intro z _ _
    rw [value, sub_self, abs_zero]
    exact abs_nonneg _
  · intro z _ _ ne equal
    rw [value, sub_self, abs_zero, eq_comm, abs_eq_zero, sub_eq_zero] at equal
    exact absurd equal ne

/-- Up to 21 digits an integer is written as it is. -/
theorem layout_ofNat {n : Nat} (short : (Nat.toDigits 10 n).length ≤ 21) :
    (Decimal.ofNat n 0).layout = Nat.toDigits 10 n := by
  obtain ⟨z, parts⟩ := Decimal.dropTrailingZeros_append (Nat.toDigits 10 n)
  have lengths := congrArg List.length parts
  rw [length_append, length_replicate] at lengths
  rw [Decimal.ofNat, Decimal.layout]
  dsimp only
  rw [if_pos (by omega)]
  nth_rewrite 4 [parts]
  congr 2
  omega

/-- An integer in the interval of a double is rounded to it. -/
theorem ofInt?_of_inInterval {n : Int} {m : Nat} {e : Int} (canonical : Canonical m e)
    (pos : 0 < m) (inside : InInterval m e n.natAbs) :
    Double.ofInt? n = some (ofMagnitude (n < 0) (magnitudeOf m e)) := by
  have finite := canonical.magnitudeOf_lt
  rw [Double.ofInt?, Double.ofRatio_eq_of_inInterval canonical pos one_ne_zero
    (by simpa using inside), Double.isInfinite, (Double.signBit_ofMagnitude (finite.trans (by decide))).2,
    decide_eq_false finite.ne, if_neg Bool.false_ne_true]

/-- An integer is written as the double nearest to it. -/
theorem intText?_eq (n : Int) : intText? n = (Double.ofInt? n).map Double.text := by
  rw [intText?]
  split
  · rename_i small
    rcases Nat.eq_zero_or_pos n.natAbs with none | pos
    · obtain rfl : n = 0 := by omega
      decide +kernel
    · obtain ⟨k, canonical, value⟩ := exists_canonical pos small
      obtain ⟨j, short⟩ := shortest_of_nat pos value (by omega)
      have few : (Nat.toDigits 10 n.natAbs).length ≤ 21 := by
        have low := (Decimal.width_spec pos).1.trans_lt (small.trans (by decide : 2 ^ 53 < 10 ^ 16))
        have := (Nat.pow_lt_pow_iff_right (by decide)).mp low
        rw [Decimal.width] at this
        omega
      have found := shortest_eq_of_value (n := n.natAbs) (x := 0) canonical (by positivity)
        (by simpa using short)
      rw [ofInt?_of_inInterval canonical (by positivity) short.inside, Option.map_some,
        Double.text_finite (Double.shape_ofMagnitude canonical _) (Nat.mul_pos pos (by positivity)),
        intDigits, found, layout_ofNat few]
      simp only [decide_eq_true_eq]
  · rfl

end JexlScript.Script.Reading
